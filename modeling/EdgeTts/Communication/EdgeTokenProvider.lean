import EdgeTts.Lib.Binary64
import EdgeTts.Lib.Decimal
import EdgeTts.Communication.EdgeProtocol

/-!
# Tokens and clock skew

`communication/EdgeTokenProvider.cpp` and `HttpDate.cpp`.  Seconds are exact
rationals where the source has doubles, which `DoubleTokens` accounts for, and
SHA-256 is a parameter.
-/
namespace EdgeTts

/-! ## `parse_http_date` -/

/-- `isspace` in the C locale. -/
def isSpace (c : UInt8) : Bool := c == 0x20 || (0x09 ≤ c && c ≤ 0x0D)

/-- The white-space directive of `sscanf`. -/
def skipSpace (s : Bytes) : Bytes := s.dropWhile isSpace

/-- A literal character of the format. -/
def scanChar (c : UInt8) : Bytes → Option Bytes
  | [] => none
  | x :: s => if x = c then some s else none

/-- `%*[^,]`. -/
def scanNotComma (s : Bytes) : Option Bytes :=
  if (s.takeWhile (· != 0x2C)).isEmpty then none else some (s.dropWhile (· != 0x2C))

/-- What `%d` stores: `strtol` saturates, and the `long` is converted to `int`. -/
def toInt32 (n : Int) : Int := Int.bmod (max (-(2 ^ 63)) (min (2 ^ 63 - 1) n)) (2 ^ 32)

/-- The digits of a `%d`. -/
def scanDigits (s : Bytes) : Option (Nat × Bytes) :=
  let digits := s.takeWhile digit
  if digits.isEmpty then none else some (Decimal.toNat digits, s.dropWhile digit)

/-- `%d`. -/
def scanInt (s : Bytes) : Option (Int × Bytes) :=
  match skipSpace s with
  | 0x2D :: s => (scanDigits s).map fun p => (toInt32 (-p.1), p.2)
  | 0x2B :: s => (scanDigits s).map fun p => (toInt32 p.1, p.2)
  | s => (scanDigits s).map fun p => (toInt32 p.1, p.2)

/-- `%7s`. -/
def scanWord (s : Bytes) : Option (Bytes × Bytes) :=
  let s := skipSpace s
  let word := (s.take 7).takeWhile fun c => !isSpace c
  if word.isEmpty then none else some (word, s.drop word.length)

/-- `kMonths` of `HttpDate.cpp`. -/
def httpMonths : List Bytes :=
  [lit "Jan", lit "Feb", lit "Mar", lit "Apr", lit "May", lit "Jun",
    lit "Jul", lit "Aug", lit "Sep", lit "Oct", lit "Nov", lit "Dec"]

/-- `days_from_civil`; `/` truncates. -/
def daysFromCivil (y m d : Int) : Int :=
  let y := if m ≤ 2 then y - 1 else y
  let era := y.tdiv 400
  let yoe := y - era * 400
  let doy := (153 * (if m > 2 then m - 3 else m + 9) + 2).tdiv 5 + d - 1
  let doe := yoe * 365 + yoe.tdiv 4 - yoe.tdiv 100 + doy
  era * 146097 + doe - 719468

/-- `parse_http_date`, with the format `%*[^,], %d %7s %d %d:%d:%d %7s`. -/
def parseHttpDate (date : Bytes) : Option Int := do
  let s := date.takeWhile (· != 0)
  let s ← scanNotComma s
  let s ← scanChar 0x2C s
  let (day, s) ← scanInt (skipSpace s)
  let (mon, s) ← scanWord (skipSpace s)
  let (year, s) ← scanInt (skipSpace s)
  let (hour, s) ← scanInt (skipSpace s)
  let s ← scanChar 0x3A s
  let (min, s) ← scanInt s
  let s ← scanChar 0x3A s
  let (sec, s) ← scanInt s
  let (_tz, _) ← scanWord (skipSpace s)
  let month ← httpMonths.idxOf? mon
  if day < 1 ∨ day > 31 then none
  else if hour < 0 ∨ hour > 23 then none
  else if min < 0 ∨ min > 59 then none
  else if sec < 0 ∨ sec > 60 then none
  else some (daysFromCivil year (month + 1) day * 86400 + hour * 3600 + min * 60 + sec)

/-! ## `EdgeTokenProvider` -/

/-- The part of `EdgeServiceConfig` that a session uses. -/
structure EdgeServiceConfig where
  websocketEndpoint : Bytes
  trustedClientToken : Bytes
  secMsGecVersion : Bytes
  deriving DecidableEq, Repr

/-- `default_edge_service_config`. -/
def defaultEdgeServiceConfig : EdgeServiceConfig where
  websocketEndpoint := lit "wss://speech.platform.bing.com/consumer/speech/synthesize/readaloud" ++
    lit "/edge/v1?TrustedClientToken=6A5AA1D4EAFF4E9FB37E23D68491D6F4"
  trustedClientToken := lit "6A5AA1D4EAFF4E9FB37E23D68491D6F4"
  secMsGecVersion := lit "1-143.0.3650.75"

structure EdgeTokenProvider where
  config : EdgeServiceConfig
  clockSkewSeconds : Rat := 0

/-- `duration<double>(tp.time_since_epoch()).count()`. -/
def secondsSinceEpoch (tp : TimePoint) : Rat := tp / 1000000000

/-- `fmod`, whose quotient truncates. -/
def fmod (x y : Rat) : Rat := x - y * (if x / y < 0 then ⌈x / y⌉ else ⌊x / y⌋)

/-- `%.0f`, rounding halves to even. -/
def formatF0 (x : Rat) : Bytes := Decimal.ofInt 1 (Binary64.roundEven x)

namespace EdgeTokenProvider

/-- `sec_ms_gec`, where the clock reads `now`. -/
def secMsGec (sha256HexUpper : Bytes → Bytes) (p : EdgeTokenProvider) (now : TimePoint) :
    Result Bytes :=
  let unixSeconds := secondsSinceEpoch now + p.clockSkewSeconds
  let ticks := unixSeconds + 11644473600
  let ticks := ticks - fmod ticks 300
  let ticks := ticks * 10000000
  .ok (sha256HexUpper (snprintf 32 (formatF0 ticks) ++ p.config.trustedClientToken))

def secMsGecVersion (p : EdgeTokenProvider) : Bytes := p.config.secMsGecVersion

def adjustClockSkew (p : EdgeTokenProvider) (seconds : Rat) : EdgeTokenProvider :=
  { p with clockSkewSeconds := p.clockSkewSeconds + seconds }

/-- `adjust_clock_skew_from_server_timestamp`, where the clock reads `now`. -/
def adjustClockSkewFromServerTimestamp (p : EdgeTokenProvider) (serverUnixSeconds : Rat)
    (now : TimePoint) : EdgeTokenProvider :=
  p.adjustClockSkew (serverUnixSeconds - (secondsSinceEpoch now + p.clockSkewSeconds))

end EdgeTokenProvider
end EdgeTts
