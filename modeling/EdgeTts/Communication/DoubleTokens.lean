import EdgeTts.Lib.Binary64
import EdgeTts.Communication.RequestUrl

/-!
# Tokens in doubles

`sec_ms_gec` computes its seconds in doubles, which `EdgeTokenProvider.secMsGec` has as exact
rationals.  `secMsGecDouble` rounds as the machine does.  Its token is the SHA-256 digest of a
text that tells one five minutes from another and nothing more (`secMsGecDouble_sha256`); and these
five minutes are those of the exact time, but for a tenth of a millisecond at either end
(`windowDouble_eq`), where alone the two functions can differ (`secMsGecDouble_eq_secMsGec`).
-/
namespace EdgeTts
namespace EdgeTokenProvider

open Binary64 (nearest IsDouble abs_nearest_sub_le isDouble_shift roundEven_intCast)

/-! ## The computation -/

/-- `duration<double>(tp.time_since_epoch()).count()`: the count is converted, and divided. -/
def secondsSinceEpochDouble (tp : TimePoint) : Rat := nearest (nearest tp / 1000000000)

/-- `sec_ms_gec`, where the clock reads `now`; `fmod` is exact. -/
def secMsGecDouble (sha256HexUpper : Bytes → Bytes) (p : EdgeTokenProvider) (now : TimePoint) :
    Result Bytes :=
  let unixSeconds := nearest (secondsSinceEpochDouble now + p.clockSkewSeconds)
  let ticks := nearest (unixSeconds + 11644473600)
  let ticks := nearest (ticks - fmod ticks 300)
  let ticks := nearest (ticks * nearest (1000000000 / 100))
  .ok (sha256HexUpper (snprintf 32 (formatF0 ticks) ++ p.config.trustedClientToken))

/-- The seconds since 1601. -/
def fileTime (p : EdgeTokenProvider) (now : TimePoint) : Rat :=
  secondsSinceEpoch now + p.clockSkewSeconds + 11644473600

/-- The same in doubles. -/
def fileTimeDouble (p : EdgeTokenProvider) (now : TimePoint) : Rat :=
  nearest (nearest (secondsSinceEpochDouble now + p.clockSkewSeconds) + 11644473600)

/-- The five minutes that the doubles show. -/
def windowDouble (p : EdgeTokenProvider) (now : TimePoint) : Int := ⌊p.fileTimeDouble now / 300⌋

/-- The reading is an `int64`, and the doubles show a time after 1601 and before the year 10300
or so. -/
structure InRange (p : EdgeTokenProvider) (now : TimePoint) : Prop where
  reading : Fits64 now
  nonneg : 0 ≤ p.fileTimeDouble now
  lt : p.fileTimeDouble now < 2 ^ 38

/-! ## The text of five minutes -/

variable {p p' : EdgeTokenProvider} {now now' : TimePoint}

/-- The text whose digest is the token: the start of the five minutes, in units of 100 ns. -/
def windowText (p : EdgeTokenProvider) (window : Int) : Bytes :=
  Decimal.ofInt 1 (window * 3000000000) ++ p.config.trustedClientToken

/-- **Texts tell the five minutes apart**, and nothing else. -/
theorem windowText_inj {window window' : Int} (config : p'.config = p.config) (h : 0 ≤ window)
    (h' : 0 ≤ window') : p.windowText window = p'.windowText window' ↔ window = window' := by
  constructor
  · intro heq
    rw [windowText, windowText, config] at heq
    have hdigits := List.append_cancel_right heq
    rw [Decimal.ofInt_of_nonneg (by omega), Decimal.ofInt_of_nonneg (by omega)] at hdigits
    have hread := congrArg Decimal.toNat hdigits
    rw [Decimal.toNat_pad, Decimal.toNat_pad, Decimal.toNat_ofNat, Decimal.toNat_ofNat] at hread
    omega
  · rintro rfl
    rw [windowText, windowText, config]

/-- The start of five minutes fits the buffer, and is printed as it is. -/
theorem snprintf_window {window : Int} (nonneg : 0 ≤ window) (fits : window < 2 ^ 32) :
    snprintf 32 (formatF0 ((window * 3000000000 : Int) : Rat)) =
      Decimal.ofInt 1 (window * 3000000000) := by
  have hpos : 0 ≤ window * 3000000000 := by omega
  have hlt : (window * 3000000000).toNat < 10 ^ 31 := by omega
  rw [formatF0, roundEven_intCast]
  refine snprintf_of_fits ?_ ?_
  · rw [Decimal.ofInt_of_nonneg hpos, Decimal.length_pad]
    have := (Decimal.length_ofNat_le_iff (show 0 < 31 by decide)).mpr hlt
    omega
  · rw [Decimal.ofInt_of_nonneg hpos]
    intro hm
    have := Decimal.isDigit_of_mem_pad (fun c hc => Decimal.isDigit_of_mem_ofNat hc) hm
    exact absurd this.1 (by decide)

theorem InRange.window (h : p.InRange now) :
    0 ≤ p.windowDouble now ∧ p.windowDouble now < 2 ^ 30 := by
  have hlt := h.lt
  refine ⟨Int.floor_nonneg.mpr (div_nonneg h.nonneg (by norm_num)), Int.floor_lt.mpr ?_⟩
  push_cast
  linarith

/-- Doubles hold the start of five minutes exactly, in seconds and in units of 100 ns. -/
theorem nearest_window {window : Int} (nonneg : 0 ≤ window) (few : window < 2 ^ 30) :
    nearest (300 * window) = 300 * window ∧
      nearest (300 * window * nearest (1000000000 / 100)) =
        ((window * 3000000000 : Int) : Rat) := by
  have hrate : nearest (1000000000 / 100) = 10000000 := by decide +kernel
  have hseconds : IsDouble (300 * window) := by
    have h := isDouble_shift (m := 300 * window) (by rw [abs_of_nonneg (by omega)]; omega) 0
    simpa using h
  -- 3000000000 is 5859375 times a power of two
  have hticks : IsDouble ((window * 3000000000 : Int) : Rat) := by
    have h := isDouble_shift (m := 5859375 * window) (by rw [abs_of_nonneg (by omega)]; omega) 9
    rwa [show 5859375 * window * 2 ^ 9 = window * 3000000000 by ring] at h
  refine ⟨hseconds.nearest_eq, ?_⟩
  rw [hrate, ← hticks.nearest_eq]
  congr 1
  push_cast
  ring

/-- **The token is the digest of the text of its five minutes.** -/
theorem secMsGecDouble_eq (h : p.InRange now) (sha256HexUpper : Bytes → Bytes) :
    p.secMsGecDouble sha256HexUpper now =
      .ok (sha256HexUpper (p.windowText (p.windowDouble now))) := by
  obtain ⟨hnonneg, hfew⟩ := h.window
  obtain ⟨hseconds, hticks⟩ := nearest_window hnonneg hfew
  have hwindow : p.fileTimeDouble now - fmod (p.fileTimeDouble now) 300 =
      300 * p.windowDouble now := sub_fmod_of_nonneg h.nonneg (by norm_num)
  show Except.ok (sha256HexUpper (snprintf 32 (formatF0 (nearest (nearest
    (p.fileTimeDouble now - fmod (p.fileTimeDouble now) 300) *
      nearest (1000000000 / 100)))) ++ _)) = _
  rw [hwindow, hseconds, hticks, snprintf_window hnonneg (by omega), windowText]

theorem secMsGec_windowText (nonneg : 0 ≤ p.fileTime now) (few : p.windowOf now < 2 ^ 30)
    (sha256HexUpper : Bytes → Bytes) :
    p.secMsGec sha256HexUpper now = .ok (sha256HexUpper (p.windowText (p.windowOf now))) := by
  have hcast : (300 * (p.windowOf now : Rat) * 10000000) =
      ((p.windowOf now * 3000000000 : Int) : Rat) := by
    push_cast
    ring
  have hwindow : 0 ≤ p.windowOf now := Int.floor_nonneg.mpr (div_nonneg nonneg (by norm_num))
  rw [secMsGec_eq _ nonneg, hcast, snprintf_window hwindow (by omega), windowText]

/-! ## How far the doubles are off -/

/-- The exact result is at most slightly greater than the rounded one. -/
theorem abs_le_of_nearest {x bound : Rat} (h : |nearest x| ≤ bound) :
    |x| ≤ bound * (1 + 1 / 2 ^ 52) := by
  have hround := abs_nearest_sub_le x
  have htriangle : |x| ≤ |nearest x| + |nearest x - x| := by
    have h := abs_sub_abs_le_abs_sub x (nearest x)
    rw [abs_sub_comm] at h
    linarith
  have hpos := abs_nonneg x
  have hbound := (abs_nonneg _).trans h
  norm_num at hround ⊢
  linarith

/-- **The time in doubles** is off by no more than a tenth of a millisecond. -/
theorem abs_fileTimeDouble_sub_le (h : p.InRange now) :
    |p.fileTimeDouble now - p.fileTime now| ≤ 1 / 10000 := by
  obtain ⟨⟨hlow, hhigh⟩, hnonneg, hlt⟩ := h
  have hreading : |(now : Rat)| ≤ 2 ^ 63 := by
    rw [abs_le]
    constructor
    · exact_mod_cast hlow
    · exact_mod_cast hhigh.le
  unfold fileTimeDouble secondsSinceEpochDouble at hnonneg hlt ⊢
  unfold fileTime secondsSinceEpoch
  -- each of the four results, and how far it is from the exact one
  have hcount := abs_nearest_sub_le (now : Rat)
  generalize nearest (now : Rat) = count at *
  have hcountOff : |count - now| ≤ 2 ^ 10 := by linarith
  have hseconds := abs_nearest_sub_le (count / 1000000000)
  generalize nearest (count / 1000000000) = seconds at *
  have hsecondsOff : |seconds - count / 1000000000| ≤ 1 / 400000 := by
    have habs := abs_sub_abs_le_abs_sub count now
    rw [abs_div, abs_of_pos (show (0 : Rat) < 1000000000 by norm_num)] at hseconds
    linarith
  have hskewed := abs_nearest_sub_le (seconds + p.clockSkewSeconds)
  have hskewedBound := @abs_le_of_nearest (seconds + p.clockSkewSeconds) 287000000000
  generalize nearest (seconds + p.clockSkewSeconds) = skewed at *
  have htime := abs_nearest_sub_le (skewed + 11644473600)
  have htimeBound := abs_le_of_nearest (abs_le.mpr ⟨by linarith, hlt.le⟩)
  generalize nearest (skewed + 11644473600) = time at *
  have htimeOff : |time - (skewed + 11644473600)| ≤ 1 / 30000 := by linarith
  have hskewedOff : |skewed - (seconds + p.clockSkewSeconds)| ≤ 1 / 30000 := by
    have hbound := hskewedBound (by
      rw [abs_le] at htimeBound ⊢
      constructor <;> linarith)
    linarith
  rw [abs_le] at hcountOff hsecondsOff hskewedOff htimeOff ⊢
  constructor <;> linarith

/-- The time lies in the five minutes, and not at either end. -/
structure Inside (time : Rat) (window : Int) : Prop where
  start : 300 * (window : Rat) + 1 / 10000 ≤ time
  stop : time + 1 / 10000 < 300 * (window + 1)

theorem Inside.floor_eq {time : Rat} {window : Int} (h : Inside time window) :
    ⌊time / 300⌋ = window := by
  have hstart := h.start
  have hstop := h.stop
  rw [Int.floor_eq_iff, le_div_iff₀ (by norm_num), div_lt_iff₀ (by norm_num)]
  constructor <;> linarith

/-- **The doubles show the five minutes of the exact time.** -/
theorem windowDouble_eq (h : p.InRange now) {window : Int}
    (inside : Inside (p.fileTime now) window) : p.windowDouble now = window := by
  have hoff := abs_le.mp (abs_fileTimeDouble_sub_le h)
  have hstart := inside.start
  have hstop := inside.stop
  rw [windowDouble, Int.floor_eq_iff, le_div_iff₀ (by norm_num), div_lt_iff₀ (by norm_num)]
  constructor <;> linarith

/-- **The token in doubles is the exact one** there. -/
theorem secMsGecDouble_eq_secMsGec (h : p.InRange now) {window : Int}
    (inside : Inside (p.fileTime now) window) (sha256HexUpper : Bytes → Bytes) :
    p.secMsGecDouble sha256HexUpper now = p.secMsGec sha256HexUpper now := by
  have hdouble := windowDouble_eq h inside
  have hexact : p.windowOf now = window := inside.floor_eq
  obtain ⟨hwindow, hfew⟩ := h.window
  rw [hdouble] at hwindow hfew
  have hnonneg : 0 ≤ p.fileTime now := by
    have hstart := inside.start
    have : (0 : Rat) ≤ window := by exact_mod_cast hwindow
    linarith
  rw [secMsGecDouble_eq h, secMsGec_windowText hnonneg (hexact ▸ hfew), hdouble, hexact]

end EdgeTokenProvider

open EdgeTokenProvider (Inside windowText_inj windowDouble_eq secMsGecDouble_eq)

/-- The token of a text is the digest of the text. -/
theorem decode_token (text : Bytes) :
    Hex.decode (Sha256.sha256HexUpper text) = some (Sha256.sha256Raw text) := by
  rw [Sha256.sha256HexUpper_eq, Hex.hexEncodeUpper, Hex.decode_encode Hex.alphabet_upper]

/-- **The token of five minutes**, as the machine computes it.  It is the upper-case SHA-256 digest
of a text that differs from the texts of all other five minutes; so two tokens are the same exactly
if their five minutes are, or SHA-256 collides on their texts.  The five minutes are those of the
exact time, but for a tenth of a millisecond at either end. -/
theorem secMsGecDouble_sha256 {p p' : EdgeTokenProvider} {now now' : TimePoint}
    (h : p.InRange now) (h' : p'.InRange now') (config : p'.config = p.config) :
    let text := p.windowText (p.windowDouble now)
    let text' := p'.windowText (p'.windowDouble now')
    ∃ token token', p.secMsGecDouble Sha256.sha256HexUpper now = .ok token ∧
      p'.secMsGecDouble Sha256.sha256HexUpper now' = .ok token' ∧ IsToken token ∧
      Hex.decode token = some (Sha256.sha256Raw text) ∧
      (text = text' ↔ p.windowDouble now = p'.windowDouble now') ∧
      (token = token' ↔ p.windowDouble now = p'.windowDouble now' ∨
        text ≠ text' ∧ Sha256.sha256Raw text = Sha256.sha256Raw text') ∧
      ∀ window, Inside (p.fileTime now) window → p.windowDouble now = window := by
  intro text text'
  have hdecode := decode_token text
  have hdecode' := decode_token text'
  have hinj := windowText_inj config h.window.1 h'.window.1
  refine ⟨_, _, secMsGecDouble_eq h _, secMsGecDouble_eq h' _, isToken_sha256HexUpper text, hdecode,
    hinj, ?_, fun window inside => windowDouble_eq h inside⟩
  constructor
  · intro heq
    by_cases hwindow : p.windowDouble now = p'.windowDouble now'
    · exact .inl hwindow
    · rw [heq, hdecode'] at hdecode
      exact .inr ⟨fun htext => hwindow (hinj.mp htext), (Option.some.inj hdecode).symm⟩
  · rintro (hwindow | ⟨-, hcollision⟩)
    · rw [hinj.mpr hwindow]
    · rw [Sha256.sha256HexUpper_eq, Sha256.sha256HexUpper_eq, hcollision]

/-- A nanosecond before the end of five minutes the doubles show the next ones, whose token a
corrected clock gives as well. -/
theorem secMsGecDouble_sha256_edge :
    let p : EdgeTokenProvider := { config := defaultEdgeServiceConfig }
    let p' : EdgeTokenProvider := { config := defaultEdgeServiceConfig, clockSkewSeconds := 298 }
    p.windowOf 1704067499999999999 = 44495136 ∧
    ∃ token, p.secMsGecDouble Sha256.sha256HexUpper 1704067499999999999 = .ok token ∧
      p'.secMsGecDouble Sha256.sha256HexUpper 1704067202500000000 = .ok token := by
  intro p p'
  have h : p.InRange 1704067499999999999 :=
    ⟨by decide, by decide +kernel, by decide +kernel⟩
  have h' : p'.InRange 1704067202500000000 :=
    ⟨by decide, by decide +kernel, by decide +kernel⟩
  have hwindow : p.windowDouble 1704067499999999999 = p'.windowDouble 1704067202500000000 := by
    decide +kernel
  obtain ⟨token, token', htoken, htoken', -, -, -, hiff, -⟩ := secMsGecDouble_sha256 h h' rfl
  obtain rfl := hiff.mpr (.inl hwindow)
  exact ⟨by decide +kernel, token, htoken, htoken'⟩

end EdgeTts
