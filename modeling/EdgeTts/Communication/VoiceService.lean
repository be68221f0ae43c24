import EdgeTts.Lib.Interaction
import EdgeTts.Communication.EdgeTokenProvider
import EdgeTts.Serialization.Json
import Mathlib.Data.List.AList

/-!
# `communication/VoiceService.cpp` and `EdgeRequestHeaders.cpp`

The voice list is a program over the commands that its collaborators answer: the clock of
the token provider, the generator of identifiers and the HTTP client.  The provider is
shared with other callers, so `listVoices` returns it as it leaves it.
-/
namespace EdgeTts

open Interaction (Prog Trace)
open Interaction.Prog (perform runs_bind runs_perform_bind)

/-- `std::map<std::string, std::string>`. -/
abbrev HeaderMap := AList fun _ : Bytes => Bytes

structure HttpRequest where
  method : Bytes
  url : Bytes
  headers : HeaderMap
  body : Option Bytes := none

structure HttpResponse where
  statusCode : Int := 200
  headers : HeaderMap
  body : Bytes

/-- `EdgeServiceConfig`, with the fields that the voice list reads. -/
structure VoiceServiceConfig extends EdgeServiceConfig where
  voicesEndpoint : Bytes
  userAgent : Bytes

inductive VoiceCommand where
  | now
  | random32Hex
  | send (request : HttpRequest)

abbrev VoiceReply : VoiceCommand → Type
  | .now => TimePoint
  | .random32Hex => Bytes
  | .send _ => Result HttpResponse

/-- `std::toupper` in the C locale. -/
def toUpper (c : UInt8) : UInt8 := if 0x61 ≤ c ∧ c ≤ 0x7A then c - 0x20 else c

/-- `make_muid_cookie`. -/
def makeMuidCookie : Prog VoiceCommand VoiceReply Bytes := do
  let hex ← perform VoiceCommand.random32Hex
  return lit "muid=" ++ hex.map toUpper ++ lit ";"

/-- `build_voice_list_headers`. -/
def buildVoiceListHeaders (config : VoiceServiceConfig) :
    Prog VoiceCommand VoiceReply HeaderMap := do
  let cookie ← makeMuidCookie
  return List.toAList [
    ⟨lit "User-Agent", config.userAgent⟩,
    ⟨lit "Accept-Encoding", lit "gzip, deflate, br, zstd"⟩,
    ⟨lit "Accept-Language", lit "en-US,en;q=0.9"⟩,
    ⟨lit "Accept", lit "*/*"⟩,
    ⟨lit "Cookie", cookie⟩]

structure VoiceFilter where
  locale : Option Bytes := none
  gender : Option VoiceGender := none
  shortName : Option Bytes := none

/-- The voice passes every filter field that is set. -/
def VoiceFilter.keeps (filter : VoiceFilter) (voice : Voice) : Bool :=
  filter.locale.all (voice.locale == ·) && filter.gender.all (voice.gender == ·) &&
    filter.shortName.all (voice.shortName == ·)

/-- The service's own data, and the two library functions it rests on. -/
structure VoiceService where
  config : VoiceServiceConfig
  jsonParse : Bytes → JsonParse
  sha256HexUpper : Bytes → Bytes

namespace VoiceService

/-- The correction after a response with status 403. -/
def correctSkew (tokens : EdgeTokenProvider) (resp : HttpResponse) :
    Prog VoiceCommand VoiceReply EdgeTokenProvider :=
  match resp.headers.lookup (lit "Date") with
  | some date =>
      match parseHttpDate date with
      | some serverTs => do
          let now ← perform VoiceCommand.now
          return tokens.adjustClockSkewFromServerTimestamp serverTs now
      | none => return tokens.adjustClockSkew 300
  | none => return tokens.adjustClockSkew 300

variable (service : VoiceService)

/-- The URL of one request. -/
def url (tokens : EdgeTokenProvider) (token : Bytes) : Bytes :=
  service.config.voicesEndpoint ++ lit "&Sec-MS-GEC=" ++ token ++
    lit "&Sec-MS-GEC-Version=" ++ tokens.secMsGecVersion

/-- `send_request`. -/
def sendRequest (tokens : EdgeTokenProvider) :
    Prog VoiceCommand VoiceReply (Result HttpResponse) := do
  let now ← perform VoiceCommand.now
  match tokens.secMsGec service.sha256HexUpper now with
  | .error e => return .error e
  | .ok token =>
      let headers ← buildVoiceListHeaders service.config
      perform (VoiceCommand.send { method := lit "GET", url := service.url tokens token, headers })

/-- What the last response is turned into. -/
def readVoices (filter : VoiceFilter) (resp : HttpResponse) : Outcome (List Voice) :=
  if resp.statusCode ≠ 200 then
    .fail ⟨.serviceError, lit "voice list HTTP request failed", Decimal.ofInt 1 resp.statusCode⟩
  else do
    let voices ← VoiceJsonParser.parse service.jsonParse resp.body
    return voices.filter filter.keeps

/-- `list_voices`. -/
def listVoices (filter : VoiceFilter) (tokens : EdgeTokenProvider) :
    Prog VoiceCommand VoiceReply (Outcome (List Voice) × EdgeTokenProvider) := do
  match ← service.sendRequest tokens with
  | .error e => return (.fail e, tokens)
  | .ok resp =>
      if resp.statusCode = 403 then do
        let tokens ← correctSkew tokens resp
        match ← service.sendRequest tokens with
        | .error e => return (.fail e, tokens)
        | .ok resp => return (service.readVoices filter resp, tokens)
      else return (service.readVoices filter resp, tokens)

/-! ## Its runs -/

variable {service}

/-- A request carries the provider's token at the time it is made. -/
theorem runs_sendRequest {tokens : EdgeTokenProvider} {trace : Trace VoiceCommand VoiceReply}
    {answer : Result HttpResponse} (h : (service.sendRequest tokens).Runs trace answer) :
    ∃ now token hex request, tokens.secMsGec service.sha256HexUpper now = .ok token ∧
      request.url = service.url tokens token ∧
      trace = [⟨.now, now⟩, ⟨.random32Hex, hex⟩, ⟨.send request, answer⟩] := by
  rw [sendRequest, runs_perform_bind] at h
  obtain ⟨now, _, rfl, h⟩ := h
  cases hgec : tokens.secMsGec service.sha256HexUpper now with
  | error e => cases hgec
  | ok token =>
      simp only [hgec] at h
      obtain ⟨hex, _, rfl, h⟩ := h
      obtain ⟨answer', _, rfl, rfl, rfl⟩ := h
      exact ⟨now, token, hex, _, hgec, rfl, rfl⟩

/-- **The runs of `list_voices`**: one request, and a second one after a correction when the
first is answered with status 403. -/
theorem runs_listVoices {filter : VoiceFilter} {tokens tokens' : EdgeTokenProvider}
    {trace : Trace VoiceCommand VoiceReply} {result : Outcome (List Voice)}
    (h : (service.listVoices filter tokens).Runs trace (result, tokens')) :
    ∃ first t₁ t₂, trace = t₁ ++ t₂ ∧ (service.sendRequest tokens).Runs t₁ first ∧
      ((∃ resp t₃ t₄ second, first = .ok resp ∧ resp.statusCode = 403 ∧ t₂ = t₃ ++ t₄ ∧
          (correctSkew tokens resp).Runs t₃ tokens' ∧
          (service.sendRequest tokens').Runs t₄ second ∧
          result = (Outcome.ofResult second >>= service.readVoices filter)) ∨
        (∀ resp, first = .ok resp → resp.statusCode ≠ 403) ∧ t₂ = [] ∧ tokens' = tokens ∧
          result = (Outcome.ofResult first >>= service.readVoices filter)) := by
  obtain ⟨t₁, t₂, first, rfl, hfirst, h⟩ := runs_bind.mp h
  refine ⟨first, t₁, t₂, rfl, hfirst, ?_⟩
  cases first with
  | error e =>
      obtain ⟨rfl, heq⟩ := h
      cases heq
      exact Or.inr ⟨nofun, rfl, rfl, rfl⟩
  | ok resp =>
      by_cases hstatus : resp.statusCode = 403
      · simp only [hstatus, if_pos] at h
        obtain ⟨t₃, t₄, tokens₁, rfl, hskew, h⟩ := runs_bind.mp h
        obtain ⟨t₅, t₆, second, rfl, hsecond, h⟩ := runs_bind.mp h
        refine Or.inl ⟨resp, t₃, t₅ ++ t₆, second, rfl, hstatus, rfl, ?_⟩
        cases second with
        | error e =>
            obtain ⟨rfl, heq⟩ := h
            cases heq
            exact ⟨hskew, by rwa [List.append_nil], rfl⟩
        | ok resp' =>
            obtain ⟨rfl, heq⟩ := h
            cases heq
            exact ⟨hskew, by rwa [List.append_nil], rfl⟩
      · simp only [hstatus, if_neg, not_false_eq_true] at h
        obtain ⟨rfl, heq⟩ := h
        cases heq
        exact Or.inr ⟨fun resp' heq => by cases heq; exact hstatus, rfl, rfl, rfl⟩

end VoiceService
end EdgeTts
