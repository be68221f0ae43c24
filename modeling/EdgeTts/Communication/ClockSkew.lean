import EdgeTts.Communication.SessionRuns
import EdgeTts.Communication.VoiceService

/-!
# The clock skew correction

A 403 is answered by setting the token provider to the server's clock.  The source does so
twice, in `SynthesisSession::synthesize` and in `VoiceService::list_voices`, on top of a
setter that accumulates.  Both leave the provider `correctedTo` the server's time, whatever
its skew was, so the last correction alone decides (`CorrectsAll.eq_of_append`), and the tokens that
follow are those of a provider that has no skew and whose clock is right
(`secMsGec_correctedTo`).
-/
namespace EdgeTts

open Interaction (Trace)
open Interaction.Prog (runs_perform_return)

namespace EdgeTokenProvider

/-- The same provider before any correction. -/
def fresh (p : EdgeTokenProvider) : EdgeTokenProvider := { config := p.config }

/-- The provider set to the server's time `serverTs` where its clock reads `now`. -/
def correctedTo (p : EdgeTokenProvider) (serverTs : Int) (now : TimePoint) : EdgeTokenProvider :=
  { p with clockSkewSeconds := serverTs - secondsSinceEpoch now }

/-- What a clock that has read `serverTs` where this one read `now` reads at `later`. -/
def serverClock (serverTs : Int) (now later : TimePoint) : TimePoint :=
  serverTs * 1000000000 + (later - now)

/-- The correction written out in `SynthesisSession::synthesize`. -/
theorem adjustClockSkew_eq (p : EdgeTokenProvider) (serverTs : Int) (now : TimePoint) :
    p.adjustClockSkew (serverTs - (secondsSinceEpoch now + p.clockSkewSeconds)) =
      p.correctedTo serverTs now := by
  rw [adjustClockSkew, correctedTo, show p.clockSkewSeconds +
    (serverTs - (secondsSinceEpoch now + p.clockSkewSeconds)) =
      serverTs - secondsSinceEpoch now by ring]

theorem correctedTo_correctedTo (p : EdgeTokenProvider) (serverTs serverTs' : Int)
    (now now' : TimePoint) :
    (p.correctedTo serverTs now).correctedTo serverTs' now' = p.correctedTo serverTs' now' := rfl

theorem secondsSinceEpoch_serverClock (serverTs : Int) (now later : TimePoint) :
    secondsSinceEpoch (serverClock serverTs now later) =
      secondsSinceEpoch later + (serverTs - secondsSinceEpoch now) := by
  simp only [secondsSinceEpoch, serverClock]
  push_cast
  ring

section
variable (sha256HexUpper : Bytes → Bytes)

/-- **The corrected provider issues the tokens of the server's clock.** -/
theorem secMsGec_correctedTo (p : EdgeTokenProvider) (serverTs : Int) (now later : TimePoint) :
    (p.correctedTo serverTs now).secMsGec sha256HexUpper later =
      p.fresh.secMsGec sha256HexUpper (serverClock serverTs now later) := by
  have htime : secondsSinceEpoch later + (p.correctedTo serverTs now).clockSkewSeconds =
      secondsSinceEpoch (serverClock serverTs now later) + p.fresh.clockSkewSeconds := by
    rw [secondsSinceEpoch_serverClock]
    show secondsSinceEpoch later + (serverTs - secondsSinceEpoch now) = _ + (0 : Rat)
    ring
  rw [secMsGec, secMsGec, htime]
  rfl

/-- The number of the five minutes in which the provider's time lies, since 1601. -/
def windowOf (p : EdgeTokenProvider) (now : TimePoint) : Int :=
  ⌊(secondsSinceEpoch now + p.clockSkewSeconds + 11644473600) / 300⌋

theorem sub_fmod_of_nonneg {x y : Rat} (hx : 0 ≤ x) (hy : 0 < y) : x - fmod x y = y * ⌊x / y⌋ := by
  rw [fmod, if_neg (not_lt.mpr (div_nonneg hx hy.le))]
  ring

/-- **The token depends on the time only through its five minutes.** -/
theorem secMsGec_eq {p : EdgeTokenProvider} {now : TimePoint}
    (nonneg : 0 ≤ secondsSinceEpoch now + p.clockSkewSeconds + 11644473600) :
    p.secMsGec sha256HexUpper now =
      .ok (sha256HexUpper (snprintf 32 (formatF0 (300 * p.windowOf now * 10000000)) ++
        p.config.trustedClientToken)) := by
  rw [secMsGec, sub_fmod_of_nonneg nonneg (by norm_num)]
  rfl

end
end EdgeTokenProvider

/-! ## The two corrections -/

open EdgeTokenProvider (serverClock)

/-- **The correction of `SynthesisSession`** after an error that carries the server's date. -/
theorem SynthesisSession.runs_correctSkew {p p' : EdgeTokenProvider} {error : Error}
    {serverTs : Int} {trace : Trace Command Reply} (hasContext : error.hasContext = true)
    (date : parseHttpDate error.context = some serverTs) :
    (correctSkew p error).Runs trace p' ↔
      ∃ now, trace = [⟨.now, now⟩] ∧ p.correctedTo serverTs now = p' := by
  simp only [correctSkew, hasContext, date, if_pos, ← p.adjustClockSkew_eq serverTs]
  exact runs_perform_return

/-- **The correction of `VoiceService`** after a response that carries the server's date. -/
theorem VoiceService.runs_correctSkew {p p' : EdgeTokenProvider} {resp : HttpResponse}
    {date : Bytes} {serverTs : Int} {trace : Trace VoiceCommand VoiceReply}
    (header : resp.headers.lookup (lit "Date") = some date)
    (hdate : parseHttpDate date = some serverTs) :
    (correctSkew p resp).Runs trace p' ↔
      ∃ now, trace = [⟨.now, now⟩] ∧ p.correctedTo serverTs now = p' := by
  simp only [correctSkew, header, hdate, ← p.adjustClockSkew_eq serverTs]
  exact runs_perform_return

/-- One correction on either path, when the clock reads `now` and the date is `serverTs`. -/
inductive Corrects (now : TimePoint) (serverTs : Int) :
    EdgeTokenProvider → EdgeTokenProvider → Prop
  | session {p p' : EdgeTokenProvider} {error : Error} (hasContext : error.hasContext = true)
      (date : parseHttpDate error.context = some serverTs)
      (run : (SynthesisSession.correctSkew p error).Runs [⟨.now, now⟩] p') :
      Corrects now serverTs p p'
  | voices {p p' : EdgeTokenProvider} {resp : HttpResponse} {date : Bytes}
      (header : resp.headers.lookup (lit "Date") = some date)
      (hdate : parseHttpDate date = some serverTs)
      (run : (VoiceService.correctSkew p resp).Runs [⟨.now, now⟩] p') :
      Corrects now serverTs p p'

/-- Corrections one after the other, each with its clock time and its date. -/
inductive CorrectsAll : List (TimePoint × Int) → EdgeTokenProvider → EdgeTokenProvider → Prop
  | nil (p : EdgeTokenProvider) : CorrectsAll [] p p
  | cons {now : TimePoint} {serverTs : Int} {corrections : List (TimePoint × Int)}
      {p p' p'' : EdgeTokenProvider} (first : Corrects now serverTs p p')
      (rest : CorrectsAll corrections p' p'') : CorrectsAll ((now, serverTs) :: corrections) p p''

theorem Corrects.eq {now : TimePoint} {serverTs : Int} {p p' : EdgeTokenProvider}
    (h : Corrects now serverTs p p') : p' = p.correctedTo serverTs now := by
  cases h with
  | session hasContext date run =>
      obtain ⟨now', heq, rfl⟩ := (SynthesisSession.runs_correctSkew hasContext date).mp run
      cases heq
      rfl
  | voices header hdate run =>
      obtain ⟨now', heq, rfl⟩ := (VoiceService.runs_correctSkew header hdate).mp run
      cases heq
      rfl

/-- The corrections before the last one leave no trace. -/
theorem CorrectsAll.eq_of_append {now : TimePoint} {serverTs : Int}
    {corrections : List (TimePoint × Int)} {p p' : EdgeTokenProvider}
    (h : CorrectsAll (corrections ++ [(now, serverTs)]) p p') :
    p' = p.correctedTo serverTs now := by
  induction corrections generalizing p with
  | nil =>
      obtain _ | ⟨first, ⟨⟩⟩ := h
      exact first.eq
  | cons c corrections ih =>
      obtain _ | ⟨first, rest⟩ := h
      rw [ih rest, first.eq]
      exact p.correctedTo_correctedTo ..

/-- **Clock skew correction is exact and idempotent on both paths.**  After a 403 with the
date `serverTs` the provider's skew is `serverTs - now`, whatever it was; of any sequence of
such corrections the last one alone matters; the tokens are then those of a fresh provider
with the server's clock; and a token depends on the time through its five minutes only. -/
theorem clockSkew_corrected (sha256HexUpper : Bytes → Bytes) :
    (∀ {p p' : EdgeTokenProvider} {error : Error} {serverTs : Int} {trace : SessionTrace},
      error.hasContext = true → parseHttpDate error.context = some serverTs →
      ((SynthesisSession.correctSkew p error).Runs trace p' ↔
        ∃ now, trace = [⟨.now, now⟩] ∧ p.correctedTo serverTs now = p')) ∧
    (∀ {p p' : EdgeTokenProvider} {resp : HttpResponse} {date : Bytes} {serverTs : Int}
      {trace : Trace VoiceCommand VoiceReply},
      resp.headers.lookup (lit "Date") = some date → parseHttpDate date = some serverTs →
      ((VoiceService.correctSkew p resp).Runs trace p' ↔
        ∃ now, trace = [⟨.now, now⟩] ∧ p.correctedTo serverTs now = p')) ∧
    (∀ {corrections : List (TimePoint × Int)} {now : TimePoint} {serverTs : Int}
      {p p' : EdgeTokenProvider}, CorrectsAll (corrections ++ [(now, serverTs)]) p p' →
      p'.clockSkewSeconds = serverTs - secondsSinceEpoch now ∧
      ∀ later, p'.secMsGec sha256HexUpper later =
        p.fresh.secMsGec sha256HexUpper (serverClock serverTs now later)) ∧
    ∃ token : EdgeServiceConfig → Int → Result Bytes, ∀ (p : EdgeTokenProvider) (now : TimePoint),
      0 ≤ secondsSinceEpoch now + p.clockSkewSeconds + 11644473600 →
      p.secMsGec sha256HexUpper now = token p.config (p.windowOf now) := by
  refine ⟨SynthesisSession.runs_correctSkew, VoiceService.runs_correctSkew, ?_, ?_⟩
  · intro corrections now serverTs p p' h
    rw [h.eq_of_append]
    exact ⟨rfl, p.secMsGec_correctedTo sha256HexUpper serverTs now⟩
  · exact ⟨fun config n => .ok (sha256HexUpper (snprintf 32 (formatF0 (300 * n * 10000000)) ++
      config.trustedClientToken)), fun p now => EdgeTokenProvider.secMsGec_eq sha256HexUpper⟩

/-- A session and then the voice list correct the same provider. -/
theorem clockSkew_corrected_twice :
    CorrectsAll [(1704060000000000000, 1704067200), (1704153600500000000, 1704153590)]
        ⟨defaultEdgeServiceConfig, 300⟩ ⟨defaultEdgeServiceConfig, -21 / 2⟩ ∧
      ∀ later, EdgeTokenProvider.secMsGec id ⟨defaultEdgeServiceConfig, -21 / 2⟩ later =
        EdgeTokenProvider.secMsGec id ⟨defaultEdgeServiceConfig, 0⟩
          (serverClock 1704153590 1704153600500000000 later) := by
  obtain ⟨session, voices, last, -⟩ := clockSkew_corrected id
  have hdate : parseHttpDate (lit "Mon, 01 Jan 2024 00:00:00 GMT") = some 1704067200 := by
    decide
  have hdate' : parseHttpDate (lit "Mon, 01 Jan 2024 23:59:50 GMT") = some 1704153590 := by
    decide
  let error : Error := ⟨.drmError, [], lit "Mon, 01 Jan 2024 00:00:00 GMT"⟩
  let resp : HttpResponse :=
    ⟨403, AList.singleton (lit "Date") (lit "Mon, 01 Jan 2024 23:59:50 GMT"), []⟩
  have hcontext : error.hasContext = true := by decide
  have header : resp.headers.lookup (lit "Date") = some (lit "Mon, 01 Jan 2024 23:59:50 GMT") := by
    decide
  have corrected : CorrectsAll
      ([(1704060000000000000, 1704067200)] ++ [(1704153600500000000, 1704153590)])
      ⟨defaultEdgeServiceConfig, 300⟩ ⟨defaultEdgeServiceConfig, -21 / 2⟩ := by
    refine .cons (.session hcontext hdate ((session hcontext hdate).mpr ⟨_, rfl, rfl⟩)) ?_
    refine .cons (.voices header hdate' ((voices header hdate').mpr ⟨_, rfl, ?_⟩)) (.nil _)
    simp only [EdgeTokenProvider.correctedTo, secondsSinceEpoch]
    norm_num
  exact ⟨corrected, (last corrected).2⟩

/-! ## The requests after a correction -/

section
open EdgeTokenProvider (secMsGec_correctedTo)

variable {p : EdgeTokenProvider} {serverTs : Int} {now : TimePoint}

/-- An attempt of a session after a correction connects with the server's token. -/
theorem SynthesisSession.Attempted.server_token {session : SynthesisSession}
    {ttsConfig : TtsConfig} {text : Bytes} {comp : Int64} {allChunks : List TtsChunk}
    {attempt : Int} {trace : SessionTrace}
    {r : Option (Outcome (Int64 × List TtsChunk × EdgeTokenProvider))}
    (h : session.Attempted ttsConfig text comp allChunks (p.correctedTo serverTs now) attempt
      trace r) :
    ∃ metadata later token connected rest,
      p.fresh.secMsGec session.sha256HexUpper (serverClock serverTs now later) = .ok token ∧
      trace = ⟨.createForRequest, metadata⟩ :: ⟨.now, later⟩ ::
        ⟨.connect (session.url p metadata token), connected⟩ :: rest := by
  cases h with
  | refused given last =>
      rw [secMsGec_correctedTo] at given
      exact ⟨_, _, _, _, _, given, rfl⟩
  | retried given again corrected rest =>
      rw [secMsGec_correctedTo] at given
      exact ⟨_, _, _, _, _, given, rfl⟩
  | connected given run closing =>
      rw [secMsGec_correctedTo] at given
      exact ⟨_, _, _, _, _, given, rfl⟩

/-- So does a request for the voice list. -/
theorem VoiceService.sendRequest_server_token {service : VoiceService}
    {trace : Trace VoiceCommand VoiceReply} {answer : Result HttpResponse}
    (h : (service.sendRequest (p.correctedTo serverTs now)).Runs trace answer) :
    ∃ later token hex request,
      p.fresh.secMsGec service.sha256HexUpper (serverClock serverTs now later) = .ok token ∧
      request.url = service.url p token ∧
      trace = [⟨.now, later⟩, ⟨.random32Hex, hex⟩, ⟨.send request, answer⟩] := by
  obtain ⟨later, token, hex, request, given, hurl, rfl⟩ := runs_sendRequest h
  rw [secMsGec_correctedTo] at given
  exact ⟨later, token, hex, request, given, hurl, rfl⟩

end
end EdgeTts
