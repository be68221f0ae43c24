import EdgeTts.Communication.ClockSkew
import EdgeTts.Communication.HttpClient
import EdgeTts.Communication.VoiceList

/-!
# The server's date

A 403 of either service carries the server's date in a header, and header names are
case-insensitive.  The connection finds the header under every spelling.  The voice list looks
for it in the copy of `HttpClient`, so it finds the header just where the server spells it
`Date` (`correctsTo_iff`), and advances the clock by 300 s otherwise.
-/
namespace EdgeTts

open Interaction (Prog Trace)
open EdgeTokenProvider (serverClock)

namespace VoiceService

variable {service : VoiceService} {options : HttpClientOptions} {resp : IxHttpResponse}
  {tokens tokens' : EdgeTokenProvider} {trace : Trace VoiceCommand VoiceReply}

/-- The first request is answered with what the HTTP client makes of `resp`. -/
def FirstResponse (options : HttpClientOptions) (resp : IxHttpResponse)
    (trace : Trace VoiceCommand VoiceReply) : Prop :=
  ∃ before request after,
    trace = before ++ ⟨.send request, HttpClient.send options request (some resp)⟩ :: after ∧
    responses before = []

/-- A second request ends the run, with the token of a clock that has read `serverTs` where the
local one read `now`, between the requests. -/
def Retried (service : VoiceService) (tokens : EdgeTokenProvider) (serverTs : Int)
    (trace : Trace VoiceCommand VoiceReply) (tokens' : EdgeTokenProvider) : Prop :=
  ∃ before now later token hex request answer,
    trace = before ++
      [⟨.now, now⟩, ⟨.now, later⟩, ⟨.random32Hex, hex⟩, ⟨.send request, answer⟩] ∧
    (responses before).length = 1 ∧ tokens' = tokens.correctedTo serverTs now ∧
    tokens.fresh.secMsGec service.sha256HexUpper (serverClock serverTs now later) = .ok token ∧
    request.url = service.url tokens token

/-- After the response `resp` the voice list is requested with the clock set to `serverTs`. -/
def CorrectsTo (service : VoiceService) (options : HttpClientOptions) (resp : IxHttpResponse)
    (serverTs : Int) : Prop :=
  ∀ filter tokens tokens' trace result,
    (service.listVoices filter tokens).Runs trace (result, tokens') →
    FirstResponse options resp trace → service.Retried tokens serverTs trace tokens'

theorem FirstResponse.responses (h : FirstResponse options resp trace)
    (noProxy : options.proxy = none) (transported : resp.errorCode = .ok) :
    ∃ rest, responses trace = .ok (HttpClient.buildResponse resp) :: rest := by
  obtain ⟨before, request, after, rfl, hbefore⟩ := h
  rw [HttpClient.send_eq_ok noProxy transported, responses_append, hbefore]
  exact ⟨_, rfl⟩

/-- A run whose first response has status 403 consists of two requests and a correction. -/
theorem runs_listVoices_forbidden {filter : VoiceFilter} {result : Outcome (List Voice)}
    (run : (service.listVoices filter tokens).Runs trace (result, tokens'))
    (first : FirstResponse options resp trace) (noProxy : options.proxy = none)
    (transported : resp.errorCode = .ok) (forbidden : resp.statusCode = 403) :
    ∃ t₁ t₂ t₃ answer, trace = t₁ ++ (t₂ ++ t₃) ∧
      (service.sendRequest tokens).Runs t₁ (.ok (HttpClient.buildResponse resp)) ∧
      (correctSkew tokens (HttpClient.buildResponse resp)).Runs t₂ tokens' ∧
      (service.sendRequest tokens').Runs t₃ answer := by
  obtain ⟨rest, hresponses⟩ := first.responses noProxy transported
  obtain ⟨answer, t₁, t₂, rfl, hfirst, hrest⟩ := runs_listVoices run
  rw [responses_append, responses_sendRequest hfirst] at hresponses
  obtain ⟨rfl, -⟩ := List.cons.inj hresponses
  rcases hrest with ⟨resp', t₃, t₄, second, heq, -, rfl, hskew, hsecond, -⟩ | ⟨hother, -⟩
  · cases heq
    exact ⟨t₁, t₃, t₄, second, rfl, hfirst, hskew, hsecond⟩
  · exact absurd forbidden (hother _ rfl)

theorem correctsTo_of_spelling {date : Bytes} {serverTs : Int} (noProxy : options.proxy = none)
    (transported : resp.errorCode = .ok) (forbidden : resp.statusCode = 403)
    (header : (lit "Date", date) ∈ resp.headers.entries)
    (accepted : parseHttpDate date = some serverTs) : service.CorrectsTo options resp serverTs := by
  intro filter tokens tokens' trace result run first
  obtain ⟨t₁, t₂, t₃, answer, rfl, hfirst, hskew, hsecond⟩ :=
    runs_listVoices_forbidden run first noProxy transported forbidden
  have hlookup : (HttpClient.buildResponse resp).headers.lookup (lit "Date") = some date :=
    HttpClient.lookup_copyHeaders_iff.mpr header
  obtain ⟨now, rfl, rfl⟩ := (runs_correctSkew hlookup accepted).mp hskew
  obtain ⟨later, token, hex, request, hgiven, hurl, rfl⟩ := sendRequest_server_token hsecond
  refine ⟨t₁, now, later, token, hex, request, answer, rfl, ?_, rfl, hgiven, hurl⟩
  rw [responses_sendRequest hfirst]
  rfl

/-- Under another spelling the clock is advanced by 300 s, and not read. -/
theorem correctSkew_of_spelling {name date : Bytes} (header : (name, date) ∈ resp.headers.entries)
    (same : name.map toLower = lit "date") (hspelling : name ≠ lit "Date") :
    correctSkew tokens (HttpClient.buildResponse resp) = pure (tokens.adjustClockSkew 300) := by
  have hlookup : (HttpClient.buildResponse resp).headers.lookup (lit "Date") = none :=
    HttpClient.lookup_copyHeaders_eq_none header (same.trans (by decide)) hspelling
  rw [correctSkew, hlookup]

/-- Then the second request follows the first at once. -/
theorem not_retried {t₁ t₃ : Trace VoiceCommand VoiceReply} {first answer : Result HttpResponse}
    {serverTs : Int} (hfirst : (service.sendRequest tokens).Runs t₁ first)
    (hsecond : (service.sendRequest tokens').Runs t₃ answer) :
    ¬ service.Retried tokens serverTs (t₁ ++ t₃) tokens' := by
  obtain ⟨now₁, token₁, hex₁, request₁, -, -, rfl⟩ := runs_sendRequest hfirst
  obtain ⟨now₂, token₂, hex₂, request₂, -, -, rfl⟩ := runs_sendRequest hsecond
  rintro ⟨before, now, later, token, hex, request, answer', htrace, -⟩
  have hlength : before.length = 2 := by
    have := congrArg List.length htrace
    simp at this
    omega
  obtain ⟨a, b, rfl⟩ := List.length_eq_two.mp hlength
  cases htrace

/-- The clock stands at `now`, and the server answers every request with `resp`. -/
def answering (options : HttpClientOptions) (resp : IxHttpResponse) (now : TimePoint) :
    (c : VoiceCommand) → VoiceReply c
  | .now => now
  | .random32Hex => []
  | .send request => HttpClient.send options request (some resp)

/-- Some run starts with the response. -/
theorem exists_firstResponse (service : VoiceService) (options : HttpClientOptions)
    (resp : IxHttpResponse) : ∃ filter tokens tokens' trace result,
      (service.listVoices filter tokens).Runs trace (result, tokens') ∧
      FirstResponse options resp trace := by
  let answer : Nat → (c : VoiceCommand) → VoiceReply c := fun _ => answering options resp 0
  let tokens : EdgeTokenProvider := { config := service.config.toEdgeServiceConfig }
  refine ⟨{}, tokens, _, _, _, Prog.runs_exec answer (service.listVoices {} tokens) 0, ?_⟩
  exact ⟨[⟨.now, (0 : TimePoint)⟩, ⟨.random32Hex, ([] : Bytes)⟩], _, _, rfl, rfl⟩

/-- The clock is not set to the server's date unless the name is spelled `Date`. -/
theorem spelling_of_correctsTo {name date : Bytes} {serverTs : Int}
    (corrects : service.CorrectsTo options resp serverTs) (noProxy : options.proxy = none)
    (transported : resp.errorCode = .ok) (forbidden : resp.statusCode = 403)
    (header : (name, date) ∈ resp.headers.entries) (same : name.map toLower = lit "date") :
    name = lit "Date" := by
  by_contra hspelling
  obtain ⟨filter, tokens, tokens', trace, result, run, first⟩ :=
    exists_firstResponse service options resp
  have hretried := corrects _ _ _ _ _ run first
  obtain ⟨t₁, t₂, t₃, answer, rfl, hfirst, hskew, hsecond⟩ :=
    runs_listVoices_forbidden run first noProxy transported forbidden
  rw [correctSkew_of_spelling header same hspelling] at hskew
  obtain ⟨rfl, -⟩ := hskew
  exact not_retried hfirst hsecond hretried

end VoiceService

/-! ## The connection -/

/-- A 403 is reported with the date, under whatever name it was sent. -/
theorem connectResult_forbidden {init : InitResult} {headers : IxHeaders} {name date : Bytes}
    (refused : init.success = false) (forbidden : init.httpStatus = 403)
    (given : init.headers = headers.entries) (header : (name, date) ∈ headers.entries)
    (same : name.map toLower = lit "date") :
    ∃ message, connectResult init = .error ⟨.drmError, message, date⟩ := by
  have hfind : init.findHeader (lit "Date") = some date :=
    InitResult.findHeader_of_mem given header (same.trans (by decide))
  rw [connectResult, refused, forbidden, hfind]
  exact ⟨_, rfl⟩

namespace SynthesisSession

/-- After a connection that ends with `init` the next one is made with the token of a clock that
has read `serverTs` where the local one read `now`, if there are retries left. -/
def CorrectsTo (session : SynthesisSession) (init : InitResult) (serverTs : Int) : Prop :=
  ∀ fuel ttsConfig text comp allChunks provider attempt trace r metadata now url answer rest,
    (session.runChunk fuel ttsConfig text comp allChunks provider attempt).Runs trace r →
    trace = ⟨.createForRequest, metadata⟩ :: ⟨.now, now⟩ :: ⟨.connect url, answer⟩ :: rest →
    answer = connectResult init → attempt < session.retryPolicy.maxRetries →
    ∃ now metadata later token connected rest',
      rest = ⟨.now, now⟩ :: ⟨.createForRequest, metadata⟩ :: ⟨.now, later⟩ ::
        ⟨.connect (session.url provider metadata token), connected⟩ :: rest' ∧
      provider.fresh.secMsGec session.sha256HexUpper (serverClock serverTs now later) = .ok token

theorem correctsTo_of_header {session : SynthesisSession} {init : InitResult} {headers : IxHeaders}
    {name date : Bytes} {serverTs : Int} (refused : init.success = false)
    (forbidden : init.httpStatus = 403) (given : init.headers = headers.entries)
    (header : (name, date) ∈ headers.entries) (same : name.map toLower = lit "date")
    (accepted : parseHttpDate date = some serverTs) : session.CorrectsTo init serverTs := by
  intro fuel ttsConfig text comp allChunks provider attempt trace r metadata now url answer rest
    run htrace hanswer left
  obtain ⟨message, hresult⟩ := connectResult_forbidden refused forbidden given header same
  rw [hresult] at hanswer
  have hcontext : Error.hasContext ⟨.drmError, message, date⟩ = true := by
    cases date with
    | nil => cases accepted
    | cons c date => rfl
  cases runChunk_runs run with
  | refused given last =>
      cases htrace
      cases hanswer
      simp [RetryPolicy.shouldRetry, left] at last
  | retried given again corrected rest =>
      cases htrace
      cases hanswer
      obtain ⟨now', rfl, rfl⟩ := (runs_correctSkew hcontext accepted).mp corrected
      obtain ⟨metadata', later, token, connected, rest', hgiven, rfl⟩ := rest.server_token
      exact ⟨now', metadata', later, token, connected, rest', rfl, hgiven⟩
  | connected given run closing =>
      cases htrace
      cases hanswer

end SynthesisSession

/-- **Where the server's date is found.**  The connection finds it under every spelling of the
name; the voice list finds it in every run just when the server spells it `Date`. -/
theorem dateHeader_found_iff {service : VoiceService} {options : HttpClientOptions}
    {resp : IxHttpResponse} {name date : Bytes} {serverTs : Int} (noProxy : options.proxy = none)
    (transported : resp.errorCode = .ok) (forbidden : resp.statusCode = 403)
    (header : (name, date) ∈ resp.headers.entries) (same : name.map toLower = lit "date")
    (accepted : parseHttpDate date = some serverTs) :
    (service.CorrectsTo options resp serverTs ↔ name = lit "Date") ∧
    ∀ (session : SynthesisSession) (init : InitResult), init.success = false →
      init.httpStatus = 403 → init.headers = resp.headers.entries →
      session.CorrectsTo init serverTs := by
  refine ⟨⟨?_, ?_⟩, ?_⟩
  · intro corrects
    exact VoiceService.spelling_of_correctsTo corrects noProxy transported forbidden header same
  · rintro rfl
    exact VoiceService.correctsTo_of_spelling noProxy transported forbidden header accepted
  · intro session init refused hstatus given
    exact SynthesisSession.correctsTo_of_header refused hstatus given header same accepted

/-- A 403 that carries a date under the given name. -/
def forbiddenAt (name : Bytes) : IxHttpResponse where
  statusCode := 403
  headers := ⟨[(name, lit "Mon, 01 Jan 2024 00:10:00 GMT")], List.nodup_singleton _⟩
  body := lit "Forbidden"

theorem dateHeader_found_spelled :
    let service : VoiceService :=
      ⟨⟨defaultEdgeServiceConfig, [], []⟩, fun _ => .parseError [], id⟩
    service.CorrectsTo {} (forbiddenAt (lit "Date")) 1704067800 := by
  intro service
  have same : (lit "Date").map toLower = lit "date" := by decide
  have accepted : parseHttpDate (lit "Mon, 01 Jan 2024 00:10:00 GMT") = some 1704067800 := by
    decide
  have header : (lit "Date", lit "Mon, 01 Jan 2024 00:10:00 GMT") ∈
      (forbiddenAt (lit "Date")).headers.entries := List.mem_singleton_self _
  exact (dateHeader_found_iff rfl rfl rfl header same accepted).1.mpr rfl

/-- A server that is ten minutes ahead and spells the name `date`: the clock is advanced by five
minutes. -/
theorem not_dateHeader_found :
    let resp := forbiddenAt (lit "date")
    let service : VoiceService :=
      ⟨⟨defaultEdgeServiceConfig, [], []⟩, fun _ => .parseError [], id⟩
    let tokens : EdgeTokenProvider := { config := defaultEdgeServiceConfig }
    let run := (service.listVoices {} tokens).exec
      (fun _ => VoiceService.answering {} resp 1704067200000000000) 0
    parseHttpDate (lit "Mon, 01 Jan 2024 00:10:00 GMT") = some 1704067800 ∧
      VoiceService.FirstResponse {} resp run.1 ∧ run.2.2 = tokens.adjustClockSkew 300 ∧
      ¬ service.CorrectsTo {} resp 1704067800 := by
  intro resp service tokens run
  refine ⟨by decide, ?_, rfl, ?_⟩
  · exact ⟨[⟨.now, (1704067200000000000 : TimePoint)⟩, ⟨.random32Hex, ([] : Bytes)⟩], _, _,
      rfl, rfl⟩
  · intro corrects
    have hspelling := VoiceService.spelling_of_correctsTo corrects rfl rfl rfl
      (List.mem_singleton_self (lit "date", _)) (by decide)
    exact absurd hspelling (by decide)

end EdgeTts
