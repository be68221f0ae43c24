import EdgeTts.Apps.EdgeTtsMain
import EdgeTts.Communication.RequestUrl

/-!
# What edge-tts asks and prints for a list of the voices

`edge-tts --list-voices` has one or two requests answered, in view of the clock (`observed`), and
prints the table of what the last answer lists (`main_lists`).
-/
namespace EdgeTts
namespace EdgeTtsMain

open EdgeTtsCommandDispatcher (Prints dispatchListVoices formatError greetingEnvironment outputOf
  outputOf_cons outputOf_err outputOf_out)
open Interaction (CarriedOut Environment Event Prog Trace carriedOut_nil runs_handle_some)
open Interaction.Prog (runs_bind runs_perform_bind)
open StableSort (Sorting)
open VoiceFormatter (OneLine IsTable newline)
open VoiceJsonParser (Describes)

/-- What the outside sees of the program: the readings of its clock, its HTTP requests with their
answers, and its web socket. -/
inductive Observation where
  | clock (now : TimePoint)
  | exchange (request : HttpRequest) (answer : Option IxHttpResponse)
  | wire (event : WireEvent)

def observe : Event MachineCommand MachineReply → Option Observation
  | ⟨.stack .now, now⟩ => some (.clock now)
  | ⟨.stack command, reply⟩ => (stackWireEvent ⟨command, reply⟩).map Observation.wire
  | ⟨.http request, answer⟩ => some (.exchange request answer)
  | ⟨.cli _, _⟩ => none

def observed (t : MachineTrace) : List Observation := t.filterMap observe

theorem observed_append (t t' : MachineTrace) : observed (t ++ t') = observed t ++ observed t' :=
  List.filterMap_append

theorem observed_drawnWords (words : RandomTrace) :
    observed ((drawnWords words).map stackEvent) = [] := by
  rw [observed, List.filterMap_eq_nil_iff]
  intro ev hev
  obtain ⟨⟨command, reply⟩, hmem, rfl⟩ := List.mem_map.mp hev
  obtain rfl : command = .rng := mem_drawnWords hmem
  rfl

/-! ## Requests -/

/-- A request for the list, with the token of the provider at this time. -/
structure AsksVoices (p : EdgeTokenProvider) (now : TimePoint) (request : HttpRequest) : Prop where
  method : request.method = lit "GET"
  body : request.body = none
  query : ∃ token, p.secMsGec Sha256.sha256HexUpper now = .ok token ∧ IsToken token ∧
    readQuery request.url = some [
      (lit "trustedclienttoken", defaultEdgeServiceConfig.trustedClientToken),
      (lit "Sec-MS-GEC", token),
      (lit "Sec-MS-GEC-Version", defaultEdgeServiceConfig.secMsGecVersion)]
  headers : ∀ name value, request.headers.lookup name = some value →
    Printable name ∧ Printable value
  cookie : ∃ v w, request.headers.lookup (lit "Cookie") =
    some (lit "muid=" ++ Hex.hexEncodeUpper (wordBytes v ++ wordBytes w) ++ lit ";")

/-- The headers of a request whose cookie has these digits. -/
def voiceListHeaders (config : VoiceServiceConfig) (hex : Bytes) : HeaderMap :=
  List.toAList [
    ⟨lit "User-Agent", config.userAgent⟩,
    ⟨lit "Accept-Encoding", lit "gzip, deflate, br, zstd"⟩,
    ⟨lit "Accept-Language", lit "en-US,en;q=0.9"⟩,
    ⟨lit "Accept", lit "*/*"⟩,
    ⟨lit "Cookie", lit "muid=" ++ hex.map toUpper ++ lit ";"⟩]

/-- The request, as it is built from the readings of the collaborators. -/
theorem runs_sendRequest_get {service : VoiceService} {p : EdgeTokenProvider}
    {u : Trace VoiceCommand VoiceReply} {answer : Result HttpResponse}
    (h : (service.sendRequest p).Runs u answer) :
    ∃ now token hex, p.secMsGec service.sha256HexUpper now = .ok token ∧
      u = [⟨.now, now⟩, ⟨.random32Hex, hex⟩,
        ⟨.send { method := lit "GET", url := service.url p token,
                 headers := voiceListHeaders service.config hex }, answer⟩] := by
  rw [VoiceService.sendRequest, runs_perform_bind] at h
  obtain ⟨now, _, rfl, h⟩ := h
  cases hgec : p.secMsGec service.sha256HexUpper now with
  | error e => cases hgec
  | ok token =>
      simp only [hgec] at h
      obtain ⟨hex, _, rfl, h⟩ := h
      obtain ⟨answer', _, rfl, rfl, rfl⟩ := h
      exact ⟨now, token, hex, hgec, rfl⟩

/-- The default endpoint of the voice list. -/
theorem readQuery_voicesEndpoint : readQuery svcConfig.voicesEndpoint =
    some [(lit "trustedclienttoken", defaultEdgeServiceConfig.trustedClientToken)] := by
  decide +kernel

/-- **The URL of a request is read back.** -/
theorem readQuery_voicesUrl {jsonParse : Bytes → JsonParse} {p : EdgeTokenProvider} {token : Bytes}
    (config : p.config = defaultEdgeServiceConfig) (htoken : IsToken token) :
    readQuery (VoiceService.url ⟨svcConfig, jsonParse, Sha256.sha256HexUpper⟩ p token) = some [
      (lit "trustedclienttoken", defaultEdgeServiceConfig.trustedClientToken),
      (lit "Sec-MS-GEC", token),
      (lit "Sec-MS-GEC-Version", defaultEdgeServiceConfig.secMsGecVersion)] := by
  have hnames : ∀ name ∈ [lit "Sec-MS-GEC", lit "Sec-MS-GEC-Version"],
      (0x26 : UInt8) ∉ name ∧ (0x3D : UInt8) ∉ name := by decide
  simp only [List.forall_mem_cons] at hnames
  obtain ⟨h₁, h₂, -⟩ := hnames
  have hdigits : (0x26 : UInt8) ∉ Hex.kUpper := by decide
  have hversion : (0x26 : UInt8) ∉ defaultEdgeServiceConfig.secMsGecVersion := by decide
  have hread := readQuery_append (readQuery_append readQuery_voicesEndpoint
    ⟨h₁.1, h₁.2, fun hm => hdigits (htoken.2 _ hm)⟩) ⟨h₂.1, h₂.2, hversion⟩
  have hcut : lit "&Sec-MS-GEC=" = [0x26] ++ lit "Sec-MS-GEC" ++ [0x3D] ∧
      lit "&Sec-MS-GEC-Version=" = [0x26] ++ lit "Sec-MS-GEC-Version" ++ [0x3D] := by decide
  rw [VoiceService.url, hcut.1, hcut.2, EdgeTokenProvider.secMsGecVersion, config]
  simpa only [List.append_assoc, List.cons_append, List.nil_append] using hread

/-- **No header can be injected** here either. -/
theorem printable_voiceListHeaders {v w : UInt64} {name value : Bytes}
    (h : (voiceListHeaders svcConfig (Hex.hexEncodeLower (wordBytes v ++ wordBytes w))).lookup
      name = some value) : Printable name ∧ Printable value := by
  have hnames : ∀ text ∈ [lit "User-Agent", lit "Accept-Encoding", lit "Accept-Language",
      lit "Accept", lit "Cookie", lit "gzip, deflate, br, zstd", lit "en-US,en;q=0.9", lit "*/*",
      lit "muid=", lit ";"], Printable text := by decide
  have hhex := printable_hexEncodeUpper (wordBytes v ++ wordBytes w)
  have huser : Printable svcConfig.userAgent := printable_default.2
  simp only [List.forall_mem_cons] at hnames
  obtain ⟨h₁, h₂, h₃, h₄, h₅, h₆, h₇, h₈, h₉, h₁₀, -⟩ := hnames
  rw [voiceListHeaders, map_toUpper_hex, AList.lookup_to_alist] at h
  have hmem := List.of_mem_dlookup h
  simp only [List.mem_cons, List.not_mem_nil, or_false, Sigma.mk.injEq, heq_eq_eq] at hmem
  rcases hmem with ⟨rfl, rfl⟩ | ⟨rfl, rfl⟩ | ⟨rfl, rfl⟩ | ⟨rfl, rfl⟩ | ⟨rfl, rfl⟩
  · exact ⟨h₁, huser⟩
  · exact ⟨h₂, h₆⟩
  · exact ⟨h₃, h₇⟩
  · exact ⟨h₄, h₈⟩
  · exact ⟨h₅, printable_append.mpr ⟨printable_append.mpr ⟨h₉, hhex⟩, h₁₀⟩⟩

theorem lookup_cookie (config : VoiceServiceConfig) (hex : Bytes) :
    (voiceListHeaders config hex).lookup (lit "Cookie") =
      some (lit "muid=" ++ hex.map toUpper ++ lit ";") := by
  have hother : ∀ name ∈ [lit "User-Agent", lit "Accept-Encoding", lit "Accept-Language",
      lit "Accept"], name ≠ lit "Cookie" := by decide
  simp only [List.forall_mem_cons] at hother
  obtain ⟨h₁, h₂, h₃, h₄, -⟩ := hother
  rw [voiceListHeaders, AList.lookup_to_alist, List.dlookup_cons_ne _ _ h₁.symm,
    List.dlookup_cons_ne _ _ h₂.symm, List.dlookup_cons_ne _ _ h₃.symm,
    List.dlookup_cons_ne _ _ h₄.symm, List.dlookup_cons_eq]

/-- **One request**, and what the program makes of the answer. -/
theorem sendRequest_observed {jsonParse : Bytes → JsonParse} {p : EdgeTokenProvider}
    {u : Trace VoiceCommand VoiceReply} {answer : Result HttpResponse} {t : MachineTrace}
    (config : p.config = defaultEdgeServiceConfig)
    (run : (VoiceService.sendRequest ⟨svcConfig, jsonParse, Sha256.sha256HexUpper⟩ p).Runs u answer)
    (hc : CarriedOut voiceHandler u t) :
    ∃ now request resp, AsksVoices p now request ∧ answer = HttpClient.send {} request resp ∧
      observed t = [.clock now, .exchange request resp] := by
  obtain ⟨now, token, hex, hgec, rfl⟩ := runs_sendRequest_get run
  cases hc with
  | cons first rest =>
  cases rest with
  | cons second rest =>
  cases rest with
  | cons third rest =>
  rw [carriedOut_nil] at rest
  obtain ⟨resp, _, rfl, rfl, heq⟩ := third
  rw [runs_some_perform.mp first, rest]
  obtain ⟨w, rfl, hw⟩ := onStack_runs (runs_some_map.mp second)
  obtain ⟨words, rfl, hwords⟩ := runs_draw.mp hw
  obtain ⟨v, w, rfl, rfl⟩ := IdGenerator.runs_random32Hex.mp hwords
  have htoken : IsToken token := by
    rw [EdgeTokenProvider.secMsGec] at hgec
    cases hgec
    exact isToken_sha256HexUpper _
  have hasks : AsksVoices p now {
      method := lit "GET"
      url := VoiceService.url ⟨svcConfig, jsonParse, Sha256.sha256HexUpper⟩ p token
      headers := voiceListHeaders svcConfig (Hex.hexEncodeLower (wordBytes v ++ wordBytes w)) } := {
    method := rfl
    body := rfl
    query := ⟨token, hgec, htoken, readQuery_voicesUrl config htoken⟩
    headers := fun name value => printable_voiceListHeaders
    cookie := ⟨v, w, by rw [lookup_cookie, map_toUpper_hex]⟩ }
  refine ⟨now, _, resp, hasks, (Option.some.inj heq).symm, ?_⟩
  rw [observed_append, observed_append, observed_drawnWords]
  rfl

/-! ## The second request -/

/-- The library has got a response with this status. -/
def Answered (answer : Option IxHttpResponse) (status : Int) : Prop :=
  ∃ resp, answer = some resp ∧ resp.errorCode = .ok ∧ resp.statusCode = status

theorem send_eq_ok_iff {request : HttpRequest} {answer : Option IxHttpResponse}
    {resp : HttpResponse} : HttpClient.send {} request answer = .ok resp ↔
      ∃ ix, answer = some ix ∧ ix.errorCode = .ok ∧ HttpClient.buildResponse ix = resp := by
  constructor
  · intro h
    cases answer with
    | none => cases h
    | some ix =>
        cases hcode : ix.errorCode <;> simp only [HttpClient.send, hcode] at h
        · exact ⟨ix, rfl, hcode, Except.ok.inj h⟩
        all_goals cases h
  · rintro ⟨ix, rfl, hcode, rfl⟩
    exact HttpClient.send_eq_ok rfl hcode

theorem answered_iff {request : HttpRequest} {answer : Option IxHttpResponse} {status : Int} :
    Answered answer status ↔
      ∃ resp, HttpClient.send {} request answer = .ok resp ∧ resp.statusCode = status := by
  constructor
  · rintro ⟨ix, rfl, hcode, rfl⟩
    exact ⟨_, send_eq_ok_iff.mpr ⟨ix, rfl, hcode, rfl⟩, rfl⟩
  · rintro ⟨resp, hsend, rfl⟩
    obtain ⟨ix, rfl, hcode, rfl⟩ := send_eq_ok_iff.mp hsend
    exact ⟨ix, rfl, hcode, rfl⟩

/-- The provider of the first request. -/
def uncorrected : EdgeTokenProvider := { config := defaultEdgeServiceConfig }

/-- The provider of the second request, and what is observed of its correction: it is set to the
date of the server, or else five minutes ahead. -/
inductive Corrected (answer : Option IxHttpResponse) :
    EdgeTokenProvider → List Observation → Prop
  | dated {resp : IxHttpResponse} {date : Bytes} {serverTs : Int} (now : TimePoint)
      (given : answer = some resp) (header : (lit "Date", date) ∈ resp.headers.entries)
      (parsed : parseHttpDate date = some serverTs) :
      Corrected answer (uncorrected.correctedTo serverTs now) [.clock now]
  | undated {resp : IxHttpResponse} (given : answer = some resp)
      (noDate : ∀ date, (lit "Date", date) ∈ resp.headers.entries → parseHttpDate date = none) :
      Corrected answer (uncorrected.adjustClockSkew 300) []

theorem correctSkew_observed {resp : IxHttpResponse} {p : EdgeTokenProvider}
    {u : Trace VoiceCommand VoiceReply} {t : MachineTrace}
    (run : (VoiceService.correctSkew uncorrected (HttpClient.buildResponse resp)).Runs u p)
    (hc : CarriedOut voiceHandler u t) : Corrected (some resp) p (observed t) := by
  have hlookup : ∀ date, (HttpClient.buildResponse resp).headers.lookup (lit "Date") = some date ↔
      (lit "Date", date) ∈ resp.headers.entries := fun date => HttpClient.lookup_copyHeaders_iff
  have hundated : (∀ date, (lit "Date", date) ∈ resp.headers.entries → parseHttpDate date = none) →
      (VoiceService.correctSkew uncorrected (HttpClient.buildResponse resp) =
        pure (uncorrected.adjustClockSkew 300)) := by
    intro noDate
    rw [VoiceService.correctSkew]
    cases hdate : (HttpClient.buildResponse resp).headers.lookup (lit "Date") with
    | none => rfl
    | some date =>
        dsimp only
        rw [noDate date ((hlookup date).mp hdate)]
  by_cases hdate : ∃ date serverTs, (lit "Date", date) ∈ resp.headers.entries ∧
      parseHttpDate date = some serverTs
  · obtain ⟨date, serverTs, hmem, hparsed⟩ := hdate
    obtain ⟨now, rfl, rfl⟩ :=
      (VoiceService.runs_correctSkew ((hlookup date).mpr hmem) hparsed).mp run
    cases hc with
    | cons first rest =>
        rw [carriedOut_nil] at rest
        rw [runs_some_perform.mp first, rest]
        exact .dated now rfl hmem hparsed
  · have noDate : ∀ date, (lit "Date", date) ∈ resp.headers.entries →
        parseHttpDate date = none := by
      intro date hmem
      cases hparsed : parseHttpDate date with
      | none => rfl
      | some serverTs => exact absurd ⟨date, serverTs, hmem, hparsed⟩ hdate
    rw [hundated noDate] at run
    obtain ⟨rfl, rfl⟩ := run
    rw [carriedOut_nil.mp hc]
    exact .undated rfl noDate

theorem Corrected.config {answer : Option IxHttpResponse} {p : EdgeTokenProvider}
    {seen : List Observation} (h : Corrected answer p seen) :
    p.config = defaultEdgeServiceConfig := by
  cases h <;> rfl

/-! ## The list -/

/-- The last answer is a response with status 200 whose body lists the voices. -/
def ListsVoices (jsonParse : Bytes → JsonParse) (answer : Option IxHttpResponse)
    (voices : List Voice) : Prop :=
  ∃ resp entries, answer = some resp ∧ resp.errorCode = .ok ∧ resp.statusCode = 200 ∧
    jsonParse resp.body = .value (.array entries) ∧ List.Forall₂ Describes entries voices

theorem readVoices_send {jsonParse : Bytes → JsonParse} {request : HttpRequest}
    {answer : Option IxHttpResponse} {voices : List Voice} :
    (Outcome.ofResult (HttpClient.send {} request answer) >>=
      VoiceService.readVoices ⟨svcConfig, jsonParse, Sha256.sha256HexUpper⟩ {}) = .ok voices ↔
      ListsVoices jsonParse answer voices := by
  have hall : ∀ voices : List Voice, voices.filter (VoiceFilter.keeps {}) = voices :=
    fun voices => List.filter_eq_self.mpr fun _ _ => rfl
  rw [VoiceService.readVoices_eq_ok_iff]
  constructor
  · rintro ⟨entries, voices, ⟨resp, hsend, hstatus, hentries⟩, hdescribes, rfl⟩
    obtain ⟨ix, rfl, hcode, rfl⟩ := send_eq_ok_iff.mp hsend
    rw [hall]
    exact ⟨ix, entries, rfl, hcode, hstatus, hentries, hdescribes⟩
  · rintro ⟨ix, entries, rfl, hcode, hstatus, hentries, hdescribes⟩
    exact ⟨entries, voices, ⟨_, send_eq_ok_iff.mpr ⟨ix, rfl, hcode, rfl⟩, hstatus, hentries⟩,
      hdescribes, hall voices⟩

/-- The requests for a list, with their answers: a second one just after a 403. -/
inductive ListRequested : List Observation → Option IxHttpResponse → Prop
  | once {now : TimePoint} {request : HttpRequest} {last : Option IxHttpResponse}
      (asks : AsksVoices uncorrected now request) (accepted : ¬ Answered last 403) :
      ListRequested [.clock now, .exchange request last] last
  | twice {now now' : TimePoint} {request request' : HttpRequest}
      {first last : Option IxHttpResponse} {p : EdgeTokenProvider} {seen : List Observation}
      (asks : AsksVoices uncorrected now request) (forbidden : Answered first 403)
      (corrected : Corrected first p seen) (again : AsksVoices p now' request') :
      ListRequested ([.clock now, .exchange request first] ++ seen ++
        [.clock now', .exchange request' last]) last

/-- **A list is asked for** in one request or in two. -/
theorem listVoices_requested {jsonParse : Bytes → JsonParse} {t : MachineTrace}
    {voices : Result (List Voice)} (h : (listVoices jsonParse).Runs t (some voices)) :
    ∃ last, ListRequested (observed t) last ∧
      ∀ vs, voices = .ok vs ↔ ListsVoices jsonParse last vs := by
  obtain ⟨u, tokens, hrun, hc⟩ := listVoices_runs h
  have hread : ∀ {result : Outcome (List Voice)}, Outcome.ofResult voices = result →
      ∀ vs, voices = .ok vs ↔ result = .ok vs := by
    rintro _ rfl vs
    cases voices <;> simp [Outcome.ofResult]
  obtain ⟨first, t₁, t₂, rfl, hfirst, hrest⟩ := VoiceService.runs_listVoices hrun
  obtain ⟨t₁', t₂', rfl, hc₁, hc₂⟩ := hc.split
  obtain ⟨now, request, answer, hasks, rfl, hseen⟩ := sendRequest_observed rfl hfirst hc₁
  rw [observed_append, hseen]
  rcases hrest with ⟨resp, t₃, t₄, second, hok, hstatus, rfl, hskew, hsecond, hresult⟩ |
    ⟨hother, rfl, -, hresult⟩
  · obtain ⟨ix, rfl, hcode, rfl⟩ := send_eq_ok_iff.mp hok
    obtain ⟨t₃', t₄', rfl, hc₃, hc₄⟩ := hc₂.split
    have hcorrected := correctSkew_observed hskew hc₃
    obtain ⟨now', request', last, hasks', rfl, hseen'⟩ :=
      sendRequest_observed hcorrected.config hsecond hc₄
    refine ⟨last, ?_, fun vs => (hread hresult vs).trans readVoices_send⟩
    rw [observed_append, hseen', ← List.append_assoc]
    exact .twice hasks ⟨ix, rfl, hcode, hstatus⟩ hcorrected hasks'
  · rw [carriedOut_nil.mp hc₂]
    refine ⟨answer, .once hasks fun h => ?_, fun vs => (hread hresult vs).trans readVoices_send⟩
    obtain ⟨resp, hsend, hstatus⟩ := answered_iff.mp h
    exact hother resp hsend hstatus

end EdgeTtsMain

/-! ## `api/VoiceList.cpp` -/

open EdgeTtsMain (ListsVoices ListRequested observed)
open Interaction (Prog)

/-- `api::list_voices`, over the same dependencies as the program. -/
def listVoices (jsonParse : Bytes → JsonParse) (options : SynthesisOptions) :
    Prog MachineCommand MachineReply (Option (Result (List Voice))) :=
  if options.proxy.isSome then
    return some (.error ⟨.unsupported, lit "proxy is not supported", []⟩)
  else EdgeTtsMain.listVoices jsonParse

/-- **The library asks as the program does**, and without a proxy only. -/
theorem listVoices_asks {jsonParse : Bytes → JsonParse} {options : SynthesisOptions}
    {t : MachineTrace} {voices : Result (List Voice)}
    (run : (listVoices jsonParse options).Runs t (some voices)) :
    options.proxy.isSome = true ∧ t = [] ∧ (∃ e, voices = .error e ∧ e.code = .unsupported) ∨
    options.proxy = none ∧ ∃ last, ListRequested (observed t) last ∧
      ∀ vs, voices = .ok vs ↔ ListsVoices jsonParse last vs := by
  unfold listVoices at run
  by_cases hproxy : options.proxy.isSome = true
  · rw [if_pos hproxy] at run
    obtain ⟨rfl, heq⟩ := run
    cases heq
    exact .inl ⟨hproxy, rfl, _, rfl, rfl⟩
  · rw [if_neg hproxy] at run
    exact .inr ⟨by simpa using hproxy, EdgeTtsMain.listVoices_requested run⟩

end EdgeTts
