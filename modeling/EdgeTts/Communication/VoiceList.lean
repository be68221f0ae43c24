import EdgeTts.Communication.VoiceService
import EdgeTts.Serialization.VoiceDocuments

/-!
# The voice list

What `VoiceService::list_voices` sends and returns, in every run: `responses` are the
answers to its requests, and the last of them alone decides the result.
-/
namespace EdgeTts

open Interaction (Prog Trace Event)

/-- The voice matches every filter field that is set. -/
structure VoiceFilter.Matches (filter : VoiceFilter) (voice : Voice) : Prop where
  locale : ∀ locale ∈ filter.locale, voice.locale = locale
  gender : ∀ gender ∈ filter.gender, voice.gender = gender
  shortName : ∀ shortName ∈ filter.shortName, voice.shortName = shortName

theorem VoiceFilter.keeps_iff {filter : VoiceFilter} {voice : Voice} :
    filter.keeps voice = true ↔ filter.Matches voice := by
  rw [keeps, Bool.and_eq_true, Bool.and_eq_true, Option.all_eq_true, Option.all_eq_true,
    Option.all_eq_true]
  simp only [beq_iff_eq]
  constructor
  · rintro ⟨⟨hlocale, hgender⟩, hshort⟩
    exact ⟨hlocale, hgender, hshort⟩
  · rintro ⟨hlocale, hgender, hshort⟩
    exact ⟨⟨hlocale, hgender⟩, hshort⟩

instance (filter : VoiceFilter) : DecidablePred filter.Matches :=
  fun _ => decidable_of_iff _ VoiceFilter.keeps_iff

namespace VoiceService

variable {service : VoiceService}

/-- The answer to a request. -/
def responseOf : Event VoiceCommand VoiceReply → Option (Result HttpResponse)
  | ⟨.send _, answer⟩ => some answer
  | _ => none

/-- The answers to the requests, in order. -/
def responses (trace : Trace VoiceCommand VoiceReply) : List (Result HttpResponse) :=
  trace.filterMap responseOf

/-- The response has status 403. -/
def Forbidden (answer : Result HttpResponse) : Prop :=
  ∃ resp, answer = .ok resp ∧ resp.statusCode = 403

theorem responses_append (t t' : Trace VoiceCommand VoiceReply) :
    responses (t ++ t') = responses t ++ responses t' :=
  List.filterMap_append ..

/-- A correction sends nothing. -/
theorem responses_correctSkew {tokens tokens' : EdgeTokenProvider} {resp : HttpResponse}
    {trace : Trace VoiceCommand VoiceReply}
    (run : (correctSkew tokens resp).Runs trace tokens') : responses trace = [] := by
  rw [correctSkew] at run
  split at run
  · split at run
    · obtain ⟨now, _, rfl, rfl, -⟩ := run
      rfl
    · obtain ⟨rfl, -⟩ := run
      rfl
  · obtain ⟨rfl, -⟩ := run
    rfl

theorem responses_sendRequest {tokens : EdgeTokenProvider} {answer : Result HttpResponse}
    {trace : Trace VoiceCommand VoiceReply} (run : (service.sendRequest tokens).Runs trace answer) :
    responses trace = [answer] := by
  obtain ⟨now, token, hex, request, -, -, rfl⟩ := runs_sendRequest run
  rfl

/-- **One request, or two** when the first is answered with status 403; the last answer is
read. -/
theorem responses_listVoices {filter : VoiceFilter} {tokens tokens' : EdgeTokenProvider}
    {trace : Trace VoiceCommand VoiceReply} {result : Outcome (List Voice)}
    (run : (service.listVoices filter tokens).Runs trace (result, tokens')) :
    ∃ last, result = (Outcome.ofResult last >>= service.readVoices filter) ∧
      (responses trace = [last] ∧ ¬ Forbidden last ∨
        ∃ first, responses trace = [first, last] ∧ Forbidden first) := by
  obtain ⟨first, t₁, t₂, rfl, hfirst, hrest⟩ := runs_listVoices run
  rw [responses_append, responses_sendRequest hfirst]
  rcases hrest with ⟨resp, t₃, t₄, second, rfl, hstatus, rfl, hskew, hsecond, rfl⟩ |
    ⟨hother, rfl, -, rfl⟩
  · refine ⟨second, rfl, .inr ⟨.ok resp, ?_, resp, rfl, hstatus⟩⟩
    rw [responses_append, responses_correctSkew hskew, responses_sendRequest hsecond]
    rfl
  · refine ⟨first, rfl, .inl ⟨rfl, ?_⟩⟩
    rintro ⟨resp, rfl, hstatus⟩
    exact hother resp rfl hstatus

/-- The answer is a response with status 200 and a voice list in its body. -/
def Lists (service : VoiceService) (answer : Result HttpResponse) (entries : List Json) : Prop :=
  ∃ resp, answer = .ok resp ∧ resp.statusCode = 200 ∧
    service.jsonParse resp.body = .value (.array entries)

theorem readVoices_eq_ok_iff {filter : VoiceFilter} {answer : Result HttpResponse}
    {vs : List Voice} :
    (Outcome.ofResult answer >>= service.readVoices filter) = .ok vs ↔
      ∃ entries voices, service.Lists answer entries ∧
        List.Forall₂ VoiceJsonParser.Describes entries voices ∧
        voices.filter filter.keeps = vs := by
  rw [Outcome.bind_eq_ok]
  constructor
  · rintro ⟨resp, hresp, h⟩
    cases answer with
    | error e => cases hresp
    | ok resp' =>
        obtain rfl := Outcome.ok.inj hresp
        rw [readVoices] at h
        split at h
        · cases h
        · rename_i hstatus
          obtain ⟨voices, hvoices, heq⟩ := Outcome.bind_eq_ok.mp h
          obtain ⟨entries, hentries, hall⟩ := VoiceJsonParser.parse_eq_ok_iff.mp hvoices
          exact ⟨entries, voices, ⟨resp', rfl, by simpa using hstatus, hentries⟩, hall,
            Outcome.ok.inj heq⟩
  · rintro ⟨entries, voices, ⟨resp, rfl, hstatus, hentries⟩, hall, rfl⟩
    refine ⟨resp, rfl, ?_⟩
    rw [readVoices, if_neg (by simp [hstatus]),
      VoiceJsonParser.parse_eq_ok_iff.mpr ⟨entries, hentries, hall⟩]
    rfl

open VoiceJsonParser (Describes IsVoiceEntry)

/-- **The voice list**, whatever the server answers.  A second request is sent just after a
403; the list is returned just when the last response is a list of valid entries, and it
holds the voices of these entries that match the filter, in order. -/
theorem listVoices_result {filter : VoiceFilter} {tokens tokens' : EdgeTokenProvider}
    {trace : Trace VoiceCommand VoiceReply} {result : Outcome (List Voice)}
    (run : (service.listVoices filter tokens).Runs trace (result, tokens')) :
    (∃ first rest, responses trace = first :: rest ∧ rest.length ≤ 1 ∧
      (rest.length = 1 ↔ Forbidden first)) ∧
    ∃ last, (responses trace).getLast? = some last ∧
      ((∃ vs, result = .ok vs) ↔
        ∃ entries, service.Lists last entries ∧ ∀ entry ∈ entries, IsVoiceEntry entry) ∧
      ∀ vs, result = .ok vs ↔ ∃ entries voices, service.Lists last entries ∧
        List.Forall₂ Describes entries voices ∧
        (voices.filter fun voice => filter.Matches voice) = vs := by
  obtain ⟨last, rfl, hresponses⟩ := responses_listVoices run
  have hkeeps : ∀ voices : List Voice,
      (voices.filter fun voice => filter.Matches voice) = voices.filter filter.keeps := by
    intro voices
    apply List.filter_congr
    intro voice _
    rw [Bool.eq_iff_iff, decide_eq_true_iff, VoiceFilter.keeps_iff]
  simp only [hkeeps]
  refine ⟨?_, last, ?_, ?_, fun vs => readVoices_eq_ok_iff⟩
  · rcases hresponses with ⟨heq, hlast⟩ | ⟨first, heq, hfirst⟩
    · exact ⟨last, [], heq, Nat.zero_le _, iff_of_false nofun hlast⟩
    · exact ⟨first, [last], heq, Nat.le_refl _, iff_of_true rfl hfirst⟩
  · rcases hresponses with ⟨heq, -⟩ | ⟨first, heq, -⟩
    · rw [heq]
      rfl
    · rw [heq]
      rfl
  · simp only [readVoices_eq_ok_iff, ← VoiceJsonParser.exists_describes_iff,
      ← Parts.exists_forall₂_iff]
    constructor
    · rintro ⟨vs, entries, voices, hlists, hall, -⟩
      exact ⟨entries, hlists, voices, hall⟩
    · rintro ⟨entries, hlists, voices, hall⟩
      exact ⟨_, entries, voices, hlists, hall, rfl⟩

/-- A list that comes after a 403. -/
theorem listVoices_result_retried :
    let answer : Nat → (c : VoiceCommand) → VoiceReply c := fun n => fun
      | .now => 0
      | .random32Hex => []
      | .send _ => .ok ⟨if n < 3 then 403 else 200, ∅, []⟩
    let service : VoiceService :=
      ⟨⟨defaultEdgeServiceConfig, [], []⟩, fun _ => .value (.array []), id⟩
    ((service.listVoices {} ⟨defaultEdgeServiceConfig, 0⟩).exec answer 0).2.1 = .ok [] := by
  intro answer service
  obtain ⟨-, last, hlast, -, hresult⟩ := listVoices_result (Prog.runs_exec answer
    (service.listVoices {} ⟨defaultEdgeServiceConfig, 0⟩) 0)
  obtain rfl : .ok ⟨200, ∅, []⟩ = last := Option.some.inj hlast
  exact (hresult []).mpr ⟨[], [], ⟨_, rfl, rfl, rfl⟩, .nil, rfl⟩

end VoiceService
end EdgeTts
