import EdgeTts.Communication.ClockSkew
import EdgeTts.Communication.SessionUpgrades

/-!
# The attempts after a refusal

A service refuses an upgrade with a 403 that carries its date.  In every run of a session the
token of an attempt is that of the provider as the last refusal before it has left it, in the
same chunk or in an earlier one (`SessionRun.asked`).
-/
namespace EdgeTts

open Interaction (Event Allowed allowed_append allowed_of_forall)

/-- A 403. -/
def Refusal : Event Command Reply → Prop
  | ⟨.connect _, .error e⟩ => e.code = .drmError
  | _ => False

/-- Every refusal carries a date. -/
def Dated (t : SessionTrace) : Prop :=
  ∀ url e, ⟨.connect url, .error e⟩ ∈ t → e.code = .drmError →
    ∃ serverTs, parseHttpDate e.context = some serverTs

/-- The provider after a trace: as it was, or corrected after the last refusal. -/
inductive LastCorrected (initial : EdgeTokenProvider) : SessionTrace → EdgeTokenProvider → Prop
  | never {t} (accepted : ∀ ev ∈ t, ¬ Refusal ev) : LastCorrected initial t initial
  | corrected {before url e now after serverTs} (refused : e.code = .drmError)
      (date : parseHttpDate e.context = some serverTs) (accepted : ∀ ev ∈ after, ¬ Refusal ev) :
      LastCorrected initial (before ++ ⟨.connect url, .error e⟩ :: ⟨.now, now⟩ :: after)
        (initial.correctedTo serverTs now)

theorem LastCorrected.append {initial provider : EdgeTokenProvider} {t t' : SessionTrace}
    (h : LastCorrected initial t provider) (accepted : ∀ ev ∈ t', ¬ Refusal ev) :
    LastCorrected initial (t ++ t') provider := by
  cases h with
  | never hnone => exact .never (List.forall_mem_append.mpr ⟨hnone, accepted⟩)
  | corrected refused date hnone =>
      rw [List.append_assoc]
      exact .corrected refused date (List.forall_mem_append.mpr ⟨hnone, accepted⟩)

/-- A correction, whatever the provider was before. -/
theorem LastCorrected.correctedTo {initial provider : EdgeTokenProvider} {t : SessionTrace}
    (h : LastCorrected initial t provider) {url : Bytes} {e : Error} {now : TimePoint}
    {serverTs : Int} (refused : e.code = .drmError)
    (date : parseHttpDate e.context = some serverTs) :
    LastCorrected initial (t ++ [⟨.connect url, .error e⟩, ⟨.now, now⟩])
      (provider.correctedTo serverTs now) := by
  cases h with
  | never => exact .corrected refused date nofun
  | corrected =>
      rw [EdgeTokenProvider.correctedTo_correctedTo]
      exact .corrected refused date nofun

theorem hasContext_of_date {e : Error} {serverTs : Int}
    (date : parseHttpDate e.context = some serverTs) : e.hasContext = true := by
  obtain ⟨code, message, context⟩ := e
  cases context with
  | nil => cases date
  | cons c context => rfl

theorem not_refusal_of_asksNothing {ev : Event Command Reply} (h : asksNothing ev.1 = true) :
    ¬ Refusal ev := by
  obtain ⟨c, r⟩ := ev
  cases c <;> first | exact id | cases h

namespace SynthesisSession
variable {session : SynthesisSession} {ttsConfig : TtsConfig} {initial : EdgeTokenProvider}

variable (session initial) in
/-- A connect follows the identifiers of its attempt and a time of the clock, and its token is
that of the provider after all that was before them. -/
def Asked (before : SessionTrace) : Event Command Reply → Prop
  | ⟨.connect url, _⟩ => ∃ earlier metadata now provider token,
      before = earlier ++ [⟨.createForRequest, metadata⟩, ⟨.now, now⟩] ∧
      LastCorrected initial earlier provider ∧
      provider.secMsGec session.sha256HexUpper now = .ok token ∧
      url = session.url provider metadata token
  | _ => True

theorem allowed_asksNothing {t : SessionTrace} (quiet : ∀ ev ∈ t, asksNothing ev.1 = true)
    (h : SessionTrace) : Allowed (session.Asked initial) h t := by
  refine allowed_of_forall (fun ev hev before => ?_) h
  obtain ⟨c, r⟩ := ev
  cases c <;> first | trivial | cases quiet _ hev

/-- One attempt. -/
theorem allowed_attempt {provider : EdgeTokenProvider} {h : SessionTrace}
    (after : LastCorrected initial h provider) (metadata : ConnectionMetadata) {now : TimePoint}
    {token : Bytes} (given : provider.secMsGec session.sha256HexUpper now = .ok token)
    (reply : Result Unit) :
    Allowed (session.Asked initial) h [⟨.createForRequest, metadata⟩, ⟨.now, now⟩,
      ⟨.connect (session.url provider metadata token), reply⟩] := by
  refine ⟨trivial, trivial, ⟨h, metadata, now, provider, token, ?_, after, given, rfl⟩, trivial⟩
  rw [List.append_assoc]
  rfl

/-- **The attempts of a chunk**, and the provider that they leave. -/
theorem Attempted.asked {text : Bytes} {comp : Int64} {chunks : List TtsChunk}
    {provider : EdgeTokenProvider} {attempt : Int} {t : SessionTrace}
    {r : Option (Outcome (Int64 × List TtsChunk × EdgeTokenProvider))}
    (run : session.Attempted ttsConfig text comp chunks provider attempt t r) {h : SessionTrace}
    (after : LastCorrected initial h provider) (dated : Dated t) :
    Allowed (session.Asked initial) h t ∧
      ∀ chunkBoundaryEnd chunks' provider',
        r = some (.ok (chunkBoundaryEnd, chunks', provider')) →
        LastCorrected initial (h ++ t) provider' := by
  induction run generalizing h with
  | refused given last => exact ⟨allowed_attempt after _ given _, nofun⟩
  | @retried provider _ metadata now token e t₁ provider' t₂ _ given again corrected _ ih =>
      simp only [RetryPolicy.shouldRetry, Bool.and_eq_true, beq_iff_eq] at again
      obtain ⟨serverTs, date⟩ := dated _ e (.tail _ (.tail _ (.head _))) again.1
      obtain ⟨now', rfl, rfl⟩ := (runs_correctSkew (hasContext_of_date date) date).mp corrected
      let before : SessionTrace := [⟨.createForRequest, metadata⟩, ⟨.now, now⟩]
      let refusal : SessionTrace :=
        [⟨.connect (session.url provider metadata token), .error e⟩, ⟨.now, now'⟩]
      have hafter : LastCorrected initial (h ++ (before ++ refusal))
          (provider.correctedTo serverTs now') := by
        rw [← List.append_assoc]
        exact (after.append (by simp [before, Refusal])).correctedTo again.1 date
      obtain ⟨hallowed, hlast⟩ := ih hafter fun url e hmem => dated url e (by simp [hmem])
      have hfirst : Allowed (session.Asked initial) h ([_, _, _] ++ [⟨.now, now'⟩]) :=
        allowed_append.mpr ⟨allowed_attempt after metadata given (.error e), trivial, trivial⟩
      have hall : Allowed (session.Asked initial) h (before ++ refusal ++ t₂) :=
        allowed_append.mpr ⟨hfirst, hallowed⟩
      refine ⟨hall, fun chunkBoundaryEnd chunks' provider' hr => ?_⟩
      show LastCorrected initial (h ++ (before ++ refusal ++ t₂)) provider'
      rw [← List.append_assoc]
      exact hlast _ _ _ hr
  | @connected provider _ metadata now token t₁ _ t₂ _ given run closing =>
      have hquiet := List.forall_mem_append.mpr ⟨run.asksNothing, closing.asksNothing⟩
      refine ⟨?_, fun chunkBoundaryEnd chunks' provider' hr => ?_⟩
      · show Allowed (session.Asked initial) h ([_, _, _] ++ _)
        exact allowed_append.mpr
          ⟨allowed_attempt after metadata given (.ok ()), allowed_asksNothing hquiet _⟩
      · subst hr
        cases closing
        refine after.append ?_
        show ∀ ev ∈ [_, _, _] ++ _, ¬ Refusal ev
        refine List.forall_mem_append.mpr ⟨?_, ?_⟩
        · simp [Refusal]
        · exact fun ev hev => not_refusal_of_asksNothing (hquiet ev hev)

/-- **The tokens of a session.** -/
theorem SessionRun.asked {texts : List Bytes} {cumulative : Int64} {chunks : List TtsChunk}
    {provider : EdgeTokenProvider} {t : SessionTrace} {r : Option (Outcome (List TtsChunk))}
    (run : session.SessionRun ttsConfig texts cumulative chunks provider t r) {h : SessionTrace}
    (after : LastCorrected initial h provider) (dated : Dated t) :
    Allowed (session.Asked initial) h t := by
  have hcheck : ∀ ev ∈ ([⟨.isCancelled, false⟩] : SessionTrace), ¬ Refusal ev := by
    simp [Refusal]
  induction run generalizing h with
  | done => exact trivial
  | cancelled => exact ⟨trivial, trivial⟩
  | running chunk | failed chunk | escaped chunk =>
      refine ⟨trivial, (chunk.asked (after.append hcheck) fun url e hmem => ?_).1⟩
      exact dated url e (.tail _ hmem)
  | @next _ _ cumulative _ _ t₁ chunkBoundaryEnd _ _ t₂ _ chunk sum rest ih =>
      obtain ⟨hallowed, hlast⟩ := chunk.asked (after.append hcheck) fun url e hmem =>
        dated url e (by simp [hmem])
      refine ⟨trivial, allowed_append.mpr ⟨hallowed, trivial, ?_⟩⟩
      refine ih ((hlast _ _ _ rfl).append ?_) fun url e hmem => dated url e (by simp [hmem])
      simp [Refusal]

end SynthesisSession
end EdgeTts
