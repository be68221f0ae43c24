import EdgeTts.Api.Delivery
import EdgeTts.Api.SavedSpeech
import EdgeTts.Common.CancellationToken
import EdgeTts.Communication.Cancellation

/-!
# A call that is cancelled from another thread

While a call runs on its thread, other threads use tokens, `SpeechSynthesizer::cancel` among
them; `cancelled_call` is about any interleaving.  The checks that stop a call are those of the
entry point and of the session in it.  What each level does after such a check is a fact about
the runs of that level (`SessionRun.halts`, `call_halting`), and the stack inherits both.
-/
namespace EdgeTts

open Interaction (Prog Event Trace CarriedOut Environment Allowed allowed_append allowed_of_forall
  append_eq_append_cons append_cons_eq_singleton)
open Interaction.Prog (runs_bind runs_perform_if Issues issues_mapCommands)

/-! ## The session -/

/-- After a check that reads `true` the socket is closed, and nothing else is done. -/
def Halts (ev ev' : Event Command Reply) : Prop := ev = ⟨.isCancelled, true⟩ → ev'.1 = .close

theorem pairwise_halts_append {t t' : SessionTrace} (calm : ⟨.isCancelled, true⟩ ∉ t)
    (h : t'.Pairwise Halts) : (t ++ t').Pairwise Halts := by
  refine List.pairwise_append.mpr ⟨List.pairwise_of_forall_mem_list ?_, h, ?_⟩
  · rintro ev hev ev' - rfl
    exact absurd hev calm
  · rintro ev hev ev' - rfl
    exact absurd hev calm

namespace SynthesisSession
variable {session : SynthesisSession}

theorem Listened.halts {comp : Int64} {st : ChunkState} {t : SessionTrace}
    {r : Option (Outcome ChunkState)} (run : session.Listened comp st t r) : t.Pairwise Halts := by
  induction run with
  | @turn _ message _ t₁ _ _ _ _ _ delivered _ ih =>
      refine pairwise_halts_append
        (t := ⟨.isCancelled, false⟩ :: ⟨.receive, .ok message⟩ :: t₁) ?_ ih
      intro hmem
      obtain ⟨a, b, hadd⟩ := delivered.adds ⟨.isCancelled, true⟩ (by simpa using hmem)
      cases hadd
  | _ => simp [Halts]

theorem ChunkRun.halts {ttsConfig : TtsConfig} {text : Bytes} {metadata : ConnectionMetadata}
    {comp : Int64} {chunks : List TtsChunk} {t : SessionTrace}
    {r : Option (Outcome (Int64 × List TtsChunk))}
    (run : session.ChunkRun ttsConfig text metadata comp chunks t r) : t.Pairwise Halts := by
  cases run with
  | @listened now frame now' frame' _ _ _ _ loop =>
      exact pairwise_halts_append
        (t := [⟨.now, now⟩, ⟨.sendText frame, .ok ()⟩, ⟨.now, now'⟩, ⟨.sendText frame', .ok ()⟩])
        (by simp) loop.halts
  | _ => simp [Halts]

theorem Attempted.halts {ttsConfig : TtsConfig} {text : Bytes} {comp : Int64}
    {chunks : List TtsChunk} {provider : EdgeTokenProvider} {attempt : Int} {t : SessionTrace}
    {r : Option (Outcome (Int64 × List TtsChunk × EdgeTokenProvider))}
    (run : session.Attempted ttsConfig text comp chunks provider attempt t r) :
    t.Pairwise Halts := by
  induction run with
  | refused given last => simp [Halts]
  | @retried _ _ metadata now token e t₁ _ _ _ given again corrected rest ih =>
      refine pairwise_halts_append (t := ⟨.createForRequest, metadata⟩ :: ⟨.now, now⟩ ::
        ⟨.connect (session.url _ metadata token), .error e⟩ :: t₁) ?_ ih
      intro hmem
      cases (correctSkew_runs corrected).1 ⟨.isCancelled, true⟩ (by simpa using hmem)
  | @connected _ _ metadata now token _ _ t₂ _ given run closing =>
      refine pairwise_halts_append (t := [⟨.createForRequest, metadata⟩, ⟨.now, now⟩,
        ⟨.connect (session.url _ metadata token), .ok ()⟩]) (by simp) ?_
      have hclose : ∀ ev ∈ t₂, ev.1 = Command.close := by
        cases closing <;> simp
      refine List.pairwise_append.mpr ⟨run.halts, List.pairwise_of_forall_mem_list ?_, ?_⟩
      · exact fun _ _ ev hev _ => hclose ev hev
      · exact fun _ _ ev hev _ => hclose ev hev

/-- **After the check that stops a session** there is nothing but the closing of the socket. -/
theorem SessionRun.halts {ttsConfig : TtsConfig} {texts : List Bytes} {cumulative : Int64}
    {chunks : List TtsChunk} {provider : EdgeTokenProvider} {t : SessionTrace}
    {r : Option (Outcome (List TtsChunk))}
    (run : session.SessionRun ttsConfig texts cumulative chunks provider t r) :
    t.Pairwise Halts := by
  have hcheck : ∀ {u : SessionTrace}, u.Pairwise Halts →
      (⟨.isCancelled, false⟩ :: u).Pairwise Halts :=
    pairwise_halts_append (t := [⟨.isCancelled, false⟩]) (by simp)
  induction run with
  | done => exact .nil
  | cancelled => simp
  | running chunk => exact hcheck chunk.halts
  | failed chunk => exact hcheck chunk.halts
  | escaped chunk => exact hcheck chunk.halts
  | next chunk sum rest ih =>
      refine hcheck (pairwise_halts_append ?_ (pairwise_halts_append (t := [_]) (by simp) ih))
      intro hmem
      cases chunk.cancelled_of_mem hmem

end SynthesisSession

/-! ## The entry point -/

/-- A check reads that the token is cancelled, or the session has read so. -/
def Cancels (ev : Event ApiCommand ApiReply) : Prop :=
  ev = ⟨.isCancelled, true⟩ ∨
    ∃ config chunks, ev = ⟨.synthesizer config chunks, .fail synthesisCancelledError⟩

/-- No end of a call: completion is not reported, and no file is touched. -/
def Unfinished (ev : Event ApiCommand ApiReply) : Prop := ev.1 ≠ .onComplete ∧ fileAction ev = none

/-- After a cancellation there is nothing but the report of it. -/
structure Halting (t : ApiTrace) (error : Option Error) : Prop where
  last : t.Pairwise fun ev ev' => Cancels ev → ev' = ⟨.onError synthesisCancelledError, ()⟩
  failed : (∃ ev ∈ t, Cancels ev) → error = some synthesisCancelledError ∧ ∀ ev ∈ t, Unfinished ev

theorem Halting.of_calm {t : ApiTrace} {error : Option Error} (calm : ∀ ev ∈ t, ¬ Cancels ev) :
    Halting t error where
  last := List.pairwise_of_forall_mem_list fun ev hev _ _ h => absurd h (calm ev hev)
  failed := fun ⟨ev, hev, h⟩ => absurd h (calm ev hev)

theorem Halting.prepend {t t' : ApiTrace} {error : Option Error}
    (calm : ∀ ev ∈ t, ¬ Cancels ev ∧ Unfinished ev) (h : Halting t' error) :
    Halting (t ++ t') error where
  last := by
    refine List.pairwise_append.mpr ⟨List.pairwise_of_forall_mem_list ?_, h.last, ?_⟩
    · exact fun ev hev _ _ hc => absurd hc (calm ev hev).1
    · exact fun ev hev _ _ hc => absurd hc (calm ev hev).1
  failed := by
    rintro ⟨ev, hev, hc⟩
    have hlate := (List.mem_append.mp hev).resolve_left fun hev => (calm ev hev).1 hc
    obtain ⟨herror, hrest⟩ := h.failed ⟨ev, hlate, hc⟩
    exact ⟨herror, List.forall_mem_append.mpr ⟨fun ev' hev' => (calm ev' hev').2, hrest⟩⟩

/-- A cancellation and its report. -/
theorem Halting.cancelled {ev : Event ApiCommand ApiReply} {t : ApiTrace} (hev : Unfinished ev)
    (report : ∀ ev' ∈ t, ev' = ⟨.onError synthesisCancelledError, ()⟩) :
    Halting (ev :: t) (some synthesisCancelledError) where
  last := List.pairwise_cons.mpr ⟨fun ev' hev' _ => report ev' hev',
    List.pairwise_of_forall_mem_list fun _ _ ev' hev' _ => report ev' hev'⟩
  failed := fun _ => ⟨rfl, List.forall_mem_cons.mpr ⟨hev, fun ev' hev' => by
    rw [report ev' hev']
    exact ⟨nofun, rfl⟩⟩⟩

theorem reportError_runs {callbacks : StreamCallbacks} {e : Error} {t : ApiTrace}
    {result : Outcome Unit}
    (h : (do
      callbacks.reportError e
      return .fail e : Prog ApiCommand ApiReply (Outcome Unit)).Runs t result) :
    (∀ ev ∈ t, ev = ⟨.onError e, ()⟩) ∧ result = .fail e := by
  obtain ⟨t₁, t₂, _, rfl, hreport, rfl, rfl⟩ := runs_bind.mp h
  rw [runs_perform_if hreport]
  split <;> simp

theorem deliver_calm {callbacks : StreamCallbacks} {chunk : TtsChunk} {t : ApiTrace} {u : Unit}
    (h : (callbacks.deliver chunk).Runs t u) : ∀ ev ∈ t, ¬ Cancels ev ∧ Unfinished ev := by
  cases chunk with
  | audio ac =>
      rw [StreamCallbacks.deliver] at h
      rw [runs_perform_if h]
      split <;> simp [Cancels, Unfinished, fileAction]
  | boundary bc =>
      rw [StreamCallbacks.deliver] at h
      rw [runs_perform_if h]
      split <;> simp [Cancels, Unfinished, fileAction]

theorem deliverAll_halting {callbacks : StreamCallbacks} {chunks : List TtsChunk} {t : ApiTrace}
    {result : Outcome Unit} (h : (callbacks.deliverAll chunks).Runs t result) :
    Halting t (Returned.done result).error := by
  have hcheck : ¬ Cancels ⟨.isCancelled, false⟩ ∧ Unfinished ⟨.isCancelled, false⟩ := by
    simp [Cancels, Unfinished, fileAction]
  have hcancelled : Unfinished ⟨.isCancelled, true⟩ := ⟨nofun, rfl⟩
  induction chunks generalizing t with
  | nil =>
      obtain ⟨cancelled, t, rfl, h⟩ := h
      cases cancelled with
      | true =>
          obtain ⟨hreport, rfl⟩ := reportError_runs h
          exact .cancelled hcancelled hreport
      | false =>
          obtain ⟨t₁, t₂, _, rfl, hreport, rfl, -⟩ := runs_bind.mp
            (show (do
              callbacks.reportComplete
              return .ok () : Prog ApiCommand ApiReply (Outcome Unit)).Runs t result from h)
          refine .of_calm (List.forall_mem_cons.mpr ⟨hcheck.1, ?_⟩)
          rw [List.append_nil, runs_perform_if hreport]
          split <;> simp [Cancels]
  | cons chunk chunks ih =>
      obtain ⟨cancelled, t, rfl, h⟩ := h
      cases cancelled with
      | true =>
          obtain ⟨hreport, rfl⟩ := reportError_runs h
          exact .cancelled hcancelled hreport
      | false =>
          obtain ⟨t₁, t₂, _, rfl, hdeliver, hrest⟩ := runs_bind.mp
            (show (do
              callbacks.deliver chunk
              callbacks.deliverAll chunks).Runs t result from h)
          exact (ih hrest).prepend (t := ⟨.isCancelled, false⟩ :: t₁)
            (List.forall_mem_cons.mpr ⟨hcheck, deliver_calm hdeliver⟩)

/-- What `save` does after its pipeline. -/
def FileWork : ApiCommand → Prop
  | .add _ _ | .writeBinary _ _ | .writeTextUtf8 _ _ => True
  | _ => False

theorem not_cancels_of_fileWork {ev : Event ApiCommand ApiReply} (h : FileWork ev.1) :
    ¬ Cancels ev := by
  rintro (rfl | ⟨config, chunks, rfl⟩)
  · exact h
  · exact h

theorem writeFiles_fileWork (mediaPath : Bytes) (subtitlesPath : Option Bytes)
    (audioBytes : Bytes) (submaker : SubtitleBuilder) :
    (writeFiles mediaPath subtitlesPath audioBytes submaker).Issues FileWork := by
  refine ⟨trivial, fun written => ?_⟩
  cases written with
  | error e => trivial
  | ok _ =>
      cases subtitlesPath with
      | none => trivial
      | some path => exact ⟨trivial, fun _ => trivial⟩

/-- `save` does not look at the token after its pipeline. -/
theorem saveFiles_fileWork (mediaPath : Bytes) (subtitlesPath : Option Bytes)
    (chunks : List TtsChunk) :
    (saveFiles mediaPath subtitlesPath (.ok chunks)).Issues FileWork := by
  rw [saveFiles, collectChunks_eq, bind_assoc]
  refine (issues_mapCommands (fun c => ?_) _).bind fun fed => ?_
  · cases c
    trivial
  · cases fed with
    | error e => trivial
    | ok submaker => exact (writeFiles_fileWork ..).bind fun _ => trivial

theorem runOnce_halting {α : Type} {s s' : SpeechSynthesizer}
    {finish : Outcome (List TtsChunk) → Prog ApiCommand ApiReply (Outcome α)}
    {wrap : Outcome α → Returned} {t : ApiTrace} {returned : Returned}
    (succeeds : ∀ {chunks t result}, (finish (.ok chunks)).Runs t result →
      Halting t (wrap result).error)
    (fails : ∀ {e t result}, (finish (.fail e)).Runs t result →
      (∀ ev ∈ t, ev = ⟨.onError e, ()⟩) ∧ (wrap result).error = some e)
    (escapes : ∀ {x t result}, (finish (.escape x)).Runs t result → t = [])
    (run : (do
      let (s, result) ← s.runOnce finish
      return (s, wrap result)).Runs t (s', returned)) : Halting t returned.error := by
  obtain ⟨result, hrun, rfl⟩ := runOnce_wrapped run
  -- the report of an error that is no cancellation
  have hreport : ∀ {e : Error} {t : ApiTrace}, (∀ ev ∈ t, ev = ⟨.onError e, ()⟩) →
      ∀ ev ∈ t, ¬ Cancels ev := by
    intro e t h ev hev
    rw [h ev hev]
    simp [Cancels]
  have hcheck : ¬ Cancels ⟨.isCancelled, false⟩ ∧ Unfinished ⟨.isCancelled, false⟩ := by
    simp [Cancels, Unfinished, fileAction]
  rcases runOnce_runs hrun with ⟨-, -, rfl, -⟩ | ⟨-, -, t₁, t₂, synthesis, rfl, hpipeline, hfin⟩
  · exact .of_calm (by simp)
  cases hpipeline with
  | cancelled =>
      obtain ⟨hall, herror⟩ := fails hfin
      rw [herror]
      exact .cancelled (by simp [Unfinished, fileAction]) hall
  | refused notReady =>
      exact .of_calm (List.forall_mem_cons.mpr ⟨hcheck.1, hreport (fails hfin).1⟩)
  | noText chunked =>
      exact (succeeds hfin).prepend (t := [⟨.isCancelled, false⟩]) (by simpa using hcheck)
  | called ready =>
      cases synthesis with
      | ok chunks =>
          refine (succeeds hfin).prepend (List.forall_mem_cons.mpr ⟨hcheck, ?_⟩)
          simp [Cancels, Unfinished, fileAction]
      | fail e =>
          obtain ⟨hall, herror⟩ := fails hfin
          refine .prepend (t := [⟨.isCancelled, false⟩]) (by simpa using hcheck) ?_
          by_cases he : e = synthesisCancelledError
          · subst he
            rw [herror]
            exact .cancelled (by simp [Unfinished, fileAction]) hall
          · refine .of_calm (List.forall_mem_cons.mpr ⟨?_, hreport hall⟩)
            simp [Cancels, he]
      | escape x =>
          rw [escapes hfin, List.append_nil]
          refine .of_calm (List.forall_mem_cons.mpr ⟨hcheck.1, ?_⟩)
          simp [Cancels]

/-- **A call that has been cancelled** reports that, returns it, and does nothing else. -/
theorem call_halting {s s' : SpeechSynthesizer} {c : Call} {t : ApiTrace} {returned : Returned}
    (consumes : c.Consumes) (run : (s.call c).Runs t (s', returned)) :
    Halting t returned.error := by
  cases c with
  | synthesize =>
      refine runOnce_halting ?_ ?_ ?_ run
      · rintro chunks t result ⟨rfl, -⟩
        exact .of_calm nofun
      · rintro e t result ⟨rfl, rfl⟩
        exact ⟨nofun, rfl⟩
      · exact fun h => h.1
  | save mediaPath subtitlesPath =>
      refine runOnce_halting ?_ ?_ ?_ run
      · intro chunks t result h
        exact .of_calm fun ev hev =>
          not_cancels_of_fileWork ((saveFiles_fileWork ..).of_runs h ev hev)
      · rintro e t result ⟨rfl, rfl⟩
        exact ⟨nofun, rfl⟩
      · exact fun h => h.1
  | synthesizeStream callbacks =>
      refine runOnce_halting deliverAll_halting ?_ ?_ run
      · intro e t result h
        obtain ⟨hreport, rfl⟩ := reportError_runs h
        exact ⟨hreport, rfl⟩
      · exact fun h => h.1
  | cancel => exact absurd consumes id

/-! ## What a check lets through -/

/-- The callbacks that a check comes before. -/
def Announces : ApiCommand → Prop
  | .onAudio _ | .onBoundary _ | .onComplete => True
  | _ => False

/-- A callback is called right after a check. -/
def CallbackGuard (h : ApiTrace) (ev : Event ApiCommand ApiReply) : Prop :=
  Announces ev.1 → ∃ a, h = a ++ [⟨.isCancelled, false⟩]

theorem allowed_of_not_announces {t : ApiTrace} (ht : ∀ ev ∈ t, ¬ Announces ev.1) (h : ApiTrace) :
    Allowed CallbackGuard h t :=
  allowed_of_forall (fun ev hev _ hann => absurd hann (ht ev hev)) h

theorem deliver_allowed {callbacks : StreamCallbacks} {chunk : TtsChunk} {t : ApiTrace} {u : Unit}
    (run : (callbacks.deliver chunk).Runs t u) (h : ApiTrace) :
    Allowed CallbackGuard (h ++ [⟨.isCancelled, false⟩]) t := by
  cases chunk with
  | audio ac =>
      rw [StreamCallbacks.deliver] at run
      rw [runs_perform_if run]
      split
      · exact ⟨fun _ => ⟨h, rfl⟩, trivial⟩
      · trivial
  | boundary bc =>
      rw [StreamCallbacks.deliver] at run
      rw [runs_perform_if run]
      split
      · exact ⟨fun _ => ⟨h, rfl⟩, trivial⟩
      · trivial

theorem deliverAll_allowed {callbacks : StreamCallbacks} {chunks : List TtsChunk} {t : ApiTrace}
    {result : Outcome Unit} (run : (callbacks.deliverAll chunks).Runs t result) (h : ApiTrace) :
    Allowed CallbackGuard h t := by
  have hreport : ∀ {t : ApiTrace} {e : Error}, (∀ ev ∈ t, ev = ⟨.onError e, ()⟩) → ∀ h,
      Allowed CallbackGuard h t := by
    intro t e hall h
    refine allowed_of_not_announces (fun ev hev => ?_) h
    rw [hall ev hev]
    exact id
  induction chunks generalizing t h with
  | nil =>
      obtain ⟨cancelled, t, rfl, run⟩ := run
      cases cancelled with
      | true => exact ⟨nofun, hreport (reportError_runs run).1 _⟩
      | false =>
          obtain ⟨t₁, t₂, _, rfl, hcomplete, rfl, -⟩ := runs_bind.mp
            (show (do
              callbacks.reportComplete
              return .ok () : Prog ApiCommand ApiReply (Outcome Unit)).Runs t result from run)
          rw [List.append_nil, runs_perform_if hcomplete]
          split
          · exact ⟨nofun, fun _ => ⟨h, rfl⟩, trivial⟩
          · exact ⟨nofun, trivial⟩
  | cons chunk chunks ih =>
      obtain ⟨cancelled, t, rfl, run⟩ := run
      cases cancelled with
      | true => exact ⟨nofun, hreport (reportError_runs run).1 _⟩
      | false =>
          obtain ⟨t₁, t₂, _, rfl, hdeliver, hrest⟩ := runs_bind.mp
            (show (do
              callbacks.deliver chunk
              callbacks.deliverAll chunks).Runs t result from run)
          exact ⟨nofun, allowed_append.mpr ⟨deliver_allowed hdeliver h, ih hrest _⟩⟩

theorem PipelineRun.not_announces {s : SpeechSynthesizer} {t : ApiTrace}
    {r : Outcome (List TtsChunk)} (run : PipelineRun s t r) : ∀ ev ∈ t, ¬ Announces ev.1 := by
  cases run <;> simp [Announces]

theorem runOnce_allowed {α : Type} {s s' : SpeechSynthesizer}
    {finish : Outcome (List TtsChunk) → Prog ApiCommand ApiReply (Outcome α)}
    {wrap : Outcome α → Returned} {t : ApiTrace} {returned : Returned}
    (finishes : ∀ {synthesis t result}, (finish synthesis).Runs t result →
      ∀ h, Allowed CallbackGuard h t)
    (run : (do
      let (s, result) ← s.runOnce finish
      return (s, wrap result)).Runs t (s', returned)) : Allowed CallbackGuard [] t := by
  obtain ⟨result, hrun, -⟩ := runOnce_wrapped run
  rcases runOnce_runs hrun with ⟨-, -, rfl, -⟩ | ⟨-, -, t₁, t₂, synthesis, rfl, hpipeline, hfin⟩
  · trivial
  · exact allowed_append.mpr
      ⟨allowed_of_not_announces hpipeline.not_announces _, finishes hfin _⟩

/-- **Every callback of a call** but `on_error` is called right after a check. -/
theorem call_allowed {s s' : SpeechSynthesizer} {c : Call} {t : ApiTrace} {returned : Returned}
    (run : (s.call c).Runs t (s', returned)) : Allowed CallbackGuard [] t := by
  cases c with
  | synthesize =>
      refine runOnce_allowed ?_ run
      rintro synthesis t result ⟨rfl, -⟩ h
      trivial
  | save mediaPath subtitlesPath =>
      refine runOnce_allowed ?_ run
      intro synthesis t result hrun h
      cases synthesis with
      | ok chunks =>
          refine allowed_of_not_announces (fun ev hev hann => ?_) h
          have hwork := (saveFiles_fileWork ..).of_runs hrun ev hev
          obtain ⟨c, reply⟩ := ev
          cases c <;> first | exact hwork | exact hann
      | fail e =>
          obtain ⟨rfl, -⟩ := hrun
          trivial
      | escape x =>
          obtain ⟨rfl, -⟩ := hrun
          trivial
  | synthesizeStream callbacks =>
      refine runOnce_allowed ?_ run
      intro synthesis t result hrun h
      cases synthesis with
      | ok chunks => exact deliverAll_allowed hrun h
      | fail e =>
          refine allowed_of_not_announces (fun ev hev => ?_) h
          rw [(reportError_runs hrun).1 ev hev]
          exact id
      | escape x =>
          obtain ⟨rfl, -⟩ := hrun
          trivial
  | cancel =>
      rw [(cancel_runs run).2]
      exact ⟨nofun, trivial⟩

/-! ## The stack -/

section
variable {synth : ProductionSynthesizer}

theorem apiHandler_check {fuel : Nat} {c : ApiCommand} {r : ApiReply c}
    {before after : StackTrace} {v : Bool} (hc : NotSynthesizer c)
    (h : (synth.apiHandler fuel c).Runs (before ++ ⟨.isCancelled, v⟩ :: after) (some r)) :
    (⟨c, r⟩ : Event ApiCommand ApiReply) = ⟨.isCancelled, v⟩ ∧ before = [] ∧ after = [] := by
  cases c with
  | synthesizer config chunks => exact absurd rfl (hc config chunks)
  | _ =>
      obtain ⟨rfl, rfl, heq⟩ := append_cons_eq_singleton (runs_some_perform.mp h)
      cases heq <;> exact ⟨rfl, rfl, rfl⟩

/-- In a session that a check has stopped, the socket is closed and nothing else is done. -/
theorem session_cancelled {fuel : Nat} {config : TtsConfig} {chunks : List Bytes}
    {before after : StackTrace} {r : Outcome (List TtsChunk)}
    (run : (synth.synthesize fuel config chunks).Runs (before ++ ⟨.isCancelled, true⟩ :: after)
      (some r)) :
    r = .fail synthesisCancelledError ∧ ∀ ev ∈ after, ev.1 = .close := by
  obtain ⟨sessionTrace, hrun, hc⟩ := synthesizer_runs.mp run
  have hsession := SynthesisSession.synthesize_runs hrun
  obtain ⟨t₁, t₂, c, reply, b₁, b₂, a₁, a₂, rfl, rfl, rfl, -, hstep, hrest⟩ := hc.around
  obtain ⟨heq, rfl, rfl⟩ := sessionHandler_event rfl hstep
  rw [heq] at hsession
  refine ⟨Option.some.inj (hsession.cancelled_of_mem (by simp)), ?_⟩
  rw [List.nil_append]
  -- what follows the check in the session is carried out call by call
  refine hrest.forall_mem fun c' r' t hrun' hmem ev hev => ?_
  obtain rfl : c' = .close :=
    (List.pairwise_cons.mp (List.pairwise_append.mp hsession.halts).2.1).1 _ hmem rfl
  rw [runs_some_perform.mp hrun'] at hev
  rw [List.mem_singleton.mp hev]

variable {fuel : Nat} {apiTrace : ApiTrace} {error : Option Error}

/-- **A check that stops a call**, in the entry point or in the session. -/
theorem carriedOut_cancelled {before after : StackTrace} (halting : Halting apiTrace error)
    (hc : CarriedOut (synth.apiHandler fuel) apiTrace (before ++ ⟨.isCancelled, true⟩ :: after)) :
    (∃ ev ∈ apiTrace, Cancels ev) ∧
      ∀ ev ∈ after, ev.1 = .close ∨ ev.1 = .onError synthesisCancelledError := by
  obtain ⟨t₁, t₂, c, reply, b₁, b₂, a₁, a₂, rfl, rfl, rfl, -, hstep, hrest⟩ := hc.around
  have hcancels : Cancels ⟨c, reply⟩ ∧ ∀ ev ∈ a₁, ev.1 = .close := by
    by_cases hsynthesizer : NotSynthesizer c
    · obtain ⟨heq, rfl, rfl⟩ := apiHandler_check hsynthesizer hstep
      exact ⟨.inl heq, nofun⟩
    · cases c with
      | synthesizer config chunks =>
          obtain ⟨rfl, hclose⟩ := session_cancelled hstep
          exact ⟨.inr ⟨config, chunks, rfl⟩, hclose⟩
      | _ => exact absurd nofun hsynthesizer
  refine ⟨⟨_, by simp, hcancels.1⟩, List.forall_mem_append.mpr
    ⟨fun ev hev => .inl (hcancels.2 ev hev), ?_⟩⟩
  refine hrest.forall_mem fun c' r' t hrun hmem ev hev => ?_
  have hlast : (⟨c', r'⟩ : Event ApiCommand ApiReply) = ⟨.onError synthesisCancelledError, ()⟩ :=
    (List.pairwise_cons.mp (List.pairwise_append.mp halting.last).2.1).1 _ hmem hcancels.1
  cases hlast
  rw [runs_some_perform.mp hrun] at hev
  rw [List.mem_singleton.mp hev]
  exact .inr rfl

/-- What a check lets through: the receiving of a message, and a callback that is not
`on_error`. -/
def LetThrough : StackCommand → Prop
  | .receive | .onAudio _ | .onBoundary _ | .onComplete => True
  | _ => False

/-- A check is carried out by itself. -/
theorem ends_with_check {C : Type} {R : C → Type}
    {h : Interaction.Handler C R StackCommand StackReply} {t : Trace C R} {ev : Event C R}
    {u : StackTrace}
    (alone : ∀ v, (h ev.1).Runs v (some ev.2) → v = [⟨.isCancelled, false⟩])
    (hc : CarriedOut h (t ++ [ev]) u) : ∃ a, u = a ++ [⟨.isCancelled, false⟩] := by
  obtain ⟨a, b, rfl, -, hlast⟩ := hc.split
  cases hlast with
  | cons first rest =>
      rw [Interaction.carriedOut_nil.mp rest, List.append_nil, alone _ first]
      exact ⟨a, rfl⟩

/-- In a session, messages are received right after a check. -/
theorem session_receives {fuel : Nat} {config : TtsConfig} {chunks : List Bytes}
    {before after : StackTrace} {r : Outcome (List TtsChunk)} {c : StackCommand}
    {reply : StackReply c} (hthrough : LetThrough c)
    (run : (synth.synthesize fuel config chunks).Runs (before ++ ⟨c, reply⟩ :: after) (some r)) :
    ∃ a, before = a ++ [⟨.isCancelled, false⟩] := by
  obtain ⟨sessionTrace, hrun, hc⟩ := synthesizer_runs.mp run
  obtain ⟨t₁, t₂, c', reply', b₁, b₂, a₁, a₂, rfl, rfl, rfl, hbefore, hstep, -⟩ := hc.around
  obtain ⟨rfl, rfl⟩ : c' = .receive ∧ b₂ = [] := by
    cases c' with
    | createForRequest =>
        obtain ⟨words, heq, -⟩ := runs_draw.mp (runs_some_map.mp hstep)
        have hmem : ⟨c, reply⟩ ∈ drawnWords words := by
          rw [← heq]
          simp
        obtain rfl : c = .rng := mem_drawnWords hmem
        exact hthrough.elim
    | receive => exact ⟨rfl, (append_cons_eq_singleton (runs_some_perform.mp hstep)).1⟩
    | _ =>
        cases (append_cons_eq_singleton (runs_some_perform.mp hstep)).2.2
        exact hthrough.elim
  obtain ⟨a, rfl⟩ := ((SynthesisSession.synthesize_runs hrun).guarded []).before
  rw [List.append_nil]
  exact ends_with_check (fun _ => runs_some_perform.mp) hbefore

variable {fuel : Nat} {apiTrace : ApiTrace} {error : Option Error}

/-- **Everything that a check lets through comes right after one.** -/
theorem carriedOut_letThrough {before after : StackTrace} {ev : Event StackCommand StackReply}
    (hthrough : LetThrough ev.1) (guarded : Allowed CallbackGuard [] apiTrace)
    (hc : CarriedOut (synth.apiHandler fuel) apiTrace (before ++ ev :: after)) :
    ∃ a, before = a ++ [⟨.isCancelled, false⟩] := by
  obtain ⟨t₁, t₂, c, reply, b₁, b₂, a₁, a₂, rfl, rfl, rfl, hbefore, hstep, -⟩ := hc.around
  by_cases hsynthesizer : NotSynthesizer c
  · have hcallback : Announces c ∧ b₂ = [] := by
      cases c with
      | synthesizer config chunks => exact absurd rfl (hsynthesizer config chunks)
      | _ =>
          obtain ⟨hnil, -, rfl⟩ := append_cons_eq_singleton (runs_some_perform.mp hstep)
          exact ⟨hthrough, hnil⟩
    obtain ⟨hannounces, rfl⟩ := hcallback
    obtain ⟨a, rfl⟩ := guarded.before hannounces
    rw [List.append_nil]
    exact ends_with_check (fun _ => runs_some_perform.mp) hbefore
  · cases c with
    | synthesizer config chunks =>
        obtain ⟨a, rfl⟩ := session_receives hthrough hstep
        exact ⟨b₁ ++ a, (List.append_assoc _ _ _).symm⟩
    | _ => exact absurd nofun hsynthesizer

/-- A session reports nothing itself. -/
theorem sessionHandler_complete {c : Command} {r : Reply c} {t : StackTrace}
    (h : (synth.sessionHandler c).Runs t (some r)) : ∀ ev ∈ t, ev.1 ≠ .onComplete := by
  cases c with
  | createForRequest =>
      obtain ⟨words, rfl, -⟩ := runs_draw.mp (runs_some_map.mp h)
      intro ev hev
      rw [mem_drawnWords hev]
      exact nofun
  | _ =>
      rw [runs_some_perform.mp h]
      exact List.forall_mem_singleton.mpr nofun

theorem carriedOut_unfinished {u : StackTrace} (unfinished : ∀ ev ∈ apiTrace, Unfinished ev)
    (hc : CarriedOut (synth.apiHandler fuel) apiTrace u) :
    (∀ ev ∈ u, ev.1 ≠ .onComplete) ∧ u.filterMap stackFileAction = [] := by
  constructor
  · refine hc.forall_mem fun c r t hrun hmem => ?_
    cases c with
    | synthesizer config chunks =>
        obtain ⟨sessionTrace, -, hsession⟩ := synthesizer_runs.mp hrun
        exact hsession.forall_mem fun _ _ _ hstep _ => sessionHandler_complete hstep
    | onComplete => exact absurd rfl (unfinished _ hmem).1
    | _ =>
        rw [runs_some_perform.mp hrun]
        exact List.forall_mem_singleton.mpr nofun
  · rw [hc.filterMap_eq apiHandler_file]
    exact List.filterMap_eq_nil_iff.mpr fun ev hev => (unfinished ev hev).2

end

/-! ## The threads together -/

/-- What the thread of the call does, and what the other threads do with tokens meanwhile. -/
abbrev Interleaving := List (Event StackCommand StackReply ⊕ TokenEvent)

/-- The events of the call. -/
def ownEvents (h : Interleaving) : StackTrace := h.filterMap Sum.getLeft?

/-- The accesses to tokens; those of the call are to its own. -/
def tokenEvents (token : CancellationToken) (h : Interleaving) : List TokenEvent :=
  h.filterMap fun
    | .inl ⟨.isCancelled, v⟩ => some (.read token v)
    | .inl ⟨.cancel, _⟩ => some (.cancelled token)
    | .inl _ => none
    | .inr e => some e

/-- **A call that other threads may cancel.**  In every interleaving its checks show exactly
whether its token has been cancelled before.  After the check that stops it the call closes its
socket, reports the cancellation and returns it, and no file is written and no completion
reported; and after the cancellation itself a message is received, or another callback called,
only as the very next thing that the call does. -/
theorem cancelled_call {jsonParse : Bytes → JsonParse} {fuel : Nat} {s s' : SpeechSynthesizer}
    {c : Call} {returned : Returned} {h : Interleaving} {token : CancellationToken}
    {flags : List Bool} (consumes : c.Consumes)
    (run : (production jsonParse fuel (s.call c)).Runs (ownEvents h) (some (s', returned)))
    (tokens : TokenRun (tokenEvents token h) flags) :
    (∀ a v b, h = a ++ .inl ⟨.isCancelled, v⟩ :: b →
      (v = true ↔ .cancelled token ∈ tokenEvents token a)) ∧
    (∀ a b, h = a ++ .inl ⟨.isCancelled, true⟩ :: b →
      (∀ ev ∈ ownEvents b, ev.1 = .close ∨ ev.1 = .onError synthesisCancelledError) ∧
      returned.error = some synthesisCancelledError ∧
      (∀ ev ∈ ownEvents h, ev.1 ≠ .onComplete) ∧ stackFileActions (ownEvents h) = []) ∧
    ∀ a b, h = a ++ .inr (.cancelled token) :: b →
      ∀ before ev after, ownEvents b = before ++ ev :: after → LetThrough ev.1 → before = [] := by
  have hread : ∀ a v b, h = a ++ .inl ⟨.isCancelled, v⟩ :: b →
      (v = true ↔ .cancelled token ∈ tokenEvents token a) := by
    rintro a v b rfl
    rw [tokenEvents, List.filterMap_append] at tokens
    exact tokens.read_iff
  obtain ⟨words, synth, u, apiTrace, heq, -, hcall, hc⟩ := stack_runs.mp run
  have halting := call_halting consumes hcall
  -- where an event of the call stands in the part that follows the construction
  have hlocate : ∀ {x y : StackTrace} {ev : Event StackCommand StackReply}, ev.1 ≠ .rng →
      ownEvents h = x ++ ev :: y → ∃ x', x = drawnWords words ++ x' ∧ u = x' ++ ev :: y := by
    intro x y ev hrng hsplit
    rcases append_eq_append_cons (heq.symm.trans hsplit) with h | ⟨y', hw, -⟩
    · exact h
    · have hmem : ev ∈ drawnWords words := by
        rw [hw]
        simp
      exact absurd (mem_drawnWords hmem) hrng
  refine ⟨hread, ?_, ?_⟩
  · rintro a b rfl
    have hown : ownEvents (a ++ .inl ⟨.isCancelled, true⟩ :: b) =
        ownEvents a ++ ⟨.isCancelled, true⟩ :: ownEvents b := List.filterMap_append
    have hrng : StackCommand.isCancelled ≠ .rng := nofun
    obtain ⟨x, -, rfl⟩ := hlocate hrng hown
    obtain ⟨hcancels, hlast⟩ := carriedOut_cancelled halting hc
    obtain ⟨herror, hunfinished⟩ := halting.failed hcancels
    obtain ⟨hcomplete, hfiles⟩ := carriedOut_unfinished hunfinished hc
    rw [heq]
    refine ⟨hlast, herror, List.forall_mem_append.mpr ⟨fun ev hev => ?_, hcomplete⟩, ?_⟩
    · rw [mem_drawnWords hev]
      exact nofun
    · rw [stackFileActions, List.filterMap_append, hfiles, ← stackFileActions,
        stackFileActions_drawnWords]
      rfl
  · rintro a b rfl before ev after hsplit hthrough
    have hown : ownEvents (a ++ .inr (.cancelled token) :: b) =
        (ownEvents a ++ before) ++ ev :: after := by
      rw [List.append_assoc, ← hsplit]
      exact List.filterMap_append
    obtain ⟨x, hx, rfl⟩ := hlocate (fun hrng => by rw [hrng] at hthrough; exact hthrough) hown
    obtain ⟨x', rfl⟩ := carriedOut_letThrough hthrough (call_allowed hcall) hc
    by_contra hne
    -- the check of `ev` has been made after the cancellation, but shows nothing of it
    have hlast : before.getLast? = some ⟨.isCancelled, false⟩ := by
      have hend := congrArg List.getLast? hx
      rwa [List.getLast?_append_of_ne_nil _ hne, ← List.append_assoc,
        List.getLast?_concat] at hend
    have hmem : ⟨.isCancelled, false⟩ ∈ ownEvents b := by
      rw [hsplit]
      exact List.mem_append_left _ (List.mem_of_getLast? hlast)
    obtain ⟨e, he, hown⟩ := List.mem_filterMap.mp hmem
    obtain rfl : e = .inl ⟨.isCancelled, false⟩ := Sum.getLeft?_eq_some_iff.mp hown
    obtain ⟨b₁, b₂, rfl⟩ := List.append_of_mem he
    have hfalse := (hread (a ++ .inr (.cancelled token) :: b₁) false b₂ (by simp)).mpr
      (by simp [tokenEvents])
    cases hfalse

/-- The sample machine, with a token that is cancelled after so many checks. -/
def cancelledMachine : Environment StackCommand StackReply (Nat × List WebSocketMessage)
  | .isCancelled, (n, s) => (n == 0, (n - 1, s))
  | c, (n, s) => ((sampleMachine c s).1, (n, (sampleMachine c s).2))

/-- A message is received, and the check after it stops the call. -/
def stopsReceiving : StackTrace → Bool
  | [⟨.receive, _⟩, ⟨.isCancelled, true⟩, ⟨.close, _⟩] => true
  | _ => false

theorem eq_of_stopsReceiving {t : StackTrace} (h : stopsReceiving t = true) :
    ∃ received closed, t = [⟨.receive, received⟩, ⟨.isCancelled, true⟩, ⟨.close, closed⟩] := by
  unfold stopsReceiving at h
  split at h
  · exact ⟨_, _, rfl⟩
  · cases h

/-- A call whose token is cancelled by another thread right after a check has let it receive. -/
theorem cancelled_call_sample :
    let s : SpeechSynthesizer := { text := lit "Hi", config := .defaults }
    let run := (production sampleSession.jsonParse 3 (s.call (.save (lit "a.mp3") none))).runIn
      cancelledMachine (3, [audioMessage])
    let h : Interleaving := .inr (.constructed ⟨0⟩) :: (run.trace.take 15).map .inl ++
      .inr (.cancelled ⟨0⟩) :: (run.trace.drop 15).map .inl
    ∃ received closed, ownEvents h = run.trace ∧
      run.trace.drop 15 = [⟨.receive, received⟩, ⟨.isCancelled, true⟩, ⟨.close, closed⟩] ∧
      run.result.bind (fun r => r.2.error) = some synthesisCancelledError ∧
      stackFileActions run.trace = [] := by
  intro s run h
  have hown : ownEvents h = run.trace := by
    have hinl : ∀ t : StackTrace, ownEvents (t.map .inl) = t := by
      intro t
      rw [ownEvents, List.filterMap_map]
      exact List.filterMap_some
    show ownEvents (.inr _ :: (_ ++ .inr _ :: _)) = _
    rw [ownEvents, List.filterMap_cons_none rfl, List.filterMap_append,
      List.filterMap_cons_none rfl, ← ownEvents, ← ownEvents, hinl, hinl]
    exact List.take_append_drop 15 run.trace
  have hany : run.result.isSome = true := by decide +kernel
  obtain ⟨⟨s', returned⟩, hresult⟩ := Option.isSome_iff_exists.mp hany
  have hrun : (production sampleSession.jsonParse 3 (s.call (.save (lit "a.mp3") none))).Runs
      (ownEvents h) (some (s', returned)) := by
    rw [hown, ← hresult]
    exact Prog.runs_runIn _ _ _
  have tokens : TokenRun (tokenEvents ⟨0⟩ h) [true] := by decide +kernel
  obtain ⟨received, closed, hdrop⟩ :=
    eq_of_stopsReceiving (t := run.trace.drop 15) (by decide +kernel)
  have consumes : (Call.save (lit "a.mp3") none).Consumes := trivial
  obtain ⟨-, hstopped, -⟩ := cancelled_call consumes hrun tokens
  have hsplit : h = (.inr (.constructed ⟨0⟩) :: (run.trace.take 15).map .inl ++
      [.inr (.cancelled ⟨0⟩), .inl ⟨.receive, received⟩]) ++
      .inl ⟨.isCancelled, true⟩ :: [.inl ⟨.close, closed⟩] := by
    show _ ++ Sum.inr _ :: (run.trace.drop 15).map Sum.inl = _
    rw [hdrop]
    simp
  obtain ⟨-, herror, -, hfiles⟩ := hstopped _ _ hsplit
  refine ⟨received, closed, hown, hdrop, ?_, hown ▸ hfiles⟩
  rw [hresult]
  exact herror

end EdgeTts
