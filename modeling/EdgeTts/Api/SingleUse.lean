import EdgeTts.Api.SpeechSynthesizer

/-!
# A `SpeechSynthesizer` is single-use

`PipelineRun` lists the exits of `run_pipeline`, and `call_runs` says what any call does by
whether the object has been used: before, it starts with the pipeline and does nothing to
the injected synthesizer after it; afterwards it does nothing at all.  `single_use` carries
this over every sequence of calls.
-/
namespace EdgeTts

open Interaction (Prog Event Allowed allowed_append allowed_of_forall)
open Interaction.Prog (runs_bind runs_perform_bind Issues issues_mapCommands)

/-- The checks of the pipeline let the injected synthesizer be called with `chunks`. -/
structure SpeechSynthesizer.Ready (s : SpeechSynthesizer) (chunks : List Bytes) : Prop where
  noProxy : s.options.proxy = none
  valid : validateTtsConfig s.config = .ok ()
  chunked : defaultChunker.chunk s.text = .ok chunks
  nonempty : chunks ≠ []

/-- The runs of `run_pipeline`, one constructor for each exit. -/
inductive PipelineRun (s : SpeechSynthesizer) : ApiTrace → Outcome (List TtsChunk) → Prop
  | cancelled : PipelineRun s [⟨.isCancelled, true⟩] (.fail synthesisCancelledError)
  | refused {e : Error} (notReady : ∀ chunks, ¬ s.Ready chunks) :
      PipelineRun s [⟨.isCancelled, false⟩] (.fail e)
  | noText (chunked : defaultChunker.chunk s.text = .ok []) :
      PipelineRun s [⟨.isCancelled, false⟩] (.ok [])
  | called {chunks : List Bytes} (ready : s.Ready chunks) (reply : Outcome (List TtsChunk)) :
      PipelineRun s [⟨.isCancelled, false⟩, ⟨.synthesizer s.config chunks, reply⟩] reply

theorem runPipeline_runs {s : SpeechSynthesizer} {t : ApiTrace} {r : Outcome (List TtsChunk)}
    (h : s.runPipeline.Runs t r) : PipelineRun s t r := by
  rw [SpeechSynthesizer.runPipeline, runs_perform_bind] at h
  obtain ⟨cancelled, t, rfl, h⟩ := h
  cases cancelled with
  | true =>
      obtain ⟨rfl, rfl⟩ := h
      exact .cancelled
  | false =>
      simp only [Bool.false_eq_true, if_false] at h
      by_cases hproxy : s.options.proxy.isSome = true
      · rw [if_pos hproxy] at h
        obtain ⟨rfl, rfl⟩ := h
        refine .refused fun chunks ready => ?_
        rw [ready.noProxy] at hproxy
        cases hproxy
      · rw [if_neg hproxy] at h
        cases hvalid : validateTtsConfig s.config with
        | error e =>
            simp only [hvalid] at h
            obtain ⟨rfl, rfl⟩ := h
            refine .refused fun chunks ready => ?_
            rw [ready.valid] at hvalid
            cases hvalid
        | ok _ =>
            simp only [hvalid] at h
            cases hchunk : defaultChunker.chunk s.text with
            | error e =>
                simp only [hchunk] at h
                obtain ⟨rfl, rfl⟩ := h
                refine .refused fun chunks ready => ?_
                rw [ready.chunked] at hchunk
                cases hchunk
            | ok chunks =>
                simp only [hchunk] at h
                by_cases hempty : chunks.isEmpty = true
                · rw [if_pos hempty] at h
                  obtain ⟨rfl, rfl⟩ := h
                  exact .noText (by rw [hchunk, List.isEmpty_iff.mp hempty])
                · rw [if_neg hempty] at h
                  obtain ⟨reply, _, rfl, rfl, rfl⟩ := h
                  exact .called ⟨by simpa using hproxy, hvalid, hchunk, by simpa using hempty⟩ reply

/-- Every reply of the synthesizer is possible. -/
theorem runPipeline_of_ready {s : SpeechSynthesizer} {chunks : List Bytes}
    (ready : s.Ready chunks) (reply : Outcome (List TtsChunk)) :
    s.runPipeline.Runs [⟨.isCancelled, false⟩, ⟨.synthesizer s.config chunks, reply⟩] reply := by
  rw [SpeechSynthesizer.runPipeline]
  refine ⟨false, _, rfl, ?_⟩
  simp only [Bool.false_eq_true, if_false, ready.noProxy, Option.isSome_none, ready.valid,
    ready.chunked, List.isEmpty_iff, ready.nonempty]
  exact ⟨reply, [], rfl, rfl, rfl⟩

/-! ## What follows the pipeline -/

/-- A command that is not the injected synthesizer. -/
def NotSynthesizer (c : ApiCommand) : Prop := ∀ config chunks, c ≠ .synthesizer config chunks

theorem reportError_issues (callbacks : StreamCallbacks) (e : Error) :
    (callbacks.reportError e).Issues NotSynthesizer := by
  rw [StreamCallbacks.reportError]
  split
  · simp [NotSynthesizer]
  · trivial

theorem deliver_issues (callbacks : StreamCallbacks) (chunk : TtsChunk) :
    (callbacks.deliver chunk).Issues NotSynthesizer := by
  cases chunk with
  | audio ac =>
      rw [StreamCallbacks.deliver]
      split
      · simp [NotSynthesizer]
      · trivial
  | boundary bc =>
      rw [StreamCallbacks.deliver]
      split
      · simp [NotSynthesizer]
      · trivial

theorem deliverAll_issues (callbacks : StreamCallbacks) (chunks : List TtsChunk) :
    (callbacks.deliverAll chunks).Issues NotSynthesizer := by
  induction chunks with
  | nil =>
      refine Issues.bind (by simp [NotSynthesizer]) fun cancelled => ?_
      split
      · exact (reportError_issues callbacks _).bind fun _ => trivial
      · refine Issues.bind ?_ fun _ => trivial
        rw [StreamCallbacks.reportComplete]
        split
        · simp [NotSynthesizer]
        · trivial
  | cons chunk chunks ih =>
      refine Issues.bind (by simp [NotSynthesizer]) fun cancelled => ?_
      split
      · exact (reportError_issues callbacks _).bind fun _ => trivial
      · exact (deliver_issues callbacks chunk).bind fun _ => ih

theorem collectChunks_issues (audioBytes : Bytes) (submaker : SubtitleBuilder)
    (chunks : List TtsChunk) :
    (collectChunks audioBytes submaker chunks).Issues NotSynthesizer := by
  induction chunks generalizing audioBytes submaker with
  | nil => trivial
  | cons chunk chunks ih =>
      cases chunk with
      | audio ac => exact ih ..
      | boundary bc =>
          have hfeed : (feedSubtitles submaker bc).Issues NotSynthesizer :=
            issues_mapCommands (by simp [NotSynthesizer]) _
          refine hfeed.bind fun fed => ?_
          cases fed with
          | error e => trivial
          | ok submaker' => exact ih ..

theorem writeFiles_issues (mediaPath : Bytes) (subtitlesPath : Option Bytes) (audioBytes : Bytes)
    (submaker : SubtitleBuilder) :
    (writeFiles mediaPath subtitlesPath audioBytes submaker).Issues NotSynthesizer := by
  refine Issues.bind (by simp [NotSynthesizer]) fun written => ?_
  cases written with
  | error e => trivial
  | ok _ =>
      cases subtitlesPath with
      | none => trivial
      | some path =>
          dsimp only
          cases submaker.toSrt with
          | error e => trivial
          | ok srt => simp [NotSynthesizer]

theorem stream_issues (callbacks : StreamCallbacks) (synthesis : Outcome (List TtsChunk)) :
    (callbacks.stream synthesis).Issues NotSynthesizer := by
  cases synthesis with
  | ok chunks => exact deliverAll_issues callbacks chunks
  | fail e => exact (reportError_issues callbacks e).bind fun _ => trivial
  | escape x => trivial

theorem saveFiles_issues (mediaPath : Bytes) (subtitlesPath : Option Bytes)
    (synthesis : Outcome (List TtsChunk)) :
    (saveFiles mediaPath subtitlesPath synthesis).Issues NotSynthesizer := by
  cases synthesis with
  | ok chunks =>
      refine (collectChunks_issues [] {} chunks).bind fun collected => ?_
      cases collected with
      | error e => trivial
      | ok p => exact (writeFiles_issues ..).bind fun _ => trivial
  | fail e => trivial
  | escape x => trivial

/-! ## The calls -/

/-- A run of an entry point, on an object that has been used and on one that has not. -/
theorem runOnce_cases {α : Type} {s s' : SpeechSynthesizer}
    {finish : Outcome (List TtsChunk) → Prog ApiCommand ApiReply (Outcome α)}
    {t : ApiTrace} {result : Outcome α} (h : (s.runOnce finish).Runs t (s', result)) :
    (s.called = true ∧ s' = s ∧ t = [] ∧ result = .fail calledTwiceError) ∨
    s.called = false ∧ s' = { s with called := true } ∧
      ∃ t₁ t₂ synthesis, t = t₁ ++ t₂ ∧ s.runPipeline.Runs t₁ synthesis ∧
        (finish synthesis).Runs t₂ result := by
  rw [SpeechSynthesizer.runOnce] at h
  by_cases hcalled : s.called = true
  · rw [if_pos hcalled] at h
    obtain ⟨rfl, heq⟩ := h
    cases heq
    exact Or.inl ⟨hcalled, rfl, rfl, rfl⟩
  · rw [if_neg hcalled] at h
    obtain ⟨t₁, t₂, synthesis, rfl, hpipeline, h⟩ := runs_bind.mp h
    obtain ⟨t₂, _, result', rfl, hfinish, rfl, heq⟩ := runs_bind.mp h
    cases heq
    exact Or.inr ⟨by simpa using hcalled, rfl, t₁, t₂, synthesis, by simp, hpipeline, hfinish⟩

/-- **What an entry point does.**  On an object that has been used it does nothing, and
otherwise it runs the pipeline once. -/
theorem runOnce_runs {α : Type} {s s' : SpeechSynthesizer}
    {finish : Outcome (List TtsChunk) → Prog ApiCommand ApiReply (Outcome α)}
    {t : ApiTrace} {result : Outcome α} (h : (s.runOnce finish).Runs t (s', result)) :
    (s.called = true ∧ s' = s ∧ t = [] ∧ result = .fail calledTwiceError) ∨
    s.called = false ∧ s' = { s with called := true } ∧
      ∃ t₁ t₂ synthesis, t = t₁ ++ t₂ ∧ PipelineRun s t₁ synthesis ∧
        (finish synthesis).Runs t₂ result := by
  refine (runOnce_cases h).imp_right ?_
  rintro ⟨hfresh, hs', t₁, t₂, synthesis, rfl, hpipeline, hfinish⟩
  exact ⟨hfresh, hs', t₁, t₂, synthesis, rfl, runPipeline_runs hpipeline, hfinish⟩

/-- What is left to say about a call once its result has been wrapped up. -/
def CallRun (s s' : SpeechSynthesizer) (t : ApiTrace) (returned : Returned) : Prop :=
  (s.called = true ∧ s' = s ∧ t = [] ∧ returned.error = some calledTwiceError) ∨
  s.called = false ∧ s' = { s with called := true } ∧
    ∃ t₁ t₂ synthesis, t = t₁ ++ t₂ ∧ PipelineRun s t₁ synthesis ∧
      ∀ ev ∈ t₂, NotSynthesizer ev.1

/-- The result of a call before it is wrapped up. -/
theorem runOnce_wrapped {α : Type} {s s' : SpeechSynthesizer}
    {finish : Outcome (List TtsChunk) → Prog ApiCommand ApiReply (Outcome α)}
    {wrap : Outcome α → Returned} {t : ApiTrace} {returned : Returned}
    (h : (do
      let (s, result) ← s.runOnce finish
      return (s, wrap result)).Runs t (s', returned)) :
    ∃ result, (s.runOnce finish).Runs t (s', result) ∧ returned = wrap result := by
  obtain ⟨t, _, ⟨s₁, result⟩, rfl, hrun, rfl, heq⟩ := runs_bind.mp h
  cases heq
  rw [List.append_nil]
  exact ⟨result, hrun, rfl⟩

theorem runOnce_returned {α : Type} {s s' : SpeechSynthesizer}
    {finish : Outcome (List TtsChunk) → Prog ApiCommand ApiReply (Outcome α)}
    {wrap : Outcome α → Returned} {t : ApiTrace} {returned : Returned}
    (hfinish : ∀ synthesis, (finish synthesis).Issues NotSynthesizer)
    (hwrap : ∀ e, (wrap (.fail e)).error = some e)
    (h : (do
      let (s, result) ← s.runOnce finish
      return (s, wrap result)).Runs t (s', returned)) : CallRun s s' t returned := by
  obtain ⟨result, hrun, rfl⟩ := runOnce_wrapped h
  rcases runOnce_runs hrun with ⟨hcalled, rfl, rfl, rfl⟩ |
    ⟨hcalled, rfl, t₁, t₂, synthesis, rfl, hpipeline, hfin⟩
  · exact Or.inl ⟨hcalled, rfl, rfl, hwrap calledTwiceError⟩
  · exact Or.inr ⟨hcalled, rfl, t₁, t₂, synthesis, rfl, hpipeline,
      (hfinish synthesis).of_runs hfin⟩

/-- **What a call does that uses an object up.** -/
theorem consuming_call_runs {s s' : SpeechSynthesizer} {c : Call} {t : ApiTrace}
    {returned : Returned} (consumes : c.Consumes) (h : (s.call c).Runs t (s', returned)) :
    CallRun s s' t returned := by
  cases c with
  | synthesize =>
      refine runOnce_returned ?_ (fun _ => rfl) h
      intro synthesis
      trivial
  | save mediaPath subtitlesPath =>
      exact runOnce_returned (saveFiles_issues mediaPath subtitlesPath) (fun _ => rfl) h
  | synthesizeStream callbacks =>
      exact runOnce_returned (stream_issues callbacks) (fun _ => rfl) h
  | cancel => exact absurd consumes id

theorem cancel_runs {s s' : SpeechSynthesizer} {t : ApiTrace} {returned : Returned}
    (h : (s.call .cancel).Runs t (s', returned)) : s' = s ∧ t = [⟨.cancel, ()⟩] := by
  obtain ⟨_, _, rfl, rfl, heq⟩ := h
  cases heq
  exact ⟨rfl, rfl⟩

theorem Call.consumes_iff {c : Call} : c.Consumes ↔ c ≠ .cancel := by
  cases c <;> simp [Call.Consumes]

/-! ## Histories -/

/-- Once the object has been used, nothing happens but further cancellations. -/
theorem Used.after_called {s s' : SpeechSynthesizer} {records : List CallRecord}
    (used : Used s records s') (hcalled : s.called = true) :
    (∀ r ∈ records, r.call.Consumes → r.trace = [] ∧ r.returned.error = some calledTwiceError) ∧
      ∀ ev ∈ history records, ev = ⟨.cancel, ()⟩ := by
  induction used with
  | nil => simp [history]
  | @cons s₁ s₂ s₃ c t returned records run rest ih =>
      by_cases hc : c = .cancel
      · subst hc
        obtain ⟨rfl, rfl⟩ := cancel_runs run
        obtain ⟨hrecords, hevents⟩ := ih hcalled
        refine ⟨List.forall_mem_cons.mpr ⟨fun h => absurd h id, hrecords⟩, ?_⟩
        exact List.forall_mem_cons.mpr ⟨rfl, hevents⟩
      · rcases consuming_call_runs (Call.consumes_iff.mpr hc) run with
          ⟨-, rfl, rfl, herror⟩ | ⟨hfresh, -⟩
        · obtain ⟨hrecords, hevents⟩ := ih hcalled
          exact ⟨List.forall_mem_cons.mpr ⟨fun _ => ⟨rfl, herror⟩, hrecords⟩, hevents⟩
        · rw [hcalled] at hfresh
          cases hfresh

/-- A call that uses the object up leaves it so. -/
theorem Used.called_iff {s s' : SpeechSynthesizer} {records : List CallRecord}
    (used : Used s records s') :
    s'.called = true ↔ s.called = true ∨ ∃ r ∈ records, r.call.Consumes := by
  induction used with
  | nil => simp
  | @cons s₁ s₂ s₃ c t returned records run rest ih =>
      by_cases hc : c = .cancel
      · subst hc
        obtain ⟨rfl, rfl⟩ := cancel_runs run
        simp [ih, Call.Consumes]
      · have consumes := Call.consumes_iff.mpr hc
        have hcalled : s₂.called = true := by
          rcases consuming_call_runs consumes run with ⟨hcalled, rfl, -⟩ | ⟨-, rfl, -⟩
          · exact hcalled
          · rfl
        simp [ih, hcalled, consumes]

theorem Used.append {s s' : SpeechSynthesizer} {records records' : List CallRecord}
    (used : Used s (records ++ records') s') :
    ∃ s₁, Used s records s₁ ∧ Used s₁ records' s' := by
  induction records generalizing s with
  | nil => exact ⟨s, .nil s, used⟩
  | cons r records ih =>
      obtain _ | ⟨run, rest⟩ := used
      obtain ⟨s₁, hfirst, hsecond⟩ := ih rest
      exact ⟨s₁, .cons run hfirst, hsecond⟩

/-! ## The injected synthesizer -/

/-- A check has just read that the token is not cancelled, and the synthesizer has not been
called before; it is called with what the pipeline has prepared. -/
def SynthesizerGuard (s : SpeechSynthesizer) (h : ApiTrace) (ev : Event ApiCommand ApiReply) :
    Prop :=
  ∀ config chunks, ev.1 = .synthesizer config chunks →
    (∃ a, h = a ++ [⟨.isCancelled, false⟩]) ∧ (∀ ev' ∈ h, NotSynthesizer ev'.1) ∧
      config = s.config ∧ s.Ready chunks

theorem allowed_of_notSynthesizer {s : SpeechSynthesizer} {t : ApiTrace}
    (ht : ∀ ev ∈ t, NotSynthesizer ev.1) (h : ApiTrace) : Allowed (SynthesizerGuard s) h t :=
  allowed_of_forall (fun ev hev _ config chunks heq => absurd heq (ht ev hev config chunks)) h

theorem PipelineRun.allowed {s : SpeechSynthesizer} {t h : ApiTrace}
    {r : Outcome (List TtsChunk)} (run : PipelineRun s t r)
    (hh : ∀ ev ∈ h, NotSynthesizer ev.1) : Allowed (SynthesizerGuard s) h t := by
  cases run with
  | called ready reply =>
      refine ⟨nofun, ?_, trivial⟩
      intro config chunks heq
      cases heq
      refine ⟨⟨h, rfl⟩, ?_, rfl, ready⟩
      intro ev hev
      rcases List.mem_append.mp hev with hev | hev
      · exact hh ev hev
      · rw [List.mem_singleton.mp hev]
        exact nofun
  | _ => exact ⟨nofun, trivial⟩

/-- **The synthesizer is called under its guard**, over every history of a fresh object. -/
theorem Used.allowed {s s' : SpeechSynthesizer} {records : List CallRecord}
    (used : Used s records s') (fresh : s.called = false) {h : ApiTrace}
    (hh : ∀ ev ∈ h, NotSynthesizer ev.1) : Allowed (SynthesizerGuard s) h (history records) := by
  induction used generalizing h with
  | nil => trivial
  | @cons s₁ s₂ s₃ c t returned records run rest ih =>
      show Allowed _ h (t ++ history records)
      rw [allowed_append]
      by_cases hc : c = .cancel
      · subst hc
        obtain ⟨rfl, rfl⟩ := cancel_runs run
        have hcancel : ∀ ev ∈ ([⟨.cancel, ()⟩] : ApiTrace), NotSynthesizer ev.1 := by
          simp [NotSynthesizer]
        refine ⟨allowed_of_notSynthesizer hcancel h, ih fresh ?_⟩
        exact List.forall_mem_append.mpr ⟨hh, hcancel⟩
      · rcases consuming_call_runs (Call.consumes_iff.mpr hc) run with
          ⟨hcalled, -⟩ | ⟨-, rfl, t₁, t₂, synthesis, rfl, hpipeline, hafter⟩
        · rw [fresh] at hcalled
          cases hcalled
        · -- from here on there are only cancellations
          have hrest := (rest.after_called rfl).2
          refine ⟨allowed_append.mpr ⟨hpipeline.allowed hh, allowed_of_notSynthesizer hafter _⟩, ?_⟩
          refine allowed_of_notSynthesizer (fun ev hev => ?_) _
          rw [hrest ev hev]
          exact nofun

/-- **A `SpeechSynthesizer` is single-use.**  Over any sequence of calls on a fresh object the
injected synthesizer is called at most once, right after a check that reads that the token is
not cancelled, with the configuration and the chunks that the pipeline has accepted.  Every
call after the first that uses the object up returns `invalid_state` and does nothing. -/
theorem single_use {s s' : SpeechSynthesizer} {records : List CallRecord}
    (fresh : s.called = false) (used : Used s records s') (law : TokenLaw (history records)) :
    (∀ before config chunks reply after,
      history records = before ++ ⟨.synthesizer config chunks, reply⟩ :: after →
      (∀ ev ∈ before ++ after, NotSynthesizer ev.1) ∧
      (∃ a, before = a ++ [⟨.isCancelled, false⟩]) ∧ ⟨.cancel, ()⟩ ∉ before ∧
      config = s.config ∧ s.Ready chunks) ∧
    ∀ before r after, records = before ++ r :: after → r.call.Consumes →
      (∃ r' ∈ before, r'.call.Consumes) →
      r.trace = [] ∧ r.returned.error = some calledTwiceError := by
  constructor
  · intro before config chunks reply after heq
    have hallowed := used.allowed fresh (h := []) nofun
    rw [heq] at hallowed law
    obtain ⟨⟨a, hcheck⟩, hbefore, hconfig, ready⟩ := hallowed.before config chunks rfl
    rw [List.nil_append] at hcheck hbefore
    refine ⟨List.forall_mem_append.mpr ⟨hbefore, ?_⟩, ⟨a, hcheck⟩, ?_, hconfig, ready⟩
    · -- a second call would have to come before the first
      intro ev hev config' chunks' hsyn
      obtain ⟨b, c, rfl⟩ := List.append_of_mem hev
      have hsplit : before ++ ⟨.synthesizer config chunks, reply⟩ :: (b ++ ev :: c) =
          (before ++ ⟨.synthesizer config chunks, reply⟩ :: b) ++ ev :: c := by simp
      rw [hsplit] at hallowed
      exact (hallowed.before config' chunks' hsyn).2.1 ⟨.synthesizer config chunks, reply⟩
        (by simp) config chunks rfl
    · intro hcancel
      rw [hcheck, List.mem_append, List.mem_singleton] at hcancel
      rcases hcancel with hcancel | hcancel
      · rw [hcheck] at law
        have hpair := (List.pairwise_append.mp (List.pairwise_append.mp law).1).2.2
        exact hpair _ hcancel ⟨.isCancelled, false⟩ (by simp) (Or.inl rfl) rfl
      · cases hcancel
  · rintro before r after rfl consumes hearlier
    obtain ⟨s₁, hbefore, hrest⟩ := used.append
    exact (hrest.after_called (hbefore.called_iff.mpr (Or.inr hearlier))).1 r (by simp) consumes

/-- A synthesis, a cancellation and a save. -/
theorem single_use_sample :
    let s : SpeechSynthesizer := { text := lit "Hi", config := {} }
    let records : List CallRecord := [
      ⟨.synthesize, [⟨.isCancelled, false⟩, ⟨.synthesizer {} [lit "Hi"], .ok []⟩],
        .chunks (.ok [])⟩,
      ⟨.cancel, [⟨.cancel, ()⟩], .done (.ok ())⟩,
      ⟨.save (lit "a.mp3") none, [], .done (.fail calledTwiceError)⟩]
    Used s records { s with called := true } ∧ s.Ready [lit "Hi"] ∧
      ∀ r ∈ records.drop 2, r.trace = [] ∧ r.returned.error = some calledTwiceError := by
  intro s records
  have ready : s.Ready [lit "Hi"] := ⟨rfl, by decide, by decide +kernel, by decide⟩
  have synthesized : (s.call .synthesize).Runs
      [⟨.isCancelled, false⟩, ⟨.synthesizer {} [lit "Hi"], .ok []⟩]
      ({ s with called := true }, .chunks (.ok [])) := by
    have hpipeline := runPipeline_of_ready ready (.ok [])
    refine runs_bind.mpr ⟨_, [], ({ s with called := true }, .ok []), (List.append_nil _).symm, ?_,
      rfl, rfl⟩
    exact runs_bind.mpr ⟨_, [], .ok [], (List.append_nil _).symm, hpipeline, rfl, rfl⟩
  have used : Used s records { s with called := true } := by
    refine .cons synthesized (.cons ⟨(), [], rfl, rfl, rfl⟩ (.cons ?_ (.nil _)))
    exact ⟨rfl, rfl⟩
  have law : TokenLaw (history records) := by
    simp [TokenLaw, history, records]
  obtain ⟨-, repeated⟩ := single_use rfl used law
  refine ⟨used, ready, ?_⟩
  intro r hr
  obtain rfl := List.mem_singleton.mp hr
  exact repeated (records.take 2) _ [] rfl trivial ⟨_, .head _, trivial⟩

end EdgeTts
