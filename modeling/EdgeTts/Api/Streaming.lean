import EdgeTts.Api.SingleUse

/-!
# Terminal callbacks of `synthesize_stream`

Every exit after the guard reports its outcome as the last thing it does
(`deliverAll_concluded`).  The guard itself returns without a callback, so a streaming call
is concluded exactly when the object had not been used before (`synthesizeStream_concluded_iff`).
-/
namespace EdgeTts

open Interaction (Prog Event)
open Interaction.Prog (runs_bind runs_perform_if)

/-- The call of `on_complete` or of `on_error`. -/
def Terminal (ev : Event ApiCommand ApiReply) : Prop :=
  ev = ⟨.onComplete, ()⟩ ∨ ∃ e, ev = ⟨.onError e, ()⟩

/-- **The callback contract**: one terminal callback, which is the last thing that happens,
with the outcome that is returned. -/
structure Concluded (t : ApiTrace) (result : Outcome Unit) : Prop where
  last : ∃ before ev, t = before ++ [ev] ∧ Terminal ev ∧ ∀ ev' ∈ before, ¬ Terminal ev'
  complete : ⟨.onComplete, ()⟩ ∈ t ↔ result = .ok ()
  error : ∀ e, ⟨.onError e, ()⟩ ∈ t → result = .fail e

theorem Concluded.prepend {t t' : ApiTrace} {result : Outcome Unit} (h : Concluded t' result)
    (ht : ∀ ev ∈ t, ¬ Terminal ev) : Concluded (t ++ t') result := by
  obtain ⟨before, ev, rfl, hev, hbefore⟩ := h.last
  refine ⟨⟨t ++ before, ev, by simp, hev, List.forall_mem_append.mpr ⟨ht, hbefore⟩⟩, ?_, ?_⟩
  · rw [List.mem_append, ← h.complete]
    exact or_iff_right fun hmem => ht _ hmem (Or.inl rfl)
  · intro e hmem
    rcases List.mem_append.mp hmem with hmem | hmem
    · exact absurd (Or.inr ⟨e, rfl⟩) (ht _ hmem)
    · exact h.error e hmem

theorem concluded_complete : Concluded [⟨.onComplete, ()⟩] (.ok ()) :=
  ⟨⟨[], _, rfl, Or.inl rfl, nofun⟩, by simp, fun e he => by simp at he⟩

theorem concluded_error (e : Error) : Concluded [⟨.onError e, ()⟩] (.fail e) :=
  ⟨⟨[], _, rfl, Or.inr ⟨e, rfl⟩, nofun⟩, by simp, fun e' he' => by simp_all⟩

section
variable {callbacks : StreamCallbacks} (onComplete : callbacks.onComplete = true)
  (onError : callbacks.onError = true)

/-- A callback for data, or none. -/
theorem deliver_runs {chunk : TtsChunk} {t : ApiTrace} {u : Unit}
    (h : (callbacks.deliver chunk).Runs t u) : ∀ ev ∈ t, ¬ Terminal ev := by
  cases chunk with
  | audio ac =>
      rw [StreamCallbacks.deliver] at h
      rw [runs_perform_if h]
      split
      · simp [Terminal]
      · simp
  | boundary bc =>
      rw [StreamCallbacks.deliver] at h
      rw [runs_perform_if h]
      split
      · simp [Terminal]
      · simp

include onError in
theorem reportError_concluded {e : Error} {t : ApiTrace} {result : Outcome Unit}
    (h : (do
      callbacks.reportError e
      return .fail e : Prog ApiCommand ApiReply (Outcome Unit)).Runs t result) :
    Concluded t result := by
  rw [StreamCallbacks.reportError, if_pos onError] at h
  obtain ⟨_, _, rfl, rfl, rfl⟩ := h
  exact concluded_error e

include onComplete onError in
/-- **The delivery of the chunks is concluded**, wherever it is cancelled. -/
theorem deliverAll_concluded {chunks : List TtsChunk} {t : ApiTrace} {result : Outcome Unit}
    (h : (callbacks.deliverAll chunks).Runs t result) : Concluded t result := by
  have hcheck : ∀ cancelled, ∀ ev ∈ ([⟨.isCancelled, cancelled⟩] : ApiTrace), ¬ Terminal ev := by
    simp [Terminal]
  induction chunks generalizing t with
  | nil =>
      obtain ⟨cancelled, t, rfl, h⟩ := h
      refine Concluded.prepend ?_ (hcheck cancelled)
      cases cancelled with
      | true => exact reportError_concluded onError h
      | false =>
          simp only [StreamCallbacks.reportComplete, if_pos onComplete] at h
          obtain ⟨_, _, rfl, rfl, rfl⟩ := h
          exact concluded_complete
  | cons chunk chunks ih =>
      obtain ⟨cancelled, t, rfl, h⟩ := h
      refine Concluded.prepend ?_ (hcheck cancelled)
      cases cancelled with
      | true => exact reportError_concluded onError h
      | false =>
          have h : (do
            callbacks.deliver chunk
            callbacks.deliverAll chunks).Runs t result := h
          obtain ⟨t₁, t₂, _, rfl, hdeliver, hrest⟩ := runs_bind.mp h
          exact (ih hrest).prepend (deliver_runs hdeliver)

end

theorem PipelineRun.not_terminal {s : SpeechSynthesizer} {t : ApiTrace}
    {r : Outcome (List TtsChunk)} (run : PipelineRun s t r) : ∀ ev ∈ t, ¬ Terminal ev := by
  cases run <;> simp [Terminal]

/-- **When a streaming call is concluded by its terminal callback**: whatever was cancelled
and whatever the synthesizer returned, exactly if no call before it has used the object up. -/
theorem synthesizeStream_concluded_iff {s s₁ s₂ : SpeechSynthesizer} {records : List CallRecord}
    {callbacks : StreamCallbacks} {t : ApiTrace} {result : Outcome Unit}
    (fresh : s.called = false) (used : Used s records s₁)
    (run : (s₁.synthesizeStream callbacks).Runs t (s₂, result))
    (onComplete : callbacks.onComplete = true) (onError : callbacks.onError = true)
    (returned : ∀ config chunks x, ⟨.synthesizer config chunks, .escape x⟩ ∉ t) :
    Concluded t result ↔ ∀ r ∈ records, ¬ r.call.Consumes := by
  have hcalled : s₁.called = true ↔ ∃ r ∈ records, r.call.Consumes := by
    simpa [fresh] using used.called_iff
  have hcond : (∀ r ∈ records, ¬ r.call.Consumes) ↔ s₁.called = false := by
    rw [← Bool.not_eq_true, hcalled]
    simp
  rw [hcond]
  rcases runOnce_runs run with ⟨htwice, -, rfl, rfl⟩ |
    ⟨honce, -, t₁, t₂, synthesis, rfl, hpipeline, hstream⟩
  · refine iff_of_false ?_ (by simp [htwice])
    intro h
    obtain ⟨before, ev, heq, -⟩ := h.last
    simp at heq
  · refine iff_of_true (Concluded.prepend ?_ hpipeline.not_terminal) honce
    cases synthesis with
    | ok chunks => exact deliverAll_concluded onComplete onError hstream
    | fail e => exact reportError_concluded onError hstream
    | escape x =>
        cases hpipeline with
        | @called chunks ready => exact absurd (by simp) (returned s₁.config chunks x)

/-- A call on an object that has only been cancelled. -/
theorem synthesizeStream_concluded_cancelled :
    Concluded [⟨.isCancelled, true⟩, ⟨.onError synthesisCancelledError, ()⟩]
      (.fail synthesisCancelledError) := by
  let s : SpeechSynthesizer := { text := lit "Hi", config := {} }
  have used : Used s [⟨.cancel, [⟨.cancel, ()⟩], .done (.ok ())⟩] s :=
    .cons ⟨(), [], rfl, rfl, rfl⟩ (.nil s)
  have run : (s.synthesizeStream {}).Runs
      [⟨.isCancelled, true⟩, ⟨.onError synthesisCancelledError, ()⟩]
      ({ s with called := true }, .fail synthesisCancelledError) :=
    ⟨true, _, rfl, (), [], rfl, rfl, rfl⟩
  refine (synthesizeStream_concluded_iff rfl used run rfl rfl (by simp)).mpr ?_
  intro r hr
  rw [List.mem_singleton.mp hr]
  exact id

/-- A second call returns an error that no callback has reported. -/
theorem synthesizeStream_not_concluded :
    let s : SpeechSynthesizer := { text := lit "Hi", config := {} }
    ∃ t s₁, Used s [⟨.synthesize, t, .chunks (.fail synthesisCancelledError)⟩] s₁ ∧
      (s₁.synthesizeStream {}).Runs [] (s₁, .fail calledTwiceError) ∧
      ¬ Concluded [] (.fail calledTwiceError) := by
  intro s
  refine ⟨[⟨.isCancelled, true⟩], { s with called := true }, ?_, ⟨rfl, rfl⟩, ?_⟩
  · exact .cons ⟨true, [], rfl, rfl, rfl⟩ (.nil _)
  · intro h
    obtain ⟨before, ev, heq, -⟩ := h.last
    simp at heq

end EdgeTts
