import EdgeTts.Api.SingleUse

/-!
# Which chunks `synthesize_stream` delivers

The loop visits the first `k` chunks, each after a check of the token, and ends with one
more check (`deliverAll_runs`).  Whoever cancels, and when, decides `k` and nothing else, so
what the data callbacks have seen is a prefix of the synthesis.
-/
namespace EdgeTts

open Interaction (Prog Event)
open Interaction.Prog (runs_bind runs_perform_if)

/-- The callback with which a chunk is delivered. -/
def dataCallback : TtsChunk → Event ApiCommand ApiReply
  | .audio ac => ⟨.onAudio ac.data, ()⟩
  | .boundary bc => ⟨.onBoundary bc, ()⟩

/-- The callback for the chunk is set. -/
def StreamCallbacks.takes (callbacks : StreamCallbacks) : TtsChunk → Bool
  | .audio _ => callbacks.onAudio
  | .boundary _ => callbacks.onBoundary

/-- A call of `on_audio` or of `on_boundary`. -/
def isData (ev : Event ApiCommand ApiReply) : Bool :=
  match ev.1 with
  | .onAudio _ => true
  | .onBoundary _ => true
  | _ => false

/-- The data callbacks of a trace, in order. -/
def delivered (t : ApiTrace) : ApiTrace := t.filter isData

/-- The token is cancelled during the `i`-th data callback: a check reads `true` exactly if
it comes after that callback. -/
def CancelledIn (t : ApiTrace) (i : Nat) : Prop :=
  ∀ before cancelled after, t = before ++ ⟨.isCancelled, cancelled⟩ :: after →
    (cancelled = true ↔ i ≤ (delivered before).length)

@[simp] theorem delivered_nil : delivered [] = [] := rfl

theorem delivered_append (t t' : ApiTrace) : delivered (t ++ t') = delivered t ++ delivered t' :=
  List.filter_append ..

/-- What it takes: the checks before the callback read `false`, and those after it `true`. -/
theorem cancelledIn_callback {before after : ApiTrace} {ev : Event ApiCommand ApiReply}
    (hev : isData ev = true) (hbefore : ⟨.isCancelled, true⟩ ∉ before)
    (hafter : ⟨.isCancelled, false⟩ ∉ after) :
    CancelledIn (before ++ ev :: after) ((delivered before).length + 1) := by
  intro b cancelled a heq
  rcases List.append_eq_append_iff.mp heq with ⟨u, rfl, hu⟩ | ⟨u, rfl, hu⟩
  · cases u with
    | nil =>
        obtain ⟨rfl, -⟩ := List.cons.inj hu
        cases hev
    | cons x u =>
        -- the check comes after the callback
        obtain ⟨rfl, rfl⟩ := List.cons.inj hu
        have hone : delivered (ev :: u) = ev :: delivered u := List.filter_cons_of_pos hev
        rw [delivered_append, hone, List.length_append, List.length_cons]
        cases cancelled with
        | true => exact iff_of_true rfl (by omega)
        | false => exact absurd (by simp) hafter
  · cases u with
    | nil =>
        obtain ⟨rfl, -⟩ := List.cons.inj hu
        cases hev
    | cons x u =>
        -- the check comes before it
        obtain ⟨rfl, rfl⟩ := List.cons.inj hu
        rw [delivered_append, List.length_append]
        cases cancelled with
        | true => exact absurd (by simp) hbefore
        | false => exact iff_of_false (by simp) (by omega)

/-- A cancellation after `t` does not show in `t`. -/
theorem CancelledIn.of_append {t t' : ApiTrace} {i : Nat} (h : CancelledIn (t ++ t') i)
    (ht : delivered t = []) : CancelledIn t' i := by
  intro before cancelled after heq
  have := h (t ++ before) cancelled after (by rw [heq, List.append_assoc])
  rwa [delivered_append, ht, List.nil_append] at this

/-! ## The loop -/

section
variable {callbacks : StreamCallbacks}

/-- What happens to a chunk that is visited. -/
def visit (callbacks : StreamCallbacks) (chunk : TtsChunk) : ApiTrace :=
  ⟨.isCancelled, false⟩ :: if callbacks.takes chunk then [dataCallback chunk] else []

theorem deliver_visit {chunk : TtsChunk} {t : ApiTrace} {u : Unit}
    (h : (callbacks.deliver chunk).Runs t u) :
    ⟨.isCancelled, false⟩ :: t = visit callbacks chunk := by
  cases chunk with
  | audio ac =>
      rw [StreamCallbacks.deliver] at h
      rw [runs_perform_if h]
      rfl
  | boundary bc =>
      rw [StreamCallbacks.deliver] at h
      rw [runs_perform_if h]
      rfl

theorem reportError_quiet {e : Error} {t : ApiTrace} {u : Unit}
    (h : (callbacks.reportError e).Runs t u) : delivered t = [] := by
  rw [runs_perform_if h]
  split
  · rfl
  · rfl

theorem reportComplete_quiet {t : ApiTrace} {u : Unit} (h : callbacks.reportComplete.Runs t u) :
    delivered t = [] := by
  rw [runs_perform_if h]
  split
  · rfl
  · rfl

/-- What the loop does when a check reads `true`. -/
theorem cancelled_quiet {e : Error} {t : ApiTrace} {result : Outcome Unit}
    (h : (do
      callbacks.reportError e
      return .fail e : Prog ApiCommand ApiReply (Outcome Unit)).Runs t result) :
    delivered t = [] ∧ result = .fail e := by
  obtain ⟨t₁, t₂, _, rfl, hreport, rfl, rfl⟩ := runs_bind.mp h
  rw [delivered_append, reportError_quiet hreport]
  exact ⟨rfl, rfl⟩

/-- **A run of the loop**: the first `k` chunks are visited, then a check either ends it
early or comes after the last chunk. -/
theorem deliverAll_runs {chunks : List TtsChunk} {t : ApiTrace} {result : Outcome Unit}
    (h : (callbacks.deliverAll chunks).Runs t result) :
    ∃ k cancelled tail, k ≤ chunks.length ∧
      t = (chunks.take k).flatMap (visit callbacks) ++ ⟨.isCancelled, cancelled⟩ :: tail ∧
      delivered tail = [] ∧
      (cancelled = true ∧ result = .fail synthesisCancelledError ∨
        cancelled = false ∧ k = chunks.length ∧ result = .ok ()) := by
  induction chunks generalizing t with
  | nil =>
      obtain ⟨cancelled, t, rfl, h⟩ := h
      cases cancelled with
      | true =>
          obtain ⟨hquiet, rfl⟩ := cancelled_quiet h
          exact ⟨0, true, t, Nat.le_refl 0, rfl, hquiet, Or.inl ⟨rfl, rfl⟩⟩
      | false =>
          have h : (do
            callbacks.reportComplete
            return .ok () : Prog ApiCommand ApiReply (Outcome Unit)).Runs t result := h
          obtain ⟨t₁, t₂, _, rfl, hreport, rfl, rfl⟩ := runs_bind.mp h
          refine ⟨0, false, t₁ ++ [], Nat.le_refl 0, rfl, ?_, Or.inr ⟨rfl, rfl, rfl⟩⟩
          rw [delivered_append, reportComplete_quiet hreport]
          rfl
  | cons chunk chunks ih =>
      obtain ⟨cancelled, t, rfl, h⟩ := h
      cases cancelled with
      | true =>
          obtain ⟨hquiet, rfl⟩ := cancelled_quiet h
          exact ⟨0, true, t, Nat.zero_le _, rfl, hquiet, Or.inl ⟨rfl, rfl⟩⟩
      | false =>
          have h : (do
            callbacks.deliver chunk
            callbacks.deliverAll chunks).Runs t result := h
          obtain ⟨t₁, t₂, _, rfl, hdeliver, hrest⟩ := runs_bind.mp h
          obtain ⟨k, cancelled, tail, hk, rfl, hquiet, hend⟩ := ih hrest
          refine ⟨k + 1, cancelled, tail, Nat.succ_le_succ hk, ?_, hquiet,
            hend.imp_right fun ⟨hc, hlen, hr⟩ => ⟨hc, by rw [hlen]; rfl, hr⟩⟩
          rw [List.take_succ_cons, List.flatMap_cons, ← deliver_visit hdeliver]
          simp

theorem delivered_visits (chunks : List TtsChunk) :
    delivered (chunks.flatMap (visit callbacks)) =
      (chunks.filter callbacks.takes).map dataCallback := by
  induction chunks with
  | nil => rfl
  | cons chunk chunks ih =>
      rw [List.flatMap_cons, delivered_append, ih, List.filter_cons, visit]
      have hcheck : isData ⟨.isCancelled, false⟩ = false := rfl
      have hdata : isData (dataCallback chunk) = true := by cases chunk <;> rfl
      split
      · simp [delivered, hcheck, hdata]
      · simp [delivered, hcheck]

/-- What the loop has delivered, up to where it stops. -/
theorem delivered_deliverAll {k : Nat} {chunks : List TtsChunk} {cancelled : Bool}
    {tail : ApiTrace} (h : delivered tail = []) :
    delivered ((chunks.take k).flatMap (visit callbacks) ++ ⟨.isCancelled, cancelled⟩ :: tail) =
      ((chunks.take k).filter callbacks.takes).map dataCallback := by
  have hend : delivered (⟨.isCancelled, cancelled⟩ :: tail) = [] := h
  rw [delivered_append, hend, List.append_nil, delivered_visits]

/-- **A cancellation in the `i`-th data callback stops the loop right after it.** -/
theorem CancelledIn.visited {k i : Nat} {chunks : List TtsChunk} {cancelled : Bool}
    {tail : ApiTrace} (h : CancelledIn
      ((chunks.take k).flatMap (visit callbacks) ++ ⟨.isCancelled, cancelled⟩ :: tail) i)
    (hi : 1 ≤ i) (hcancelled : cancelled = true) :
    ((chunks.take k).filter callbacks.takes).length = i := by
  -- the check that ended the loop, and the one before it
  have hlast := (h _ cancelled tail rfl).mp hcancelled
  rw [delivered_visits, List.length_map] at hlast
  rcases List.eq_nil_or_concat (chunks.take k) with hnil | ⟨before, chunk, hconcat⟩
  · rw [hnil, List.filter_nil, List.length_nil] at hlast
    omega
  · rw [List.concat_eq_append] at hconcat
    rw [hconcat, List.flatMap_append, List.flatMap_singleton, List.append_assoc, visit,
      List.cons_append] at h
    have hprev := (h _ false _ rfl).not.mp (by simp)
    rw [delivered_visits, List.length_map] at hprev
    rw [hconcat, List.filter_append, List.length_append] at hlast ⊢
    have hone : ([chunk].filter callbacks.takes).length ≤ 1 := List.length_filter_le _ _
    omega

end

theorem PipelineRun.not_delivered {s : SpeechSynthesizer} {t : ApiTrace}
    {r : Outcome (List TtsChunk)} (run : PipelineRun s t r) : delivered t = [] := by
  cases run <;> rfl

/-- The reply of the synthesizer is the result of the pipeline. -/
theorem PipelineRun.eq_of_reply {s : SpeechSynthesizer} {t : ApiTrace}
    {r : Outcome (List TtsChunk)} (run : PipelineRun s t r) {config : TtsConfig}
    {textChunks : List Bytes} {reply : Outcome (List TtsChunk)}
    (h : ⟨.synthesizer config textChunks, reply⟩ ∈ t) : r = reply := by
  cases run with
  | called ready r =>
      rcases List.mem_cons.mp h with h | h
      · cases h
      · cases List.mem_singleton.mp h
        rfl
  | _ => cases List.mem_singleton.mp h

/-- **Streaming delivers a prefix**, each chunk once, in order, to the callback of its kind.
Without a cancellation that is everything, and a cancellation in the `i`-th data callback
leaves the first `i` of the chunks that have a callback. -/
theorem synthesizeStream_prefix {s s₁ : SpeechSynthesizer} {callbacks : StreamCallbacks}
    {t : ApiTrace} {result : Outcome Unit} {config : TtsConfig} {textChunks : List Bytes}
    {chunks : List TtsChunk} (fresh : s.called = false)
    (run : (s.synthesizeStream callbacks).Runs t (s₁, result))
    (reply : ⟨.synthesizer config textChunks, .ok chunks⟩ ∈ t) :
    (⟨.isCancelled, true⟩ ∉ t →
      delivered t = (chunks.filter callbacks.takes).map dataCallback ∧ result = .ok ()) ∧
    (∀ i, 1 ≤ i → i ≤ (chunks.filter callbacks.takes).length → CancelledIn t i →
      delivered t = ((chunks.filter callbacks.takes).take i).map dataCallback ∧
        result = .fail synthesisCancelledError) ∧
    (∃ k, delivered t = ((chunks.take k).filter callbacks.takes).map dataCallback ∧
      (k = chunks.length ∧ result = .ok () ∨ result = .fail synthesisCancelledError)) ∧
    (callbacks.onAudio = true → callbacks.onBoundary = true →
      chunks.filter callbacks.takes = chunks) := by
  rcases runOnce_runs run with ⟨htwice, -⟩ |
    ⟨-, -, t₁, t₂, synthesis, rfl, hpipeline, hstream⟩
  · rw [fresh] at htwice
    cases htwice
  have hsynthesis : synthesis = .ok chunks := by
    rcases List.mem_append.mp reply with h | h
    · exact hpipeline.eq_of_reply h
    · exact absurd rfl ((stream_issues callbacks synthesis).of_runs hstream _ h config textChunks)
  subst hsynthesis
  have hquiet := hpipeline.not_delivered
  obtain ⟨k, cancelled, tail, hk, rfl, htail, hend⟩ := deliverAll_runs hstream
  rw [delivered_append, hquiet, List.nil_append, delivered_deliverAll htail]
  refine ⟨fun hnever => ?_, fun i hi hle hin => ?_, ⟨k, rfl, ?_⟩, fun haudio hboundary => ?_⟩
  · rcases hend with ⟨rfl, -⟩ | ⟨-, rfl, rfl⟩
    · exact absurd (by simp) hnever
    · rw [List.take_length]
      exact ⟨rfl, rfl⟩
  · have hin := hin.of_append hquiet
    rcases hend with ⟨hc, rfl⟩ | ⟨hc, rfl, -⟩
    · have hvisited := hin.visited hi hc
      have hprefix := (List.take_prefix k chunks).filter callbacks.takes
      rw [List.prefix_iff_eq_take.mp hprefix, hvisited]
      exact ⟨rfl, rfl⟩
    · -- the check after the last chunk comes after the `i`-th callback
      have hlast := (hin _ cancelled tail rfl).mpr (by
        rwa [delivered_visits, List.length_map, List.take_length])
      rw [hc] at hlast
      cases hlast
  · rcases hend with ⟨-, rfl⟩ | ⟨-, rfl, rfl⟩
    · exact Or.inr rfl
    · exact Or.inl ⟨rfl, rfl⟩
  · refine List.filter_eq_self.mpr fun chunk _ => ?_
    cases chunk with
    | audio ac => exact haudio
    | boundary bc => exact hboundary

/-- A cancellation in the first of two callbacks. -/
theorem synthesizeStream_prefix_cancelled :
    let s : SpeechSynthesizer := { text := lit "Hi", config := {} }
    let chunks : List TtsChunk := [.audio ⟨lit "mp3"⟩, .boundary { text := lit "Hi" }]
    let t : ApiTrace := [⟨.isCancelled, false⟩, ⟨.synthesizer {} [lit "Hi"], .ok chunks⟩,
      ⟨.isCancelled, false⟩, ⟨.onAudio (lit "mp3"), ()⟩, ⟨.isCancelled, true⟩,
      ⟨.onError synthesisCancelledError, ()⟩]
    (s.synthesizeStream {}).Runs t ({ s with called := true }, .fail synthesisCancelledError) ∧
      delivered t = [⟨.onAudio (lit "mp3"), ()⟩] := by
  intro s chunks t
  have ready : s.Ready [lit "Hi"] := ⟨rfl, by decide, by decide +kernel, by decide⟩
  have hpipeline := runPipeline_of_ready ready (.ok chunks)
  have hstream : (StreamCallbacks.stream {} (.ok chunks)).Runs (t.drop 2)
      (.fail synthesisCancelledError) :=
    ⟨false, _, rfl, (), _, rfl, true, _, rfl, (), _, rfl, rfl, rfl⟩
  have run : (s.synthesizeStream {}).Runs t
      ({ s with called := true }, .fail synthesisCancelledError) :=
    runs_bind.mpr ⟨_, t.drop 2, .ok chunks, rfl, hpipeline,
      runs_bind.mpr ⟨_, [], _, (List.append_nil _).symm, hstream, rfl, rfl⟩⟩
  have hin : CancelledIn t 1 := by
    show CancelledIn (t.take 3 ++ ⟨.onAudio (lit "mp3"), ()⟩ :: t.drop 4)
      ((delivered (t.take 3)).length + 1)
    apply cancelledIn_callback
    · rfl
    · simp [t]
    · simp [t]
  have reply : ⟨.synthesizer {} [lit "Hi"], .ok chunks⟩ ∈ t := by simp [t]
  obtain ⟨-, hcancelled, -⟩ := synthesizeStream_prefix rfl run reply
  exact ⟨run, (hcancelled 1 (Nat.le_refl 1) (by decide) hin).1⟩

end EdgeTts
