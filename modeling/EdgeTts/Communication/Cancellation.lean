import EdgeTts.Communication.SessionProtocol

/-!
# Cancellation of a session

The token may be cancelled between any two events of a run, so a run in which it is
cancelled at some instant is a run cut in two, `before ++ after`, where no check in
`after` reads `false`.  A call that is under way at that instant belongs to `before`.

A check and the call that it guards are two events.  A `receive`, or the first attempt
for a chunk, whose check has already read `false` still starts when the token is
cancelled between the two (`cancellation_race`).  `cancellation` says that nothing else
does but a retry of the current chunk.
-/
namespace EdgeTts

open Interaction (Event Allowed allowed_append allowed_of_forall)

/-- A check has just read that the session is not cancelled. -/
def JustChecked (h : SessionTrace) : Prop := ∃ a, h = a ++ [⟨.isCancelled, false⟩]

/-- The connection has just been refused with `drm_error`, and perhaps the skew
corrected. -/
def JustRefused (h : SessionTrace) : Prop :=
  ∃ a url e s, h = a ++ ⟨.connect url, .error e⟩ :: s ∧ e.code = .drmError ∧
    ∀ ev ∈ s, ev.1 = .now

/-- A message is received right after a check, and an attempt begins right after a
check or a refusal. -/
def Guard (h : SessionTrace) (ev : Event Command Reply) : Prop :=
  match ev.1 with
  | .receive => JustChecked h
  | .createForRequest => JustChecked h ∨ JustRefused h
  | _ => True

theorem justChecked_append (h : SessionTrace) : JustChecked (h ++ [⟨.isCancelled, false⟩]) :=
  ⟨h, rfl⟩

namespace SynthesisSession
variable {session : SynthesisSession}

theorem Listened.guarded {comp : Int64} {st : ChunkState} {t : SessionTrace}
    {r : Option (Outcome ChunkState)} (run : session.Listened comp st t r) (h : SessionTrace) :
    Allowed Guard h t := by
  induction run generalizing h with
  | turn _ _ delivered _ ih =>
      refine ⟨trivial, justChecked_append h, allowed_append.mpr ⟨?_, ih _⟩⟩
      refine allowed_of_forall (fun ev hev h => ?_) _
      obtain ⟨a, b, hadd⟩ := delivered.adds ev hev
      simp [Guard, hadd]
  | _ => simp [Guard, justChecked_append]

theorem ChunkRun.guarded {ttsConfig : TtsConfig} {text : Bytes} {metadata : ConnectionMetadata}
    {comp : Int64} {chunks : List TtsChunk} {t : SessionTrace}
    {r : Option (Outcome (Int64 × List TtsChunk))}
    (run : session.ChunkRun ttsConfig text metadata comp chunks t r) (h : SessionTrace) :
    Allowed Guard h t := by
  cases run with
  | listened _ _ loop => exact ⟨trivial, trivial, trivial, trivial, loop.guarded _⟩
  | _ => simp [Guard]

theorem Closing.guarded {provider : EdgeTokenProvider}
    {r₁ : Option (Outcome (Int64 × List TtsChunk))} {t : SessionTrace}
    {r : Option (Outcome (Int64 × List TtsChunk × EdgeTokenProvider))}
    (run : Closing provider r₁ t r) (h : SessionTrace) : Allowed Guard h t := by
  cases run <;> simp [Guard]

theorem Attempted.guarded {ttsConfig : TtsConfig} {text : Bytes} {comp : Int64}
    {chunks : List TtsChunk} {provider : EdgeTokenProvider} {attempt : Int} {t : SessionTrace}
    {r : Option (Outcome (Int64 × List TtsChunk × EdgeTokenProvider))}
    (run : session.Attempted ttsConfig text comp chunks provider attempt t r) {h : SessionTrace}
    (hstart : JustChecked h ∨ JustRefused h) : Allowed Guard h t := by
  induction run generalizing h with
  | refused given last => simpa [Guard] using hstart
  | @retried provider _ metadata now token e _ _ _ _ given again corrected rest ih =>
      have hnow := (correctSkew_runs corrected).1
      refine ⟨hstart, trivial, trivial, allowed_append.mpr ⟨?_, ih (Or.inr ?_)⟩⟩
      · refine allowed_of_forall (fun ev hev h => ?_) _
        simp [Guard, hnow ev hev]
      · simp only [RetryPolicy.shouldRetry, Bool.and_eq_true, beq_iff_eq] at again
        exact ⟨h ++ [⟨.createForRequest, metadata⟩, ⟨.now, now⟩],
          session.url provider metadata token, e, _, by simp, again.1, hnow⟩
  | connected given run closing =>
      exact ⟨hstart, trivial, trivial, allowed_append.mpr ⟨run.guarded _, closing.guarded _⟩⟩

/-- **Every message is received, and every attempt begun, right after its check.** -/
theorem SessionRun.guarded {ttsConfig : TtsConfig} {texts : List Bytes} {cumulative : Int64}
    {chunks : List TtsChunk} {provider : EdgeTokenProvider} {t : SessionTrace}
    {r : Option (Outcome (List TtsChunk))}
    (run : session.SessionRun ttsConfig texts cumulative chunks provider t r) (h : SessionTrace) :
    Allowed Guard h t := by
  induction run generalizing h with
  | done => trivial
  | cancelled => exact ⟨trivial, trivial⟩
  | running chunk => exact ⟨trivial, chunk.guarded (Or.inl (justChecked_append h))⟩
  | failed chunk => exact ⟨trivial, chunk.guarded (Or.inl (justChecked_append h))⟩
  | escaped chunk => exact ⟨trivial, chunk.guarded (Or.inl (justChecked_append h))⟩
  | next chunk sum rest ih =>
      exact ⟨trivial, allowed_append.mpr
        ⟨chunk.guarded (Or.inl (justChecked_append h)), trivial, ih _⟩⟩

/-! ## A check that reads `true` ends the session -/

theorem Listened.cancelled_of_mem {comp : Int64} {st : ChunkState} {t : SessionTrace}
    {r : Option (Outcome ChunkState)} (run : session.Listened comp st t r)
    (h : ⟨.isCancelled, true⟩ ∈ t) : r = some (.fail cancelledError) := by
  induction run with
  | turn _ _ delivered _ ih =>
      refine ih ?_
      simp only [List.mem_cons, Sigma.mk.injEq, heq_eq_eq, Bool.true_eq_false, and_false,
        reduceCtorEq, false_and, false_or, List.mem_append] at h
      refine h.resolve_left fun hmem => ?_
      obtain ⟨a, b, hadd⟩ := delivered.adds _ hmem
      cases hadd
  | _ => simp_all

theorem ChunkRun.cancelled_of_mem {ttsConfig : TtsConfig} {text : Bytes}
    {metadata : ConnectionMetadata} {comp : Int64} {chunks : List TtsChunk} {t : SessionTrace}
    {r : Option (Outcome (Int64 × List TtsChunk))}
    (run : session.ChunkRun ttsConfig text metadata comp chunks t r)
    (h : ⟨.isCancelled, true⟩ ∈ t) : r = some (.fail cancelledError) := by
  cases run with
  | listened _ _ loop =>
      rw [loop.cancelled_of_mem (by simpa using h)]
      rfl
  | _ => simp at h

theorem Attempted.cancelled_of_mem {ttsConfig : TtsConfig} {text : Bytes} {comp : Int64}
    {chunks : List TtsChunk} {provider : EdgeTokenProvider} {attempt : Int} {t : SessionTrace}
    {r : Option (Outcome (Int64 × List TtsChunk × EdgeTokenProvider))}
    (run : session.Attempted ttsConfig text comp chunks provider attempt t r)
    (h : ⟨.isCancelled, true⟩ ∈ t) : r = some (.fail cancelledError) := by
  induction run with
  | refused given last => simp at h
  | retried given again corrected rest ih =>
      have hnow := (correctSkew_runs corrected).1
      refine ih ((List.mem_append.mp (by simpa using h)).resolve_left fun hmem => ?_)
      cases hnow _ hmem
  | @connected _ _ _ _ _ _ r₁ _ _ given run closing =>
      have hmem := List.mem_append.mp (by simpa using h)
      have hrun : r₁ = some (.fail cancelledError) :=
        run.cancelled_of_mem (hmem.resolve_right fun hclose => by cases closing <;> simp at hclose)
      subst hrun
      cases closing
      rfl

theorem SessionRun.cancelled_of_mem {ttsConfig : TtsConfig} {texts : List Bytes}
    {cumulative : Int64} {chunks : List TtsChunk} {provider : EdgeTokenProvider}
    {t : SessionTrace} {r : Option (Outcome (List TtsChunk))}
    (run : session.SessionRun ttsConfig texts cumulative chunks provider t r)
    (h : ⟨.isCancelled, true⟩ ∈ t) : r = some (.fail cancelledError) := by
  induction run with
  | done => simp at h
  | cancelled => rfl
  | running chunk => cases chunk.cancelled_of_mem (by simpa using h)
  | failed chunk => cases chunk.cancelled_of_mem (by simpa using h); rfl
  | escaped chunk => cases chunk.cancelled_of_mem (by simpa using h)
  | next chunk sum rest ih =>
      rcases List.mem_append.mp (by simpa using h) with hmem | hmem
      · cases chunk.cancelled_of_mem hmem
      · exact ih (by simpa using hmem)

/-! ## The message that completes the session -/

variable (session) in
/-- The last message received is a turn end, received right after the last check. -/
def LastTurnEnd (t : SessionTrace) : Prop :=
  ∃ a message b, t = a ++ ⟨.isCancelled, false⟩ :: ⟨.receive, .ok message⟩ :: b ∧
    parseIncoming session.jsonParse message = .ok turnEndMessages ∧
    ∀ ev ∈ b, ev.1 ≠ .receive ∧ ev.1 ≠ .isCancelled

theorem LastTurnEnd.append {t t' : SessionTrace} (h : session.LastTurnEnd t)
    (t₁ t₂ : SessionTrace) (heq : t' = t₁ ++ (t ++ t₂))
    (ht₂ : ∀ ev ∈ t₂, ev.1 ≠ .receive ∧ ev.1 ≠ .isCancelled) :
    session.LastTurnEnd t' := by
  obtain ⟨a, message, b, rfl, hparsed, hb⟩ := h
  subst heq
  refine ⟨t₁ ++ a, message, b ++ t₂, by simp, hparsed, fun ev hev => ?_⟩
  exact (List.mem_append.mp hev).elim (hb ev) (ht₂ ev)

theorem Listened.lastTurnEnd {comp : Int64} {st st' : ChunkState} {t : SessionTrace}
    (run : session.Listened comp st t (some (.ok st'))) : session.LastTurnEnd t := by
  generalize hr : some (Outcome.ok st') = r at run
  induction run with
  | turnEnd parsed => exact ⟨[], _, [], rfl, parsed, by simp⟩
  | @turn _ message _ t₁ _ _ _ _ _ _ _ ih =>
      exact (ih hr).append (⟨.isCancelled, false⟩ :: ⟨.receive, .ok message⟩ :: t₁) [] (by simp)
        (by simp)
  | _ => cases hr

theorem ChunkRun.lastTurnEnd {ttsConfig : TtsConfig} {text : Bytes} {metadata : ConnectionMetadata}
    {comp : Int64} {chunks : List TtsChunk} {t : SessionTrace} {x : Int64 × List TtsChunk}
    (run : session.ChunkRun ttsConfig text metadata comp chunks t (some (.ok x))) :
    session.LastTurnEnd t := by
  generalize hr : some (Outcome.ok x) = r at run
  cases run with
  | @listened now frame now' frame' _ _ _ _ loop =>
      obtain ⟨st, rfl, -⟩ := map_checkAudio_eq_ok.mp hr.symm
      exact loop.lastTurnEnd.append [⟨.now, now⟩, ⟨.sendText frame, .ok ()⟩,
        ⟨.now, now'⟩, ⟨.sendText frame', .ok ()⟩] [] (by simp) (by simp)
  | _ => cases hr

theorem Attempted.lastTurnEnd {ttsConfig : TtsConfig} {text : Bytes} {comp : Int64}
    {chunks : List TtsChunk} {provider : EdgeTokenProvider} {attempt : Int} {t : SessionTrace}
    {x : Int64 × List TtsChunk × EdgeTokenProvider}
    (run : session.Attempted ttsConfig text comp chunks provider attempt t (some (.ok x))) :
    session.LastTurnEnd t := by
  generalize hr : some (Outcome.ok x) = r at run
  induction run with
  | refused => cases hr
  | @retried provider _ metadata now token e t₁ _ _ _ given again corrected rest ih =>
      exact (ih hr).append (⟨.createForRequest, metadata⟩ :: ⟨.now, now⟩ ::
        ⟨.connect (session.url provider metadata token), .error e⟩ :: t₁) [] (by simp) (by simp)
  | @connected provider _ metadata now token _ _ t₂ _ given run closing =>
      subst hr
      cases closing with
      | done chunkBoundaryEnd chunks closed =>
          exact run.lastTurnEnd.append [⟨.createForRequest, metadata⟩, ⟨.now, now⟩,
            ⟨.connect (session.url provider metadata token), .ok ()⟩] [⟨.close, closed⟩] (by simp)
            (by simp)

theorem SessionRun.lastTurnEnd {ttsConfig : TtsConfig} {texts : List Bytes} {cumulative : Int64}
    {chunks out : List TtsChunk} {provider : EdgeTokenProvider} {t : SessionTrace}
    (run : session.SessionRun ttsConfig texts cumulative chunks provider t (some (.ok out)))
    (hne : texts ≠ []) : session.LastTurnEnd t := by
  generalize hr : some (Outcome.ok out) = r at run
  induction run with
  | done => exact absurd rfl hne
  | @next _ texts cumulative _ _ t₁ chunkBoundaryEnd _ _ t₂ _ chunk sum rest ih =>
      -- the turn end of the last chunk is the one that counts
      by_cases htexts : texts = []
      · subst htexts
        cases rest
        exact chunk.lastTurnEnd.append [⟨.isCancelled, false⟩]
          [⟨.add cumulative chunkBoundaryEnd, sum⟩] (by simp) (by simp)
      · exact (ih htexts hr).append
          (⟨.isCancelled, false⟩ :: (t₁ ++ [⟨.add cumulative chunkBoundaryEnd, sum⟩])) []
          (by simp) (by simp)
  | _ => cases hr

/-! ## A session cut at the instant of the cancellation -/

/-- No check in `after` reads `false`, so no check can have been the last event before
an event of `after` but the first. -/
theorem justChecked_cut {before a after : SessionTrace}
    (stays : ∀ b, ⟨.isCancelled, b⟩ ∈ after → b = true) (hsub : a ⊆ after)
    (h : JustChecked (before ++ a)) : a = [] ∧ JustChecked before := by
  obtain ⟨x, hx⟩ := h
  rcases List.eq_nil_or_concat a with rfl | ⟨a', ev, rfl⟩
  · exact ⟨rfl, x, by simpa using hx⟩
  · rw [List.concat_eq_append, ← List.append_assoc] at hx
    obtain ⟨-, hev⟩ := List.append_inj' hx rfl
    cases stays false (hsub (by simp [List.singleton_inj.mp hev]))

/-- **Cancellation.**  Let the token be cancelled from the end of `before` on.  Then
after that instant

* the only message that may be received is one whose check has just read `false`;
* an attempt begins only if its check has just read `false` or its predecessor was
  refused, so no other chunk is started;
* the result is a value only if no check is made at all, and the turn end of the last
  chunk is received right after a check before the instant;
* an open connection is closed. -/
theorem cancellation {fuel : Nat} {ttsConfig : TtsConfig} {texts : List Bytes}
    {provider : EdgeTokenProvider} {before after : SessionTrace} {r : Outcome (List TtsChunk)}
    (run : (session.synthesize fuel ttsConfig texts provider).Runs (before ++ after) (some r))
    (hne : texts ≠ []) (calm : ¬ session.Thrown (before ++ after))
    (stays : ∀ b, ⟨.isCancelled, b⟩ ∈ after → b = true) :
    (∀ a received b, after = a ++ ⟨.receive, received⟩ :: b →
      a = [] ∧ JustChecked before ∧ ∀ ev ∈ b, ev.1 ≠ .receive) ∧
    (∀ a metadata b, after = a ++ ⟨.createForRequest, metadata⟩ :: b →
      (a = [] ∧ JustChecked before) ∨ JustRefused (before ++ a)) ∧
    (∀ out, r = .ok out → (∀ ev ∈ after, ev.1 ≠ .isCancelled) ∧
      ∃ a message b, before ++ after = a ++ ⟨.isCancelled, false⟩ :: ⟨.receive, .ok message⟩ :: b ∧
        parseIncoming session.jsonParse message = .ok turnEndMessages ∧
        (∀ ev ∈ b, ev.1 ≠ .receive) ∧ ∃ x, before = a ++ ⟨.isCancelled, false⟩ :: x) ∧
    (connection false before = some true → ∃ closed, ⟨.close, closed⟩ ∈ after) := by
  have hrun := synthesize_runs run
  -- every event of `after` is guarded by what comes before it, in `before` as well
  have hguard : ∀ a ev b, after = a ++ ev :: b → Guard (before ++ a) ev := by
    rintro a ev b rfl
    have hall := hrun.guarded []
    rw [← List.append_assoc] at hall
    exact hall.before
  have hreceive : ∀ a received b, after = a ++ ⟨.receive, received⟩ :: b →
      a = [] ∧ JustChecked before := by
    rintro a received b rfl
    exact justChecked_cut stays (List.subset_append_left _ _) (hguard a _ b rfl)
  refine ⟨?_, ?_, ?_, ?_⟩
  · rintro a received b rfl
    obtain ⟨rfl, hchecked⟩ := hreceive a received b rfl
    refine ⟨rfl, hchecked, ?_⟩
    rintro ⟨c, answer⟩ hev rfl
    obtain ⟨b₁, b₂, rfl⟩ := List.append_of_mem hev
    cases (hreceive (⟨.receive, received⟩ :: b₁) answer b₂ rfl).1
  · rintro a metadata b rfl
    exact (hguard a _ b rfl).imp_left (justChecked_cut stays (List.subset_append_left _ _))
  · rintro out rfl
    have hno : ∀ ev ∈ after, ev.1 ≠ .isCancelled := by
      rintro ⟨c, answer⟩ hev rfl
      have htrue := stays answer hev
      subst htrue
      cases hrun.cancelled_of_mem (List.mem_append_right _ hev)
    obtain ⟨a, message, b, heq, hparsed, hb⟩ := hrun.lastTurnEnd hne
    refine ⟨hno, a, message, b, heq, hparsed, fun ev hev => (hb ev hev).1, ?_⟩
    -- the check of the turn end reads `false`, so it is not in `after`
    rcases List.append_eq_append_iff.mp heq with ⟨y, rfl, hy⟩ | ⟨y, rfl, hy⟩
    · exact absurd rfl (hno ⟨.isCancelled, false⟩ (by simp [hy]))
    · cases y with
      | nil =>
          rw [List.nil_append] at hy
          exact absurd rfl (hno ⟨.isCancelled, false⟩ (hy ▸ .head _))
      | cons ev y =>
          rw [List.cons_append] at hy
          obtain ⟨rfl, -⟩ := List.cons.inj hy
          exact ⟨y, rfl⟩
  · intro hopen
    have hclosed := hrun.closed_iff.mpr calm
    rw [connection_append, hopen] at hclosed
    exact exists_close hclosed

/-- Every session that returned a value could have been cancelled between its last check
and its last message. -/
theorem SessionRun.cut {ttsConfig : TtsConfig} {texts : List Bytes} {cumulative : Int64}
    {chunks out : List TtsChunk} {provider : EdgeTokenProvider} {t : SessionTrace}
    (run : session.SessionRun ttsConfig texts cumulative chunks provider t (some (.ok out)))
    (hne : texts ≠ []) :
    ∃ before message rest, t = before ++ ⟨.receive, .ok message⟩ :: rest ∧
      (∀ b, ⟨.isCancelled, b⟩ ∈ before → b = false) ∧
      (∀ ev ∈ rest, ev.1 ≠ .isCancelled) ∧
      parseIncoming session.jsonParse message = .ok turnEndMessages ∧
      connection false before = some true := by
  obtain ⟨a, message, b, heq, hparsed, hb⟩ := run.lastTurnEnd hne
  have hcut : t = (a ++ [⟨.isCancelled, false⟩]) ++ ⟨.receive, .ok message⟩ :: b := by simp [heq]
  refine ⟨_, message, b, hcut, fun c hmem => ?_, fun ev hev => (hb ev hev).2, hparsed, ?_⟩
  · cases c with
    | false => rfl
    | true =>
        rw [hcut] at run
        cases run.cancelled_of_mem (List.mem_append_left _ hmem)
  · have hopen := run.connection_eq
    rw [hcut, connection_append] at hopen
    match h : connection false (a ++ [⟨.isCancelled, false⟩]) with
    | some true => exact h
    | some false =>
        rw [h] at hopen
        simp [connectionStep, isQuiet] at hopen
    | none =>
        rw [h] at hopen
        cases hopen

/-- **A check does not hold back the call that it guards**: after the check and the
cancellation, the last message may still be received, with a value as the result, and a
chunk may still be started. -/
theorem cancellation_race :
    (∃ before after out message,
      (sampleSession.synthesize 3 .defaults [lit "Hi"] sampleProvider).Runs (before ++ after)
        (some (.ok out)) ∧
      ¬ sampleSession.Thrown (before ++ after) ∧
      (∀ b, ⟨.isCancelled, b⟩ ∈ before → b = false) ∧
      (∀ b, ⟨.isCancelled, b⟩ ∈ after → b = true) ∧
      ⟨.receive, .ok message⟩ ∈ after ∧
      parseIncoming sampleSession.jsonParse message = .ok turnEndMessages) ∧
    ∃ after r metadata,
      (sampleSession.synthesize 3 .defaults [lit "Hi"] sampleProvider).Runs
        (⟨.isCancelled, false⟩ :: after) (some r) ∧
      ¬ sampleSession.Thrown (⟨.isCancelled, false⟩ :: after) ∧
      (∀ b, ⟨.isCancelled, b⟩ ∈ after → b = true) ∧ ⟨.createForRequest, metadata⟩ ∈ after := by
  constructor
  · obtain ⟨t, out, run, -⟩ := sample_run parse_word [lit "Hi"]
    have hrun := synthesize_runs run
    obtain ⟨before, message, rest, rfl, hbefore, hrest, hparsed, -⟩ := hrun.cut (by simp)
    refine ⟨before, _, out, message, run, hrun.calm, hbefore, fun b hmem => ?_, .head _, hparsed⟩
    exact absurd rfl (hrest ⟨.isCancelled, b⟩ (by simpa using hmem))
  · let metadata : ConnectionMetadata := ⟨lit "c0", lit "0f"⟩
    -- the attempt that the first check lets begin is refused, and no other check is made
    obtain ⟨url, run⟩ := @synthesize_refused sampleSession ⟨.networkError, [], []⟩ rfl 3
      .defaults (lit "Hi") [] metadata sampleProvider
    exact ⟨_, _, metadata, run, by simp [Thrown], by simp, .head _⟩

/-- In such a run the message is the only one after the cancellation, and the open
connection is closed. -/
theorem cancellation_sample : ∃ before message rest closed, JustChecked before ∧
    connection false before = some true ∧ (∀ ev ∈ rest, ev.1 ≠ .receive) ∧
    ⟨.close, closed⟩ ∈ (⟨.receive, .ok message⟩ :: rest : SessionTrace) := by
  obtain ⟨t, out, run, -⟩ := sample_run parse_word [lit "Hi"]
  have hrun := synthesize_runs run
  obtain ⟨before, message, rest, rfl, -, hrest, -, hopen⟩ := hrun.cut (by simp)
  obtain ⟨hreceive, -, -, hclose⟩ := cancellation run (by simp) hrun.calm fun b hmem =>
    absurd rfl (hrest ⟨.isCancelled, b⟩ (by simpa using hmem))
  obtain ⟨-, hchecked, hno⟩ := hreceive [] (.ok message) rest rfl
  obtain ⟨closed, hclosed⟩ := hclose hopen
  exact ⟨before, message, rest, closed, hchecked, hopen, hno, hclosed⟩

end SynthesisSession
end EdgeTts
