import EdgeTts.Communication.SessionProtocol
import EdgeTts.Communication.Conversations

/-!
# What a session assembles

`synthesize_assembles` computes the result of a session from its conversations
alone, with offsets as mathematical integers; `SessionRun.exact_iff` says for which
conversations no addition overflows.

A boundary of a conversation is raised by its **compensation**, the sum of the
subtitle ends of the conversations before it.
-/
namespace EdgeTts

open Interaction (Event)

/-! ## Boundaries and their compensation -/

/-- The end of a boundary, before compensation. -/
def BoundaryChunk.rawEnd (bc : BoundaryChunk) : Int := bc.offsetTicks.toInt + bc.durationTicks.toInt

/-- The greatest end of a boundary, and at least 0. -/
def subtitleEnd (chunks : List TtsChunk) : Int :=
  ((boundaries chunks).map BoundaryChunk.rawEnd).foldl max 0

/-- A chunk, with the offset of a boundary raised. -/
inductive Shifted (compensation : Int) : TtsChunk → TtsChunk → Prop
  | audio (chunk : AudioChunk) : Shifted compensation (.audio chunk) (.audio chunk)
  | boundary {bc : BoundaryChunk} {offset : Int64}
      (raised : offset.toInt = bc.offsetTicks.toInt + compensation) :
      Shifted compensation (.boundary bc) (.boundary { bc with offsetTicks := offset })

theorem Shifted.rightUnique (compensation : Int) :
    Relator.RightUnique (Shifted compensation) := by
  intro x y z hy hz
  cases hy with
  | audio chunk =>
      cases hz
      rfl
  | boundary raised =>
      cases hz with
      | boundary raised' => rw [Int64.toInt_inj.mp (raised.trans raised'.symm)]

/-! ## The additions of a run -/

/-- An addition whose result is the mathematical sum. -/
def ExactEvent : Event Command Reply → Prop
  | ⟨.add a b, sum⟩ => sum.val.toInt = a.toInt + b.toInt
  | _ => True

/-- No addition of the run overflows. -/
def Exact (t : SessionTrace) : Prop := ∀ ev ∈ t, ExactEvent ev

@[simp] theorem exact_nil : Exact [] := by simp [Exact]

@[simp] theorem exact_cons (ev : Event Command Reply) (t : SessionTrace) :
    Exact (ev :: t) ↔ ExactEvent ev ∧ Exact t := List.forall_mem_cons

@[simp] theorem exact_append (t₁ t₂ : SessionTrace) : Exact (t₁ ++ t₂) ↔ Exact t₁ ∧ Exact t₂ :=
  List.forall_mem_append

@[simp] theorem exactEvent_add {a b : Int64} (sum : Sum64 a b) :
    ExactEvent ⟨.add a b, sum⟩ ↔ Fits64 (a.toInt + b.toInt) := Sum64.exact_iff sum

/-- No boundary of `chunks` overflows, where `compensation` is added to its offset. -/
def InRange (compensation : Int) (chunks : List TtsChunk) : Prop :=
  ∀ bc ∈ boundaries chunks, Fits64 bc.rawEnd ∧ Fits64 (bc.offsetTicks.toInt + compensation)

@[simp] theorem inRange_nil (compensation : Int) : InRange compensation [] := by simp [InRange]

@[simp] theorem inRange_append (compensation : Int) (xs ys : List TtsChunk) :
    InRange compensation (xs ++ ys) ↔ InRange compensation xs ∧ InRange compensation ys := by
  simp only [InRange, boundaries_append, List.forall_mem_append]

theorem Delivered.exact_iff {comp : Int64} {st st' : ChunkState} {msgs : List IncomingMessage}
    {t : SessionTrace} (h : Delivered comp st msgs t st') :
    Exact t ↔ InRange comp.toInt (chunksOf msgs) := by
  induction h with
  | nil => simp [InRange]
  | ignored _ ih => simpa using ih
  | audio _ ih => simpa [InRange] using ih
  | boundary rawEnd offset _ ih =>
      simp [InRange, BoundaryChunk.rawEnd, ih, and_assoc]

/-- What the messages `chunks` make of the variables of `run_one_chunk`. -/
structure Collected (compensation : Int) (st : ChunkState) (chunks : List TtsChunk)
    (st' : ChunkState) : Prop where
  outChunks : ∃ new, st'.outChunks = st.outChunks ++ new ∧
    List.Forall₂ (Shifted compensation) chunks new
  boundaryEnd : st'.outBoundaryEndTicks.toInt =
    ((boundaries chunks).map BoundaryChunk.rawEnd).foldl max st.outBoundaryEndTicks.toInt

theorem Collected.nil {compensation : Int} {st : ChunkState} : Collected compensation st [] st :=
  ⟨⟨[], by simp⟩, rfl⟩

theorem Collected.append {compensation : Int} {st st₁ st₂ : ChunkState} {xs ys : List TtsChunk}
    (h₁ : Collected compensation st xs st₁) (h₂ : Collected compensation st₁ ys st₂) :
    Collected compensation st (xs ++ ys) st₂ := by
  obtain ⟨⟨new₁, heq₁, hnew₁⟩, hend₁⟩ := h₁
  obtain ⟨⟨new₂, heq₂, hnew₂⟩, hend₂⟩ := h₂
  refine ⟨⟨new₁ ++ new₂, by rw [heq₂, heq₁, List.append_assoc], List.rel_append hnew₁ hnew₂⟩, ?_⟩
  rw [hend₂, hend₁, boundaries_append, List.map_append, List.foldl_append]

theorem Collected.audio {compensation : Int} (st : ChunkState) (chunk : AudioChunk) :
    Collected compensation st [.audio chunk] (st.pushAudio (.audio chunk)) :=
  ⟨⟨_, rfl, .cons (.audio chunk) .nil⟩, rfl⟩

theorem Collected.boundary {compensation : Int} (st : ChunkState) {bc : BoundaryChunk}
    {rawEnd offset : Int64} (hend : rawEnd.toInt = bc.rawEnd)
    (hoffset : offset.toInt = bc.offsetTicks.toInt + compensation) :
    Collected compensation st [.boundary bc] (st.pushBoundary bc rawEnd offset) := by
  refine ⟨⟨_, rfl, .cons (.boundary hoffset) .nil⟩, ?_⟩
  -- the source keeps the greater end with an `if`, which is `max`
  have hlt : (rawEnd > st.outBoundaryEndTicks) ↔ st.outBoundaryEndTicks.toInt < rawEnd.toInt :=
    Int64.lt_iff_toInt_lt
  simp only [ChunkState.pushBoundary, boundaries_boundary, boundaries_nil, List.map_cons,
    List.map_nil, List.foldl_cons, List.foldl_nil, hlt, ← hend]
  split
  · rw [max_eq_right (by omega)]
  · rw [max_eq_left (by omega)]

theorem Delivered.collected {comp : Int64} {st st' : ChunkState} {msgs : List IncomingMessage}
    {t : SessionTrace} (h : Delivered comp st msgs t st') (exact : Exact t) :
    Collected comp.toInt st (chunksOf msgs) st' := by
  induction h with
  | nil => exact .nil
  | ignored _ ih => exact ih exact
  | audio _ ih => exact (Collected.audio _ _).append (ih exact)
  | boundary rawEnd offset _ ih =>
      rw [exact_cons, exact_cons] at exact
      obtain ⟨hend, hoffset, hrest⟩ := exact
      exact (Collected.boundary _ hend hoffset).append (ih hrest)

namespace SynthesisSession
variable {session : SynthesisSession}

/-! ## The receive loop -/

theorem Listened.exact_iff {comp : Int64} {st : ChunkState} {t : SessionTrace}
    {r : Option (Outcome ChunkState)} (run : session.Listened comp st t r) :
    Exact t ↔ InRange comp.toInt (session.contents (received t)) := by
  induction run with
  | turn parsed _ delivered _ ih =>
      simp [ExactEvent, received_cons_of_ne, delivered.exact_iff, delivered.received,
        accepted_eq parsed, ih]
  | rejected parsed => simp [ExactEvent, received_cons_of_ne, accepted, parsed]
  | escaped parsed => simp [ExactEvent, received_cons_of_ne, accepted, parsed]
  | turnEnd parsed => simp [ExactEvent, received_cons_of_ne, accepted, parsed, turnEndMessages]
  | _ => simp [ExactEvent, received_cons_of_ne]

theorem Listened.collected {comp : Int64} {st st' : ChunkState} {t : SessionTrace}
    (run : session.Listened comp st t (some (.ok st'))) (exact : Exact t) :
    Collected comp.toInt st (session.contents (received t)) st' := by
  generalize hr : some (Outcome.ok st') = r at run
  induction run with
  | turn parsed _ delivered _ ih =>
      simp only [exact_cons, exact_append] at exact
      simpa [received_cons_of_ne, delivered.received, accepted_eq parsed] using
        (delivered.collected exact.2.2.1).append (ih exact.2.2.2 hr)
  | turnEnd parsed =>
      cases hr
      simp [received_cons_of_ne, accepted_eq parsed, turnEndMessages, Collected.nil]
  | _ => cases hr

/-- The loop returns a value just where it has met a turn end. -/
theorem Listened.completed_iff {comp : Int64} {st : ChunkState} {t : SessionTrace}
    {r : Option (Outcome ChunkState)} (run : session.Listened comp st t r) :
    completed r = true ↔ ∃ message ∈ received t, session.accepted message = turnEndMessages := by
  induction run with
  | turn parsed notEnd delivered _ ih =>
      simpa [received_cons_of_ne, delivered.received, accepted_eq parsed, notEnd] using ih
  | rejected parsed => simp [received_cons_of_ne, accepted, parsed, turnEndMessages]
  | escaped parsed => simp [received_cons_of_ne, accepted, parsed, turnEndMessages]
  | turnEnd parsed => simp [received_cons_of_ne, accepted, parsed]
  | _ => simp [received_cons_of_ne]

theorem Listened.wholeTurn {comp : Int64} {st st' : ChunkState} {t : SessionTrace}
    (run : session.Listened comp st t (some (.ok st'))) : session.WholeTurn (received t) := by
  generalize hr : some (Outcome.ok st') = r at run
  induction run with
  | @turn _ message msgs _ _ _ _ parsed notEnd delivered _ ih =>
      obtain ⟨init, last, heq, hlast, hinit⟩ := ih hr
      refine ⟨message :: init, last, ?_, hlast,
        List.forall_mem_cons.mpr ⟨⟨msgs, parsed, notEnd⟩, hinit⟩⟩
      simp [received_cons_of_ne, delivered.received, heq]
  | @turnEnd _ message parsed => exact ⟨[], message, rfl, parsed, by simp⟩
  | _ => cases hr

/-! ## Chunks -/

theorem ChunkRun.exact_iff {ttsConfig : TtsConfig} {text : Bytes} {metadata : ConnectionMetadata}
    {comp : Int64} {chunks : List TtsChunk} {t : SessionTrace}
    {r : Option (Outcome (Int64 × List TtsChunk))}
    (run : session.ChunkRun ttsConfig text metadata comp chunks t r) :
    Exact t ↔ InRange comp.toInt (session.contents (received t)) := by
  cases run with
  | listened _ _ loop => simp [ExactEvent, received_cons_of_ne, loop.exact_iff]
  | _ => simp [ExactEvent, received_cons_of_ne]

/-- `run_one_chunk` returns a value just where the conversation completes the chunk. -/
theorem ChunkRun.completed_iff {ttsConfig : TtsConfig} {text : Bytes}
    {metadata : ConnectionMetadata} {comp : Int64} {chunks : List TtsChunk} {t : SessionTrace}
    {r : Option (Outcome (Int64 × List TtsChunk))}
    (run : session.ChunkRun ttsConfig text metadata comp chunks t r) :
    completed r = true ↔ session.Finished (received t) := by
  cases run with
  | listened _ _ loop =>
      simp only [Finished, received_cons_of_ne, ne_eq, reduceCtorEq, not_false_eq_true,
        ← loop.completed_iff, completed_eq_true, map_checkAudio_eq_ok]
      constructor
      · rintro ⟨_, st, rfl, haudio, -⟩
        have hany := loop.audioReceived
        rw [Bool.false_or] at hany
        exact ⟨⟨st, rfl⟩, hany ▸ haudio⟩
      · rintro ⟨⟨st, rfl⟩, hany⟩
        have haudio := loop.audioReceived
        rw [Bool.false_or] at haudio
        exact ⟨_, st, rfl, haudio.trans hany, rfl⟩
  | _ => simp [Finished, received_cons_of_ne]

theorem ChunkRun.collected {ttsConfig : TtsConfig} {text : Bytes} {metadata : ConnectionMetadata}
    {comp : Int64} {chunks chunks' : List TtsChunk} {t : SessionTrace} {chunkBoundaryEnd : Int64}
    (run : session.ChunkRun ttsConfig text metadata comp chunks t
      (some (.ok (chunkBoundaryEnd, chunks')))) (exact : Exact t) :
    (∃ new, chunks' = chunks ++ new ∧
      List.Forall₂ (Shifted comp.toInt) (session.contents (received t)) new) ∧
    chunkBoundaryEnd.toInt = subtitleEnd (session.contents (received t)) ∧
    session.WholeTurn (received t) := by
  generalize hr : some (Outcome.ok (chunkBoundaryEnd, chunks')) = r at run
  cases run with
  | listened _ _ loop =>
      obtain ⟨st, rfl, -, hst⟩ := map_checkAudio_eq_ok.mp hr.symm
      cases hst
      simp only [exact_cons] at exact
      have hcol := loop.collected exact.2.2.2.2
      simpa [received_cons_of_ne, subtitleEnd] using
        And.intro hcol.outChunks (And.intro hcol.boundaryEnd loop.wholeTurn)
  | _ => cases hr

/-! ## Attempts -/

/-- Not an addition, and no connection is opened. -/
def isIdle : Event Command Reply → Bool
  | ⟨.connect _, .ok _⟩ => false
  | ⟨.add _ _, _⟩ => false
  | _ => true

/-- The attempts of a chunk have failed, or the last one has opened a connection. -/
theorem Attempted.split {ttsConfig : TtsConfig} {text : Bytes} {comp : Int64}
    {chunks : List TtsChunk} {provider : EdgeTokenProvider} {attempt : Int} {t : SessionTrace}
    {r : Option (Outcome (Int64 × List TtsChunk × EdgeTokenProvider))}
    (run : session.Attempted ttsConfig text comp chunks provider attempt t r) :
    ((∃ e, r = some (.fail e)) ∧ ∀ ev ∈ t, isIdle ev = true) ∨
    ∃ pre url metadata t₁ r₁ provider' t₂, t = pre ++ ⟨.connect url, .ok ()⟩ :: (t₁ ++ t₂) ∧
      (∀ ev ∈ pre, isIdle ev = true) ∧
      session.ChunkRun ttsConfig text metadata comp chunks t₁ r₁ ∧ Closing provider' r₁ t₂ r := by
  induction run with
  | refused given last => exact .inl ⟨⟨_, rfl⟩, by simp [isIdle]⟩
  | @retried provider _ metadata now token e t₁ _ _ _ given again corrected rest ih =>
      -- a refused attempt opens nothing and adds nothing
      have hidle : ∀ ev ∈ (⟨.createForRequest, metadata⟩ :: ⟨.now, now⟩ ::
          ⟨.connect (session.url provider metadata token), .error e⟩ :: t₁ : SessionTrace),
          isIdle ev = true := by
        simp only [List.forall_mem_cons]
        refine ⟨rfl, rfl, rfl, ?_⟩
        rintro ⟨c, a⟩ hev
        obtain rfl : c = .now := (correctSkew_runs corrected).1 _ hev
        rfl
      rcases ih with ⟨hr, hrest⟩ | ⟨pre, url, metadata', t₁', r₁, provider', t₂, rfl, hpre, hrun⟩
      · refine .inl ⟨hr, ?_⟩
        simpa using List.forall_mem_append.mpr ⟨hidle, hrest⟩
      · exact .inr ⟨_, url, metadata', t₁', r₁, provider', t₂, by simp,
          List.forall_mem_append.mpr ⟨hidle, hpre⟩, hrun⟩
  | @connected provider _ metadata now token t₁ r₁ t₂ _ given run closing =>
      exact .inr ⟨[⟨.createForRequest, metadata⟩, ⟨.now, now⟩], _, metadata, t₁, r₁, provider, t₂,
        rfl, by simp [isIdle], run, closing⟩

theorem exact_of_idle {t : SessionTrace} (h : ∀ ev ∈ t, isIdle ev = true) : Exact t := by
  rintro ⟨c, a⟩ hev
  have hidle := h _ hev
  cases c <;> trivial

theorem opens_of_idle {t : SessionTrace} (h : ∀ ev ∈ t, isIdle ev = true) :
    ∀ ev ∈ t, opens ev = false := by
  rintro ⟨c, a⟩ hev
  have hidle := h _ hev
  match c, a with
  | .connect _, .ok _ => cases hidle
  | .connect _, .error _ => rfl
  | .isCancelled, _ => rfl
  | .createForRequest, _ => rfl
  | .now, _ => rfl
  | .sendText _, _ => rfl
  | .receive, _ => rfl
  | .close, _ => rfl
  | .add _ _, _ => rfl

/-- A chunk that is not completed has had no conversation, or one that does not
complete it. -/
theorem Attempted.conversations_of_not_completed {ttsConfig : TtsConfig} {text : Bytes}
    {comp : Int64} {chunks : List TtsChunk} {provider : EdgeTokenProvider} {attempt : Int}
    {t : SessionTrace} {r : Option (Outcome (Int64 × List TtsChunk × EdgeTokenProvider))}
    (run : session.Attempted ttsConfig text comp chunks provider attempt t r)
    (hr : completed r = false) :
    (conversations t = [] ∧ Exact t) ∨
    ∃ messages, conversations t = [messages] ∧ ¬ session.Finished messages ∧
      (Exact t ↔ InRange comp.toInt (session.contents messages)) := by
  rcases run.split with
    ⟨-, hidle⟩ | ⟨pre, url, metadata, t₁, r₁, provider', t₂, rfl, hpre, hrun, hc⟩
  · exact .inl ⟨conversations_eq_nil (opens_of_idle hidle), exact_of_idle hidle⟩
  · refine .inr ⟨received t₁, ?_, ?_, ?_⟩
    · rw [conversations_append (opens_of_idle hpre)]
      cases hc with
      | running => simpa using conversations_open url hrun.steady
      | escaped x => simpa using conversations_open url hrun.steady
      | failed e closed => exact conversations_closed url hrun.steady closed []
      | done => cases hr
    · rw [← hrun.completed_iff]
      cases hc with
      | done => cases hr
      | _ => simp
    · have hexact : Exact t₂ := by cases hc <;> simp [ExactEvent]
      simp [exact_of_idle hpre, ExactEvent, hrun.exact_iff, hexact]

/-- A completed chunk has had one conversation, which completes it. -/
theorem Attempted.conversations_of_completed {ttsConfig : TtsConfig} {text : Bytes}
    {comp : Int64} {chunks chunks' : List TtsChunk} {provider provider' : EdgeTokenProvider}
    {attempt : Int} {t : SessionTrace} {chunkBoundaryEnd : Int64}
    (run : session.Attempted ttsConfig text comp chunks provider attempt t
      (some (.ok (chunkBoundaryEnd, chunks', provider')))) :
    ∃ messages, (∀ t', conversations (t ++ t') = messages :: conversations t') ∧
      session.Finished messages ∧
      (Exact t ↔ InRange comp.toInt (session.contents messages)) ∧
      (Exact t →
        (∃ new, chunks' = chunks ++ new ∧
          List.Forall₂ (Shifted comp.toInt) (session.contents messages) new) ∧
        chunkBoundaryEnd.toInt = subtitleEnd (session.contents messages) ∧
        session.WholeTurn messages) := by
  rcases run.split with ⟨⟨e, hr⟩, -⟩ | ⟨pre, url, metadata, t₁, r₁, _, t₂, rfl, hpre, hrun, hc⟩
  · cases hr
  · cases hc with
    | done _ _ closed =>
        refine ⟨received t₁, fun t' => ?_, hrun.completed_iff.mp rfl, ?_, fun exact => ?_⟩
        · rw [List.append_assoc, conversations_append (opens_of_idle hpre), List.cons_append,
            List.append_assoc]
          exact conversations_closed url hrun.steady closed t'
        · simp [exact_of_idle hpre, ExactEvent, hrun.exact_iff]
        · simp only [exact_append, exact_cons] at exact
          exact hrun.collected exact.2.2.1

/-! ## Sessions -/

variable (session) in
/-- What is added to the offsets of the conversation `k`, where `base` is added to
those of the first. -/
def compensation (base : Int) (convs : List (List WebSocketMessage)) (k : Nat) : Int :=
  base + ((convs.take k).map fun messages => subtitleEnd (session.contents messages)).sum

@[simp] theorem compensation_zero (base : Int) (convs : List (List WebSocketMessage)) :
    session.compensation base convs 0 = base := by simp [compensation]

@[simp] theorem compensation_succ (base : Int) (messages : List WebSocketMessage)
    (convs : List (List WebSocketMessage)) (k : Nat) :
    session.compensation base (messages :: convs) (k + 1) =
      session.compensation (base + subtitleEnd (session.contents messages)) convs k := by
  simp [compensation, add_assoc]

variable (session) in
/-- No addition overflows in a session with these conversations: not for a boundary,
and not for the cumulative offset after a completed chunk. -/
def NoOverflow (base : Int) (convs : List (List WebSocketMessage)) : Prop :=
  ∀ k messages, convs[k]? = some messages →
    InRange (session.compensation base convs k) (session.contents messages) ∧
    (session.Finished messages →
      Fits64 (session.compensation base convs k + subtitleEnd (session.contents messages)))

@[simp] theorem noOverflow_nil (base : Int) : session.NoOverflow base [] := by
  simp [NoOverflow]

theorem noOverflow_cons (base : Int) (messages : List WebSocketMessage)
    (convs : List (List WebSocketMessage)) :
    session.NoOverflow base (messages :: convs) ↔
      (InRange base (session.contents messages) ∧
        (session.Finished messages →
          Fits64 (base + subtitleEnd (session.contents messages)))) ∧
      session.NoOverflow (base + subtitleEnd (session.contents messages)) convs := by
  constructor
  · intro h
    refine ⟨by simpa using h 0 messages rfl, fun k messages' hk => ?_⟩
    simpa using h (k + 1) messages' hk
  · rintro ⟨hhead, htail⟩ k messages' hk
    cases k with
    | zero =>
        cases hk
        simpa using hhead
    | succ k => simpa using htail k messages' hk

theorem Attempted.exact_iff_of_not_completed {ttsConfig : TtsConfig} {text : Bytes}
    {comp : Int64} {chunks : List TtsChunk} {provider : EdgeTokenProvider} {attempt : Int}
    {t : SessionTrace} {r : Option (Outcome (Int64 × List TtsChunk × EdgeTokenProvider))}
    (run : session.Attempted ttsConfig text comp chunks provider attempt t r)
    (hr : completed r = false) : Exact t ↔ session.NoOverflow comp.toInt (conversations t) := by
  rcases run.conversations_of_not_completed hr with
    ⟨hconvs, hexact⟩ | ⟨messages, hconvs, hfinished, hexact⟩
  · rw [hconvs]
    exact iff_of_true hexact (noOverflow_nil _)
  · rw [hconvs, noOverflow_cons, hexact]
    simp [hfinished]

/-- **Exactly these sessions do not overflow.** -/
theorem SessionRun.exact_iff {ttsConfig : TtsConfig} {texts : List Bytes} {cumulative : Int64}
    {chunks : List TtsChunk} {provider : EdgeTokenProvider} {t : SessionTrace}
    {r : Option (Outcome (List TtsChunk))}
    (run : session.SessionRun ttsConfig texts cumulative chunks provider t r) :
    Exact t ↔ session.NoOverflow cumulative.toInt (conversations t) := by
  induction run with
  | done => simp [conversations]
  | cancelled => simp [conversations, opens, ExactEvent]
  | running chunk =>
      simpa [conversations, opens, ExactEvent] using chunk.exact_iff_of_not_completed rfl
  | failed chunk =>
      simpa [conversations, opens, ExactEvent] using chunk.exact_iff_of_not_completed rfl
  | escaped chunk =>
      simpa [conversations, opens, ExactEvent] using chunk.exact_iff_of_not_completed rfl
  | @next _ _ cumulative _ _ t₁ chunkBoundaryEnd _ _ t₂ _ chunk sum rest ih =>
      obtain ⟨messages, hconvs, hfinished, hexact, hcol⟩ := chunk.conversations_of_completed
      have heq : conversations (⟨.isCancelled, false⟩ :: (t₁ ++
          ⟨.add cumulative chunkBoundaryEnd, sum⟩ :: t₂)) = messages :: conversations t₂ :=
        hconvs _
      rw [heq, noOverflow_cons, exact_cons, exact_append, exact_cons, exactEvent_add, ih, hexact,
        and_assoc]
      -- the sum is the next compensation once the chunk itself has not overflowed
      refine (and_iff_right trivial).trans (and_congr_right fun hrange => ?_)
      rw [forall_prop_of_true hfinished, ← (hcol (hexact.mpr hrange)).2.1]
      exact and_congr_right fun hfits => by rw [sum.property hfits]

theorem sample_noOverflow : sampleSession.NoOverflow (0 : Int64).toInt
    (List.replicate 2 [audioMessage, textMessage "audio.metadata" wordJson, turnEndMessage]) := by
  have hend : subtitleEnd [.audio ⟨[0xFF]⟩,
      .boundary ⟨.wordBoundary, lit "Hi", 1000000, 5000000⟩] = 6000000 := rfl
  simp only [List.replicate_succ, List.replicate_zero, noOverflow_cons, noOverflow_nil,
    (complete_of_parse parse_word).2, hend, InRange, boundaries_audio, boundaries_boundary,
    boundaries_nil, List.forall_mem_singleton, and_true]
  exact ⟨⟨by decide, fun _ => by decide⟩, by decide, fun _ => by decide⟩

variable (session) in
/-- `outs` holds the contents of each conversation, in order, with the offsets raised by
its compensation. -/
def Assembles (base : Int) (convs : List (List WebSocketMessage)) (outs : List (List TtsChunk)) :
    Prop :=
  outs.length = convs.length ∧
  ∀ k messages new, convs[k]? = some messages → outs[k]? = some new →
    List.Forall₂ (Shifted (session.compensation base convs k)) (session.contents messages) new

theorem assembles_cons {base : Int} {messages : List WebSocketMessage}
    {convs : List (List WebSocketMessage)} {new : List TtsChunk} {outs : List (List TtsChunk)}
    (hnew : List.Forall₂ (Shifted base) (session.contents messages) new)
    (houts : session.Assembles (base + subtitleEnd (session.contents messages)) convs outs) :
    session.Assembles base (messages :: convs) (new :: outs) := by
  refine ⟨by rw [List.length_cons, List.length_cons, houts.1], ?_⟩
  rintro (_ | k) messages' new' hk hk'
  · cases hk
    cases hk'
    simpa using hnew
  · simpa using houts.2 k messages' new' hk hk'

/-- The conversations determine what is assembled. -/
theorem Assembles.unique {base : Int} {convs : List (List WebSocketMessage)}
    {outs outs' : List (List TtsChunk)} (h : session.Assembles base convs outs)
    (h' : session.Assembles base convs outs') : outs = outs' := by
  refine List.ext_getElem (h.1.trans h'.1.symm) fun k hk hk' => ?_
  have hconv := List.getElem?_eq_getElem (h.1 ▸ hk)
  exact List.right_unique_forall₂' (Shifted.rightUnique _)
    (h.2 k _ _ hconv (List.getElem?_eq_getElem hk))
    (h'.2 k _ _ hconv (List.getElem?_eq_getElem hk'))

theorem SessionRun.assembles {ttsConfig : TtsConfig} {texts : List Bytes} {cumulative : Int64}
    {chunks out : List TtsChunk} {provider : EdgeTokenProvider} {t : SessionTrace}
    (run : session.SessionRun ttsConfig texts cumulative chunks provider t (some (.ok out)))
    (exact : Exact t) :
    (conversations t).length = texts.length ∧
    (∀ messages ∈ conversations t,
      session.WholeTurn messages ∧ (session.contents messages).any isAudio = true) ∧
    ∃ outs, out = chunks ++ outs.flatten ∧
      session.Assembles cumulative.toInt (conversations t) outs := by
  generalize hr : some (Outcome.ok out) = r at run
  induction run with
  | done =>
      cases hr
      exact ⟨rfl, by simp [conversations], [], by simp, rfl, by simp [conversations]⟩
  | @next _ texts cumulative _ _ t₁ chunkBoundaryEnd chunks' _ t₂ _ chunk sum rest ih =>
      obtain ⟨messages, hconvs, hfinished, -, hcol⟩ := chunk.conversations_of_completed
      have heq : conversations (⟨.isCancelled, false⟩ :: (t₁ ++
          ⟨.add cumulative chunkBoundaryEnd, sum⟩ :: t₂)) = messages :: conversations t₂ :=
        hconvs _
      rw [exact_cons, exact_append, exact_cons] at exact
      obtain ⟨-, hex₁, hsum, hex₂⟩ := exact
      obtain ⟨⟨new, rfl, hnew⟩, hend, hturn⟩ := hcol hex₁
      obtain ⟨hlen, hfin, outs, hout, houts⟩ := ih hex₂ hr
      -- what the rest is compensated by
      have hsum' : sum.val.toInt = cumulative.toInt + subtitleEnd (session.contents messages) :=
        hsum.trans (by rw [hend])
      rw [heq]
      refine ⟨by rw [List.length_cons, List.length_cons, hlen],
        List.forall_mem_cons.mpr ⟨⟨hturn, hfinished.2⟩, hfin⟩, new :: outs,
        by rw [hout, List.flatten_cons, List.append_assoc], ?_⟩
      exact assembles_cons hnew (hsum' ▸ houts)
  | _ => cases hr

/-- **A session assembles its conversations.**  When it returns `out` and no addition has
overflowed, there has been one conversation for each text, up to a turn end and with
audio in it, and `out` is their contents in order, with the offsets of the `k`-th raised
by the sum of the subtitle ends of those before it.  Nothing else of the run, such as
its refused connects, has a part in the result. -/
theorem synthesize_assembles {fuel : Nat} {ttsConfig : TtsConfig} {texts : List Bytes}
    {provider : EdgeTokenProvider} {t : SessionTrace} {out : List TtsChunk}
    (run : (session.synthesize fuel ttsConfig texts provider).Runs t (some (.ok out)))
    (exact : Exact t) :
    (conversations t).length = texts.length ∧
    (∀ messages ∈ conversations t,
      session.WholeTurn messages ∧ (session.contents messages).any isAudio = true) ∧
    (∃ outs, out = outs.flatten ∧ session.Assembles 0 (conversations t) outs) ∧
    ∀ (fuel' : Nat) (ttsConfig' : TtsConfig) (texts' : List Bytes) (provider' : EdgeTokenProvider)
      (t' : SessionTrace) (out' : List TtsChunk),
      (session.synthesize fuel' ttsConfig' texts' provider').Runs t' (some (.ok out')) →
      Exact t' → conversations t' = conversations t → out' = out := by
  obtain ⟨hlen, hturns, outs, rfl, houts⟩ := (synthesize_runs run).assembles exact
  refine ⟨hlen, hturns, ⟨outs, rfl, houts⟩, ?_⟩
  intro fuel' ttsConfig' texts' provider' t' out' run' exact' hconvs
  obtain ⟨-, -, outs', rfl, houts'⟩ := (synthesize_runs run').assembles exact'
  rw [hconvs] at houts'
  rw [houts.unique houts']

/-- Two chunks, with one word each: the second word is raised by the end of the first. -/
theorem synthesize_assembles_sample : ∃ t out outs, out = outs.flatten ∧
    sampleSession.Assembles 0 (conversations t) outs ∧ (conversations t).length = 2 ∧
    sampleSession.compensation 0 (conversations t) 1 = 6000000 := by
  obtain ⟨t, out, run, hconvs⟩ := sample_run parse_word [lit "Hi", lit "Ho"]
  have exact : Exact t := (synthesize_runs run).exact_iff.mpr (hconvs ▸ sample_noOverflow)
  obtain ⟨hlen, -, ⟨outs, hout, houts⟩, -⟩ := synthesize_assembles run exact
  refine ⟨t, out, outs, hout, houts, hlen, ?_⟩
  simp only [hconvs, List.length_cons, List.length_nil, List.replicate_succ, compensation_succ,
    compensation_zero, (complete_of_parse parse_word).2]
  rfl

end SynthesisSession
end EdgeTts
