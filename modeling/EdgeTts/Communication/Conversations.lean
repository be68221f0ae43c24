import EdgeTts.Communication.SessionRuns

/-!
# The conversations of a session

A run is read as its **conversations**: for each connection, the messages received on
it.  This module defines them, and what the parser makes of a conversation.
-/
namespace EdgeTts

open Interaction (Event)

/-! ## The contents of a message -/

/-- The audio and the boundaries of a list of messages, in order. -/
def chunksOf (msgs : List IncomingMessage) : List TtsChunk := msgs.filterMap (·.chunk)

@[simp] theorem chunksOf_nil : chunksOf [] = [] := rfl

@[simp] theorem chunksOf_cons (msg : IncomingMessage) (msgs : List IncomingMessage) :
    chunksOf (msg :: msgs) = msg.chunk.toList ++ chunksOf msgs := by
  obtain ⟨kind, chunk⟩ := msg
  cases chunk <;> rfl

def boundaries (chunks : List TtsChunk) : List BoundaryChunk :=
  chunks.filterMap fun
    | .audio _ => none
    | .boundary bc => some bc

@[simp] theorem boundaries_nil : boundaries [] = [] := rfl

@[simp] theorem boundaries_audio (chunk : AudioChunk) (chunks : List TtsChunk) :
    boundaries (.audio chunk :: chunks) = boundaries chunks := rfl

@[simp] theorem boundaries_boundary (bc : BoundaryChunk) (chunks : List TtsChunk) :
    boundaries (.boundary bc :: chunks) = bc :: boundaries chunks := rfl

@[simp] theorem boundaries_append (xs ys : List TtsChunk) :
    boundaries (xs ++ ys) = boundaries xs ++ boundaries ys :=
  List.filterMap_append

/-! ## Conversations -/

/-- The messages received, in order. -/
def received (t : SessionTrace) : List WebSocketMessage :=
  t.filterMap fun
    | ⟨.receive, .ok message⟩ => some message
    | _ => none

@[simp] theorem received_nil : received [] = [] := rfl

@[simp] theorem received_append (t₁ t₂ : SessionTrace) :
    received (t₁ ++ t₂) = received t₁ ++ received t₂ := List.filterMap_append

@[simp] theorem received_message (message : WebSocketMessage) (t : SessionTrace) :
    received (⟨.receive, .ok message⟩ :: t) = message :: received t := rfl

@[simp] theorem received_error (e : Error) (t : SessionTrace) :
    received (⟨.receive, .error e⟩ :: t) = received t := rfl

theorem mem_received {message : WebSocketMessage} {t : SessionTrace} :
    message ∈ received t ↔ ⟨.receive, .ok message⟩ ∈ t := by
  rw [received, List.mem_filterMap]
  constructor
  · rintro ⟨ev, hev, heq⟩
    split at heq
    · cases heq
      exact hev
    · cases heq
  · intro h
    exact ⟨_, h, rfl⟩

theorem received_cons_of_ne {ev : Event Command Reply} (h : ev.1 ≠ .receive) (t : SessionTrace) :
    received (ev :: t) = received t := by
  obtain ⟨c, a⟩ := ev
  cases c <;> first | rfl | exact absurd rfl h

theorem received_eq_nil {t : SessionTrace} (h : ∀ ev ∈ t, ev.1 ≠ .receive) : received t = [] := by
  induction t with
  | nil => rfl
  | cons ev t ih =>
      rw [received_cons_of_ne (h ev (.head t))]
      exact ih fun ev' hev' => h ev' (.tail ev hev')

/-- The event opens a connection. -/
def opens : Event Command Reply → Bool
  | ⟨.connect _, .ok _⟩ => true
  | _ => false

def isClose : Command → Bool
  | .close => true
  | _ => false

/-- For each connection, the messages received until it is closed. -/
def conversations : SessionTrace → List (List WebSocketMessage)
  | [] => []
  | ev :: t =>
      if opens ev then received (t.takeWhile fun ev => !isClose ev.1) :: conversations t
      else conversations t

theorem conversations_append {t₁ : SessionTrace} (h : ∀ ev ∈ t₁, opens ev = false)
    (t₂ : SessionTrace) : conversations (t₁ ++ t₂) = conversations t₂ := by
  induction t₁ with
  | nil => rfl
  | cons ev t₁ ih =>
      rw [List.cons_append, conversations, if_neg (by simp [h ev (.head t₁)])]
      exact ih fun ev' hev' => h ev' (.tail ev hev')

theorem conversations_eq_nil {t : SessionTrace} (h : ∀ ev ∈ t, opens ev = false) :
    conversations t = [] := by
  simpa [conversations] using conversations_append h []

/-- Nothing opens or closes a connection. -/
def Steady (t : SessionTrace) : Prop := ∀ ev ∈ t, opens ev = false ∧ isClose ev.1 = false

@[simp] theorem steady_nil : Steady [] := by simp [Steady]

@[simp] theorem steady_cons (ev : Event Command Reply) (t : SessionTrace) :
    Steady (ev :: t) ↔ (opens ev = false ∧ isClose ev.1 = false) ∧ Steady t :=
  List.forall_mem_cons

@[simp] theorem steady_append (t₁ t₂ : SessionTrace) :
    Steady (t₁ ++ t₂) ↔ Steady t₁ ∧ Steady t₂ := List.forall_mem_append

theorem Delivered.steady {comp : Int64} {st st' : ChunkState} {msgs : List IncomingMessage}
    {t : SessionTrace} (h : Delivered comp st msgs t st') : Steady t := by
  rintro ⟨c, sum⟩ hev
  obtain ⟨a, b, rfl⟩ := h.adds _ hev
  exact ⟨rfl, rfl⟩

theorem Delivered.audioReceived {comp : Int64} {st st' : ChunkState} {msgs : List IncomingMessage}
    {t : SessionTrace} (h : Delivered comp st msgs t st') :
    st'.audioReceived = (st.audioReceived || (chunksOf msgs).any isAudio) := by
  induction h with
  | nil => simp
  | ignored _ ih => exact ih
  | audio _ ih => simp [ih, ChunkState.pushAudio, isAudio]
  | boundary rawEnd offset _ ih => simp [ih, ChunkState.pushBoundary, isAudio]

theorem Delivered.received {comp : Int64} {st st' : ChunkState} {msgs : List IncomingMessage}
    {t : SessionTrace} (h : Delivered comp st msgs t st') : received t = [] := by
  refine received_eq_nil ?_
  rintro ⟨c, sum⟩ hev
  obtain ⟨a, b, rfl⟩ := h.adds _ hev
  simp

theorem conversations_open (url : Bytes) {t₁ : SessionTrace} (steady : Steady t₁) :
    conversations (⟨.connect url, .ok ()⟩ :: t₁) = [received t₁] := by
  have htake : (t₁.takeWhile fun ev => !isClose ev.1) = t₁ :=
    List.takeWhile_eq_self_iff.mpr fun ev hev => by simp [(steady ev hev).2]
  rw [conversations, if_pos (by rfl), htake, conversations_eq_nil fun ev hev => (steady ev hev).1]

theorem conversations_closed (url : Bytes) {t₁ : SessionTrace} (steady : Steady t₁)
    (closed : Result Unit) (t₂ : SessionTrace) :
    conversations (⟨.connect url, .ok ()⟩ :: (t₁ ++ ⟨.close, closed⟩ :: t₂)) =
      received t₁ :: conversations t₂ := by
  have htake : ((t₁ ++ ⟨.close, closed⟩ :: t₂).takeWhile fun ev => !isClose ev.1) = t₁ :=
    Search.takeWhile_append_stop (fun ev hev => by simp [(steady ev hev).2]) rfl t₂
  rw [conversations, if_pos (by rfl), htake, conversations_append fun ev hev => (steady ev hev).1]
  rfl

namespace SynthesisSession
variable (session : SynthesisSession)

/-- What the parser makes of a message; nothing if it rejects it. -/
def accepted (message : WebSocketMessage) : List IncomingMessage :=
  match parseIncoming session.jsonParse message with
  | .ok msgs => msgs
  | .fail _ | .escape _ => []

/-- The audio and the boundaries of a conversation, in order. -/
def contents (messages : List WebSocketMessage) : List TtsChunk :=
  messages.flatMap fun message => chunksOf (session.accepted message)

/-- A conversation that completes its chunk. -/
def Finished (messages : List WebSocketMessage) : Prop :=
  (∃ message ∈ messages, session.accepted message = turnEndMessages) ∧
    (session.contents messages).any isAudio = true

/-- A conversation up to its turn end: every message before it was accepted, and is
none. -/
def WholeTurn (messages : List WebSocketMessage) : Prop :=
  ∃ init last, messages = init ++ [last] ∧
    parseIncoming session.jsonParse last = .ok turnEndMessages ∧
    ∀ message ∈ init, ∃ msgs, parseIncoming session.jsonParse message = .ok msgs ∧
      msgs ≠ turnEndMessages

variable {session}

theorem accepted_eq {message : WebSocketMessage} {msgs : List IncomingMessage}
    (h : parseIncoming session.jsonParse message = .ok msgs) : session.accepted message = msgs := by
  rw [accepted, h]

@[simp] theorem contents_nil : session.contents [] = [] := rfl

@[simp] theorem contents_cons (message : WebSocketMessage) (messages : List WebSocketMessage) :
    session.contents (message :: messages) =
      chunksOf (session.accepted message) ++ session.contents messages := rfl

theorem Listened.steady {comp : Int64} {st : ChunkState} {t : SessionTrace}
    {r : Option (Outcome ChunkState)} (run : session.Listened comp st t r) : Steady t := by
  induction run with
  | turn _ _ delivered _ ih => simp [opens, isClose, delivered.steady, ih]
  | _ => simp [opens, isClose]

theorem Listened.audioReceived {comp : Int64} {st st' : ChunkState} {t : SessionTrace}
    (run : session.Listened comp st t (some (.ok st'))) :
    st'.audioReceived = (st.audioReceived || (session.contents (received t)).any isAudio) := by
  generalize hr : some (Outcome.ok st') = r at run
  induction run with
  | turn parsed _ delivered _ ih =>
      simp [received_cons_of_ne, delivered.received, accepted_eq parsed, ih hr,
        delivered.audioReceived, Bool.or_assoc]
  | turnEnd parsed =>
      cases hr
      simp [received_cons_of_ne, accepted_eq parsed, turnEndMessages]
  | _ => cases hr

theorem ChunkRun.steady {ttsConfig : TtsConfig} {text : Bytes} {metadata : ConnectionMetadata}
    {comp : Int64} {chunks : List TtsChunk} {t : SessionTrace}
    {r : Option (Outcome (Int64 × List TtsChunk))}
    (run : session.ChunkRun ttsConfig text metadata comp chunks t r) : Steady t := by
  cases run with
  | listened _ _ loop => simp [opens, isClose, loop.steady]
  | _ => simp [opens, isClose]

end SynthesisSession
end EdgeTts
