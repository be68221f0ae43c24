import EdgeTts.Communication.SessionService

/-!
# The web socket in a session

`connection` follows the state of the connection through a trace and fails at a call
that is out of place: a `connect` while one is open, or a `send_text`, `receive` or
`close` while none is.  `SessionRun.connection_eq` says that a session never makes
such a call, and that it leaves the connection open exactly where an exception of
the parser ends it.

`Blocks` is the order of the calls: the retries of a chunk, its two frames, its
messages and one close.
-/
namespace EdgeTts

open Interaction (Event)

/-! ## The state of the connection -/

/-- The calls that leave the connection and its messages alone. -/
def isQuiet : Command → Bool
  | .isCancelled | .createForRequest | .now | .add _ _ => true
  | .connect _ | .sendText _ | .receive | .close => false

/-- The effect of a call on the connection; `none` if it is out of place. -/
def connectionStep : Bool → Event Command Reply → Option Bool
  | false, ⟨.connect _, .ok _⟩ => some true
  | false, ⟨.connect _, .error _⟩ => some false
  | true, ⟨.sendText _, _⟩ => some true
  | true, ⟨.receive, _⟩ => some true
  | true, ⟨.close, _⟩ => some false
  | isOpen, ev => if isQuiet ev.1 then some isOpen else none

/-- Whether the connection is open after a trace. -/
def connection (isOpen : Bool) (t : SessionTrace) : Option Bool := t.foldlM connectionStep isOpen

@[simp] theorem connection_nil (isOpen : Bool) : connection isOpen [] = some isOpen := rfl

@[simp] theorem connection_cons (isOpen : Bool) (ev : Event Command Reply) (t : SessionTrace) :
    connection isOpen (ev :: t) = (connectionStep isOpen ev).bind fun b => connection b t := by
  rw [connection, List.foldlM_cons]
  rfl

theorem connection_append (isOpen : Bool) (t₁ t₂ : SessionTrace) :
    connection isOpen (t₁ ++ t₂) = (connection isOpen t₁).bind fun b => connection b t₂ :=
  List.foldlM_append

theorem connectionStep_of_quiet {ev : Event Command Reply} (h : isQuiet ev.1 = true)
    (isOpen : Bool) : connectionStep isOpen ev = some isOpen := by
  obtain ⟨c, a⟩ := ev
  cases isOpen <;> cases c <;> first | rfl | cases h

theorem connection_of_quiet {t : SessionTrace} (h : ∀ ev ∈ t, isQuiet ev.1 = true)
    (isOpen : Bool) : connection isOpen t = some isOpen := by
  induction t with
  | nil => rfl
  | cons ev t ih =>
      rw [connection_cons, connectionStep_of_quiet (h ev (.head t))]
      exact ih fun ev' hev' => h ev' (.tail ev hev')

/-- An open connection does not go away by itself. -/
theorem exists_close {t : SessionTrace} (h : connection true t = some false) :
    ∃ closed, ⟨.close, closed⟩ ∈ t := by
  induction t with
  | nil => cases h
  | cons ev t ih =>
      obtain ⟨c, a⟩ := ev
      cases c with
      | close => exact ⟨a, .head t⟩
      | connect url => simp [connectionStep, isQuiet] at h
      | _ =>
          obtain ⟨closed, hmem⟩ := ih h
          exact ⟨closed, .tail _ hmem⟩

theorem Delivered.quiet {comp : Int64} {st st' : ChunkState} {msgs : List IncomingMessage}
    {t : SessionTrace} (h : Delivered comp st msgs t st') : ∀ ev ∈ t, isQuiet ev.1 = true := by
  intro ev hev
  obtain ⟨a, b, hadd⟩ := h.adds ev hev
  rw [hadd]
  rfl

theorem SynthesisSession.correctSkew_quiet {provider provider' : EdgeTokenProvider} {e : Error}
    {t : SessionTrace} (h : (correctSkew provider e).Runs t provider') :
    ∀ ev ∈ t, isQuiet ev.1 = true := by
  intro ev hev
  rw [(correctSkew_runs h).1 ev hev]
  rfl

/-- The connection is left open by a run that is not over, and by an exception. -/
@[simp] def leftOpen {α : Type} : Option (Outcome α) → Bool
  | some (.ok _) | some (.fail _) => false
  | some (.escape _) | none => true

namespace SynthesisSession
variable {session : SynthesisSession}

theorem Listened.connection_eq {comp : Int64} {st : ChunkState} {t : SessionTrace}
    {r : Option (Outcome ChunkState)} (h : session.Listened comp st t r) :
    connection true t = some true := by
  induction h with
  | turn _ _ delivered _ ih =>
      simp [connectionStep, isQuiet, connection_append, connection_of_quiet delivered.quiet, ih]
  | _ => simp [connectionStep, isQuiet]

theorem ChunkRun.connection_eq {ttsConfig : TtsConfig} {text : Bytes}
    {metadata : ConnectionMetadata} {comp : Int64} {chunks : List TtsChunk} {t : SessionTrace}
    {r : Option (Outcome (Int64 × List TtsChunk))}
    (h : session.ChunkRun ttsConfig text metadata comp chunks t r) :
    connection true t = some true := by
  cases h with
  | listened _ _ loop => simp [connectionStep, isQuiet, loop.connection_eq]
  | _ => simp [connectionStep, isQuiet]

theorem Closing.connection_eq {provider : EdgeTokenProvider}
    {r₁ : Option (Outcome (Int64 × List TtsChunk))} {t : SessionTrace}
    {r : Option (Outcome (Int64 × List TtsChunk × EdgeTokenProvider))}
    (h : Closing provider r₁ t r) : connection true t = some (leftOpen r) := by
  cases h <;> rfl

theorem Attempted.connection_eq {ttsConfig : TtsConfig} {text : Bytes} {comp : Int64}
    {chunks : List TtsChunk} {provider : EdgeTokenProvider} {attempt : Int} {t : SessionTrace}
    {r : Option (Outcome (Int64 × List TtsChunk × EdgeTokenProvider))}
    (h : session.Attempted ttsConfig text comp chunks provider attempt t r) :
    connection false t = some (leftOpen r) := by
  induction h with
  | refused given last => rfl
  | retried given again corrected rest ih =>
      simp [connectionStep, isQuiet, connection_append,
        connection_of_quiet (correctSkew_quiet corrected), ih]
  | connected given run closing =>
      simp [connectionStep, isQuiet, connection_append, run.connection_eq, closing.connection_eq]

/-- **No call is out of place**, and the connection is left open exactly by a run
that is not over and by an exception. -/
theorem SessionRun.connection_eq {ttsConfig : TtsConfig} {texts : List Bytes} {cumulative : Int64}
    {chunks : List TtsChunk} {provider : EdgeTokenProvider} {t : SessionTrace}
    {r : Option (Outcome (List TtsChunk))}
    (h : session.SessionRun ttsConfig texts cumulative chunks provider t r) :
    connection false t = some (leftOpen r) := by
  induction h with
  | done => rfl
  | cancelled => rfl
  | running chunk => exact chunk.connection_eq
  | failed chunk => exact chunk.connection_eq
  | escaped chunk => exact chunk.connection_eq
  | next chunk sum rest ih =>
      simp [connectionStep, isQuiet, connection_append, chunk.connection_eq, leftOpen, ih]

/-! ## Exceptions -/

variable (session) in
/-- A message on which the parser throws has been received. -/
def Thrown (t : SessionTrace) : Prop :=
  ∃ message, ⟨.receive, .ok message⟩ ∈ t ∧ Overflowing session.jsonParse message

/-- The call ended with an exception. -/
def Escaped {α : Type} (r : Option (Outcome α)) : Prop := ∃ x, r = some (.escape x)

theorem thrown_append {t₁ t₂ : SessionTrace} :
    session.Thrown (t₁ ++ t₂) ↔ session.Thrown t₁ ∨ session.Thrown t₂ := by
  simp only [Thrown, List.mem_append, or_and_right, exists_or]

theorem thrown_cons {ev : Event Command Reply} {t : SessionTrace} :
    session.Thrown (ev :: t) ↔
      (∃ message, ev = ⟨.receive, .ok message⟩ ∧ Overflowing session.jsonParse message) ∨
        session.Thrown t := by
  simp only [Thrown, List.mem_cons, or_and_right, exists_or, eq_comm]

theorem not_thrown_of_quiet {t : SessionTrace} (h : ∀ ev ∈ t, isQuiet ev.1 = true) :
    ¬ session.Thrown t := by
  rintro ⟨message, hmem, -⟩
  exact absurd (h _ hmem) (by simp [isQuiet])

theorem Listened.escaped_iff {comp : Int64} {st : ChunkState} {t : SessionTrace}
    {r : Option (Outcome ChunkState)} (h : session.Listened comp st t r) :
    Escaped r ↔ session.Thrown t := by
  induction h with
  | turn parsed _ delivered _ ih =>
      -- the parser has returned, so it has not thrown on this message
      have hno : ¬ Overflowing session.jsonParse _ := fun ho => by
        obtain ⟨x, hx⟩ := (parseIncoming_escape_iff _).mpr ho
        rw [parsed] at hx
        cases hx
      simp [thrown_cons, thrown_append, not_thrown_of_quiet delivered.quiet, hno, ih]
  | running => simp [Escaped, Thrown]
  | cancelled => simp [Escaped, Thrown]
  | notReceived e => simp [Escaped, Thrown]
  | rejected parsed => simp [Escaped, Thrown, ← parseIncoming_escape_iff, parsed]
  | escaped parsed => simp [Escaped, Thrown, ← parseIncoming_escape_iff, parsed]
  | turnEnd parsed => simp [Escaped, Thrown, ← parseIncoming_escape_iff, parsed]

theorem escaped_checkAudio_iff {r : Option (Outcome ChunkState)} :
    Escaped (r.map checkAudio) ↔ Escaped r := by
  match r with
  | none => simp [Escaped]
  | some (.fail e) => simp [Escaped, checkAudio]
  | some (.escape x) => simp [Escaped, checkAudio]
  | some (.ok st) =>
      simp only [Escaped, Option.map_some, checkAudio]
      split <;> simp

theorem ChunkRun.escaped_iff {ttsConfig : TtsConfig} {text : Bytes}
    {metadata : ConnectionMetadata} {comp : Int64} {chunks : List TtsChunk} {t : SessionTrace}
    {r : Option (Outcome (Int64 × List TtsChunk))}
    (h : session.ChunkRun ttsConfig text metadata comp chunks t r) :
    Escaped r ↔ session.Thrown t := by
  cases h with
  | listened _ _ loop =>
      rw [escaped_checkAudio_iff, loop.escaped_iff]
      simp [thrown_cons]
  | _ => simp [Escaped, Thrown]

theorem Closing.escaped_iff (session : SynthesisSession) {provider : EdgeTokenProvider}
    {r₁ : Option (Outcome (Int64 × List TtsChunk))} {t : SessionTrace}
    {r : Option (Outcome (Int64 × List TtsChunk × EdgeTokenProvider))}
    (h : Closing provider r₁ t r) : (Escaped r ↔ Escaped r₁) ∧ ¬ session.Thrown t := by
  cases h <;> simp [Escaped, Thrown]

theorem Attempted.escaped_iff {ttsConfig : TtsConfig} {text : Bytes} {comp : Int64}
    {chunks : List TtsChunk} {provider : EdgeTokenProvider} {attempt : Int} {t : SessionTrace}
    {r : Option (Outcome (Int64 × List TtsChunk × EdgeTokenProvider))}
    (h : session.Attempted ttsConfig text comp chunks provider attempt t r) :
    Escaped r ↔ session.Thrown t := by
  induction h with
  | refused given last => simp [Escaped, Thrown]
  | retried given again corrected rest ih =>
      simp [thrown_cons, thrown_append, not_thrown_of_quiet (correctSkew_quiet corrected), ih]
  | connected given run closing =>
      have hc := closing.escaped_iff session
      simp [thrown_cons, thrown_append, hc.1, hc.2, run.escaped_iff]

/-- **Only an overflowing number ends a session with an exception.** -/
theorem SessionRun.escaped_iff {ttsConfig : TtsConfig} {texts : List Bytes} {cumulative : Int64}
    {chunks : List TtsChunk} {provider : EdgeTokenProvider} {t : SessionTrace}
    {r : Option (Outcome (List TtsChunk))}
    (h : session.SessionRun ttsConfig texts cumulative chunks provider t r) :
    Escaped r ↔ session.Thrown t := by
  induction h with
  | done => simp [Escaped, Thrown]
  | cancelled => simp [Escaped, Thrown]
  | running chunk => simpa [Escaped, thrown_cons] using chunk.escaped_iff
  | failed chunk => simpa [Escaped, thrown_cons] using chunk.escaped_iff
  | escaped chunk => simpa [Escaped, thrown_cons] using chunk.escaped_iff
  | next chunk sum rest ih =>
      have hchunk : ¬ session.Thrown _ := fun ht => by
        obtain ⟨x, hx⟩ := chunk.escaped_iff.mpr ht
        cases hx
      simp [thrown_cons, thrown_append, hchunk, ih]

/-- The parser has thrown nowhere in a session that returned a value. -/
theorem SessionRun.calm {ttsConfig : TtsConfig} {texts : List Bytes} {cumulative : Int64}
    {chunks out : List TtsChunk} {provider : EdgeTokenProvider} {t : SessionTrace}
    (h : session.SessionRun ttsConfig texts cumulative chunks provider t (some (.ok out))) :
    ¬ session.Thrown t := by
  intro thrown
  obtain ⟨x, hx⟩ := h.escaped_iff.mpr thrown
  cases hx

/-- **A session that is over has closed its connection**, unless a number overflowed. -/
theorem SessionRun.closed_iff {ttsConfig : TtsConfig} {texts : List Bytes} {cumulative : Int64}
    {chunks : List TtsChunk} {provider : EdgeTokenProvider} {t : SessionTrace}
    {r : Outcome (List TtsChunk)}
    (h : session.SessionRun ttsConfig texts cumulative chunks provider t (some r)) :
    connection false t = some false ↔ ¬ session.Thrown t := by
  rw [h.connection_eq, ← h.escaped_iff]
  cases r <;> simp [Escaped]

/-! ## The order of the calls -/

end SynthesisSession

/-- The calls on the web socket, and the requests for the metadata of an attempt. -/
def isSocketCall : Command → Bool
  | .createForRequest | .connect _ | .sendText _ | .receive | .close => true
  | .isCancelled | .now | .add _ _ => false

def socketCalls (t : SessionTrace) : SessionTrace := t.filter fun ev => isSocketCall ev.1

@[simp] theorem socketCalls_nil : socketCalls [] = [] := rfl

@[simp] theorem socketCalls_append (t₁ t₂ : SessionTrace) :
    socketCalls (t₁ ++ t₂) = socketCalls t₁ ++ socketCalls t₂ :=
  List.filter_append t₁ t₂

@[simp] theorem socketCalls_cons (c : Command) (a : Reply c) (t : SessionTrace) :
    socketCalls (⟨c, a⟩ :: t) =
      if isSocketCall c then ⟨c, a⟩ :: socketCalls t else socketCalls t := by
  rw [socketCalls, List.filter_cons]
  rfl

theorem socketCalls_eq_nil {t : SessionTrace} (h : ∀ ev ∈ t, isSocketCall ev.1 = false) :
    socketCalls t = [] :=
  List.filter_eq_nil_iff.mpr fun ev hev => by simp [h ev hev]

theorem Delivered.socketCalls {comp : Int64} {st st' : ChunkState} {msgs : List IncomingMessage}
    {t : SessionTrace} (h : Delivered comp st msgs t st') : socketCalls t = [] :=
  socketCalls_eq_nil fun ev hev => by
    obtain ⟨a, b, hadd⟩ := h.adds ev hev
    rw [hadd]
    rfl

theorem SynthesisSession.correctSkew_socketCalls {provider provider' : EdgeTokenProvider}
    {e : Error} {t : SessionTrace} (h : (correctSkew provider e).Runs t provider') :
    EdgeTts.socketCalls t = [] :=
  socketCalls_eq_nil fun ev hev => by
    rw [(correctSkew_runs h).1 ev hev]
    rfl

/-- The call returned a value. -/
@[simp] def completed {α : Type} : Option (Outcome α) → Bool
  | some (.ok _) => true
  | some (.fail _) | some (.escape _) | none => false

theorem completed_eq_true {α : Type} {r : Option (Outcome α)} :
    completed r = true ↔ ∃ a, r = some (.ok a) := by
  rcases r with _ | a | e | x <;> simp

/-- The close that a session has yet to make. -/
def owed {α : Type} (r : Option (Outcome α)) (closed : Result Unit) : SessionTrace :=
  if leftOpen r then [⟨.close, closed⟩] else []

namespace SynthesisSession
variable (session : SynthesisSession)

/-- `url` is the URL of an attempt: it has the connection id of the attempt's own
metadata, and a token generated for it. -/
def IsUrl (config : EdgeServiceConfig) (metadata : ConnectionMetadata) (url : Bytes) : Prop :=
  ∃ (provider : EdgeTokenProvider) (now : TimePoint) (token : Bytes), provider.config = config ∧
    provider.secMsGec session.sha256HexUpper now = .ok token ∧
    url = session.url provider metadata token

/-- The calls on an open connection: the two frames, the second made from `text`, and
then messages.  An exchange is completed by the turn end. -/
inductive Exchange (ttsConfig : TtsConfig) (text : Bytes) (metadata : ConnectionMetadata) :
    Bool → SessionTrace → Prop
  | nothing : Exchange ttsConfig text metadata false []
  | config {now frame} (sent : Result Unit)
      (built : buildSpeechConfigFrame ttsConfig metadata now = .ok frame) :
      Exchange ttsConfig text metadata false [⟨.sendText frame, sent⟩]
  | ssml {now frame now' frame'} (sent : Result Unit)
      (built : buildSpeechConfigFrame ttsConfig metadata now = .ok frame)
      (built' : buildSsmlFrame ttsConfig text metadata now' = .ok frame') :
      Exchange ttsConfig text metadata false
        [⟨.sendText frame, .ok ()⟩, ⟨.sendText frame', sent⟩]
  | received {now frame now' frame' calls}
      (built : buildSpeechConfigFrame ttsConfig metadata now = .ok frame)
      (built' : buildSsmlFrame ttsConfig text metadata now' = .ok frame')
      (receives : ∀ ev ∈ calls, ev.1 = .receive) :
      Exchange ttsConfig text metadata false
        (⟨.sendText frame, .ok ()⟩ :: ⟨.sendText frame', .ok ()⟩ :: calls)
  | completed {now frame now' frame' calls message}
      (built : buildSpeechConfigFrame ttsConfig metadata now = .ok frame)
      (built' : buildSsmlFrame ttsConfig text metadata now' = .ok frame')
      (receives : ∀ ev ∈ calls, ev.1 = .receive)
      (turnEnd : parseIncoming session.jsonParse message = .ok turnEndMessages) :
      Exchange ttsConfig text metadata true
        (⟨.sendText frame, .ok ()⟩ :: ⟨.sendText frame', .ok ()⟩ ::
          (calls ++ [⟨.receive, .ok message⟩]))

/-- The calls for one chunk, with at most `retries` retries: attempts refused with
`drm_error`, and then one that is refused for good or is served and closed. -/
inductive Block (config : EdgeServiceConfig) (ttsConfig : TtsConfig) (text : Bytes) :
    Nat → Bool → SessionTrace → Prop
  | refused {retries metadata url e} (own : session.IsUrl config metadata url)
      (final : e.code ≠ .drmError ∨ retries = 0) :
      Block config ttsConfig text retries false
        [⟨.createForRequest, metadata⟩, ⟨.connect url, .error e⟩]
  | retried {retries metadata url e done calls} (own : session.IsUrl config metadata url)
      (drm : e.code = .drmError) (rest : Block config ttsConfig text retries done calls) :
      Block config ttsConfig text (retries + 1) done
        (⟨.createForRequest, metadata⟩ :: ⟨.connect url, .error e⟩ :: calls)
  | served {retries metadata url done calls} (closed : Result Unit)
      (own : session.IsUrl config metadata url)
      (exchange : session.Exchange ttsConfig text metadata done calls) :
      Block config ttsConfig text retries done
        (⟨.createForRequest, metadata⟩ :: ⟨.connect url, .ok ()⟩ :: (calls ++ [⟨.close, closed⟩]))

/-- A block for each started chunk, in order; only a completed one has a successor. -/
inductive Blocks (config : EdgeServiceConfig) (ttsConfig : TtsConfig) :
    List Bytes → SessionTrace → Prop
  | none {texts} : Blocks config ttsConfig texts []
  | last {text texts done calls}
      (block :
        session.Block config ttsConfig text session.retryPolicy.maxRetries.toNat done calls) :
      Blocks config ttsConfig (text :: texts) calls
  | next {text texts calls calls'}
      (block : session.Block config ttsConfig text session.retryPolicy.maxRetries.toNat true calls)
      (rest : Blocks config ttsConfig texts calls') :
      Blocks config ttsConfig (text :: texts) (calls ++ calls')

variable {session}

theorem Listened.receives {comp : Int64} {st : ChunkState} {t : SessionTrace}
    {r : Option (Outcome ChunkState)} (h : session.Listened comp st t r) :
    ∀ ev ∈ socketCalls t, ev.1 = .receive := by
  induction h with
  | turn _ _ delivered _ ih => simpa [isSocketCall, delivered.socketCalls] using ih
  | _ => simp [isSocketCall]

theorem Listened.last_receive {comp : Int64} {st st' : ChunkState} {t : SessionTrace}
    (h : session.Listened comp st t (some (.ok st'))) :
    ∃ calls message, socketCalls t = calls ++ [⟨.receive, .ok message⟩] ∧
      parseIncoming session.jsonParse message = .ok turnEndMessages := by
  generalize hr : some (Outcome.ok st') = r at h
  induction h with
  | @turn _ first _ _ _ _ _ _ _ delivered _ ih =>
      obtain ⟨calls, message, heq, hp⟩ := ih hr
      refine ⟨⟨.receive, .ok first⟩ :: calls, message, ?_, hp⟩
      simp only [socketCalls_cons, socketCalls_append, delivered.socketCalls, heq]
      rfl
  | turnEnd parsed => exact ⟨[], _, rfl, parsed⟩
  | _ => cases hr

theorem ChunkRun.exchange {ttsConfig : TtsConfig} {text : Bytes} {metadata : ConnectionMetadata}
    {comp : Int64} {chunks : List TtsChunk} {t : SessionTrace}
    {r : Option (Outcome (Int64 × List TtsChunk))}
    (h : session.ChunkRun ttsConfig text metadata comp chunks t r) :
    session.Exchange ttsConfig text metadata (completed r) (socketCalls t) := by
  cases h with
  | configNotBuilt built => exact .nothing
  | configNotSent e built => exact .config _ built
  | ssmlNotBuilt built built' => exact .config _ built
  | ssmlNotSent e built built' => exact .ssml _ built built'
  | @listened _ _ _ _ _ r built built' loop =>
      have hcalls := loop.receives
      match r with
      | none => exact .received built built' hcalls
      | some (.fail e) => exact .received built built' hcalls
      | some (.escape x) => exact .received built built' hcalls
      | some (.ok st) =>
          obtain ⟨calls, message, heq, hp⟩ := loop.last_receive
          simp only [Option.map_some, checkAudio]
          split
          · exact .received built built' hcalls
          · simp only [socketCalls_cons, isSocketCall, heq]
            refine .completed built built' (fun ev hev => hcalls ev ?_) hp
            rw [heq]
            exact List.mem_append_left _ hev

/-- **The calls for one chunk** are a block, once the session has made the close that
it owes. -/
theorem Attempted.block {ttsConfig : TtsConfig} {text : Bytes} {comp : Int64}
    {chunks : List TtsChunk} {provider : EdgeTokenProvider} {attempt : Int} {t : SessionTrace}
    {r : Option (Outcome (Int64 × List TtsChunk × EdgeTokenProvider))}
    (h : session.Attempted ttsConfig text comp chunks provider attempt t r)
    (closed : Result Unit) :
    session.Block provider.config ttsConfig text
      (session.retryPolicy.maxRetries - attempt).toNat (completed r)
      (socketCalls t ++ owed r closed) := by
  induction h with
  | @refused provider attempt metadata now token e given last =>
      refine .refused ⟨provider, now, token, rfl, given, rfl⟩ ?_
      simp only [RetryPolicy.shouldRetry, Bool.and_eq_false_iff, beq_eq_false_iff_ne,
        decide_eq_false_iff_not] at last
      exact last.imp_right fun h => by omega
  | @retried provider attempt metadata now token e _ provider' _ _ given again corrected rest ih =>
      simp only [RetryPolicy.shouldRetry, Bool.and_eq_true, beq_iff_eq,
        decide_eq_true_eq] at again
      -- a retry uses up one of those that are left
      have hleft : (session.retryPolicy.maxRetries - attempt).toNat =
          (session.retryPolicy.maxRetries - (attempt + 1)).toNat + 1 := by omega
      rw [(correctSkew_runs corrected).2] at ih
      simpa [isSocketCall, correctSkew_socketCalls corrected, hleft] using
        Block.retried ⟨provider, now, token, rfl, given, rfl⟩ again.1 ih
  | @connected provider attempt metadata now token _ _ _ _ given run closing =>
      have own : session.IsUrl provider.config metadata (session.url provider metadata token) :=
        ⟨provider, now, token, rfl, given, rfl⟩
      have exchange := run.exchange
      cases closing with
      | running => simpa [isSocketCall, owed] using Block.served closed own exchange
      | escaped x => simpa [isSocketCall, owed] using Block.served closed own exchange
      | failed e c => simpa [isSocketCall, owed] using Block.served c own exchange
      | done b cs c => simpa [isSocketCall, owed] using Block.served c own exchange

/-- **The calls of a session** are blocks, once it has made the close that it owes. -/
theorem SessionRun.blocks {ttsConfig : TtsConfig} {texts : List Bytes} {cumulative : Int64}
    {chunks : List TtsChunk} {provider : EdgeTokenProvider} {t : SessionTrace}
    {r : Option (Outcome (List TtsChunk))}
    (h : session.SessionRun ttsConfig texts cumulative chunks provider t r)
    (closed : Result Unit) :
    session.Blocks provider.config ttsConfig texts (socketCalls t ++ owed r closed) := by
  induction h with
  | done => exact .none
  | cancelled => exact .none
  | running chunk => exact .last (by simpa [isSocketCall, owed] using chunk.block closed)
  | failed chunk => exact .last (by simpa [isSocketCall, owed] using chunk.block closed)
  | escaped chunk => exact .last (by simpa [isSocketCall, owed] using chunk.block closed)
  | next chunk sum rest ih =>
      have block := chunk.block closed
      rw [chunk.config_eq] at ih
      simpa [isSocketCall, owed] using Blocks.next (by simpa [owed] using block) ih

/-- **A session drives its socket through a fixed protocol.**  When it is over, its
calls are a block for each started chunk, in order; a session that is still waiting
for a message has made the calls of such a sequence but for the last close.  At no
time is a frame sent or a message received without an open connection, and a connect
that fails has nothing to close. -/
theorem synthesize_protocol {fuel : Nat} {ttsConfig : TtsConfig} {texts : List Bytes}
    {provider : EdgeTokenProvider} {t : SessionTrace} {r : Option (Outcome (List TtsChunk))}
    (run : (session.synthesize fuel ttsConfig texts provider).Runs t r)
    (calm : ¬ session.Thrown t) :
    (∀ result, r = some result →
      session.Blocks provider.config ttsConfig texts (socketCalls t) ∧
        connection false t = some false) ∧
    (r = none → connection false t = some true ∧ ∀ closed,
      session.Blocks provider.config ttsConfig texts (socketCalls t ++ [⟨.close, closed⟩])) := by
  have hrun := synthesize_runs run
  refine ⟨?_, ?_⟩
  · rintro result rfl
    refine ⟨?_, hrun.closed_iff.mpr calm⟩
    -- a session that has not thrown owes no close
    have hescaped : ¬ Escaped (some result) := fun h => calm (hrun.escaped_iff.mp h)
    cases result with
    | ok out => simpa [owed] using hrun.blocks (.ok ())
    | fail e => simpa [owed] using hrun.blocks (.ok ())
    | escape x => exact absurd ⟨x, rfl⟩ hescaped
  · rintro rfl
    exact ⟨hrun.connection_eq, hrun.blocks⟩

theorem synthesize_protocol_sample : ∃ t,
    sampleSession.Blocks defaultEdgeServiceConfig .defaults [lit "Hi", lit "Ho"] (socketCalls t) ∧
      connection false t = some false ∧ (conversations t).length = 2 := by
  obtain ⟨t, out, run, hconvs⟩ := sample_run parse_word [lit "Hi", lit "Ho"]
  obtain ⟨hblocks, hclosed⟩ := (synthesize_protocol run (synthesize_runs run).calm).1 _ rfl
  exact ⟨t, hblocks, hclosed, by rw [hconvs]; rfl⟩

/-! ## Untrusted data -/

/-- **Untrusted data can only produce an error value, but for a number that overflows.**
The three parsers return a value or their own error just where `json::parse` does not
throw `out_of_range`, and a session that is over has closed its connection just where
it has received no metadata message on which it does. -/
theorem untrusted_data (session : SynthesisSession) :
    (∀ message, (parseIncoming session.jsonParse message).OkOr .protocolError ↔
      ¬ Overflowing session.jsonParse message) ∧
    (∀ body, (MetadataJsonParser.parse session.jsonParse body).OkOr .parseError ↔
      session.jsonParse body ≠ .outOfRange) ∧
    (∀ body, (VoiceJsonParser.parse session.jsonParse body).OkOr .parseError ↔
      session.jsonParse body ≠ .outOfRange) ∧
    ∀ (fuel : Nat) (ttsConfig : TtsConfig) (texts : List Bytes) (provider : EdgeTokenProvider)
      (t : SessionTrace) (r : Outcome (List TtsChunk)),
      (session.synthesize fuel ttsConfig texts provider).Runs t (some r) →
      (connection false t = some false ↔
        ∀ message, ⟨.receive, .ok message⟩ ∈ t → ¬ Overflowing session.jsonParse message) := by
  refine ⟨parseIncoming_okOr_iff, MetadataJsonParser.parse_okOr_iff _,
    VoiceJsonParser.parse_okOr_iff _, ?_⟩
  intro fuel ttsConfig texts provider t r run
  rw [(synthesize_runs run).closed_iff, Thrown]
  simp only [not_exists, not_and]

/-- An accepted message, and a run that closes its connection. -/
theorem untrusted_data_sample :
    (parseIncoming sampleSession.jsonParse audioMessage).OkOr .protocolError ∧
      ∃ t, connection false t = some false ∧ (conversations t).length = 1 := by
  obtain ⟨hparse, -, -, hclosed⟩ := untrusted_data sampleSession
  refine ⟨(hparse audioMessage).mpr fun h => absurd h.1 (by simp [audioMessage]), ?_⟩
  obtain ⟨t, out, run, hconvs⟩ := sample_run parse_word [lit "Hi"]
  refine ⟨t, (hclosed _ _ _ _ t _ run).mpr fun message hmem h => ?_, by rw [hconvs]; rfl⟩
  exact (synthesize_runs run).calm ⟨message, hmem, h⟩

/-- The metadata `1e999` escapes every parser, and leaves the connection open. -/
theorem untrusted_data_overflow :
    parseIncoming sampleSession.jsonParse overflowMessage = .escape .jsonOutOfRange ∧
    MetadataJsonParser.parse sampleSession.jsonParse (lit "1e999") = .escape .jsonOutOfRange ∧
    VoiceJsonParser.parse sampleSession.jsonParse (lit "1e999") = .escape .jsonOutOfRange ∧
    ∃ t x, (sampleSession.synthesize 1 .defaults [lit "Hi"] sampleProvider).Runs t
      (some (.escape x)) ∧ connection false t = some true := by
  have hparse := parse_messages.2.2.1
  refine ⟨hparse, by decide, by decide, ?_⟩
  have thrown := (parseIncoming_escape_iff overflowMessage).mp ⟨_, hparse⟩
  obtain ⟨t, x, run, -⟩ := synthesize_thrown validateTtsConfig_defaults thrown 0
    (lit "Hi") [] ⟨lit "c0", lit "0f"⟩ sampleProvider
  exact ⟨t, x, run, (synthesize_runs run).connection_eq⟩

end SynthesisSession
end EdgeTts
