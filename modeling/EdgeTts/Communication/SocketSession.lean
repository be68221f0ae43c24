import EdgeTts.Communication.SessionTalks
import EdgeTts.Communication.WebSocketClient

/-!
# A session that drives the web socket

The owner of a `WebSocketClient` is a session, and the run threads of its connections fire
whenever they like (`Drives`).  A conversation of the session is then a prefix of what the run
thread of its own connection has pushed: a message that an earlier connection, or a refused one,
leaves behind is never heard in a later one (`Drives.heard_prefix`).  When the session returns,
no run thread is left (`Drives.runThread_eq_none`), and what it returns is what the threads have
pushed up to the first turn end of each (`socket_session`).
-/
namespace EdgeTts

open Channel (pushed popped)
open Interaction (Event)

/-- What the owner of the web socket sees of a call: the two ends of a `connect`, and the end of
any other. -/
inductive CallEnd where
  | connecting (url : Bytes)
  | connected (reply : Result Unit)
  | sent (payload : Bytes) (reply : Result Unit)
  | received (reply : Result WebSocketMessage)
  | closed (reply : Result Unit)

/-- What `send_text` returns. -/
def sendResult (success : Bool) : Result Unit :=
  if success then .ok () else .error ⟨.networkError, lit "WebSocket send_text failed", []⟩

/-- What the owner sees of an event of the client. -/
def ownerEnd : ClientEvent → Option CallEnd
  | .connect url => some (.connecting url)
  | .refused e => some (.connected (.error e))
  | .connected init => some (.connected (connectResult init))
  | .sendText payload success => some (.sent payload (sendResult success))
  | .received item => some (.received (receiveResult (some item)))
  | .timedOut => some (.received (receiveResult none))
  | .closed => some (.closed (.ok ()))
  | .joined | .cleared | .receive | .close | .callback _ _ => none

/-- The calls that an event of a session makes. -/
def callEnds : Event Command Reply → List CallEnd
  | ⟨.connect url, reply⟩ => [.connecting url, .connected reply]
  | ⟨.sendText payload, reply⟩ => [.sent payload reply]
  | ⟨.receive, reply⟩ => [.received reply]
  | ⟨.close, reply⟩ => [.closed reply]
  | _ => []

/-- The session `ts` makes the calls of the owner in `tc`, and gets their answers. -/
structure Drives (options : WebSocketClientOptions) (ts : SessionTrace) (tc : List ClientEvent)
    (c : WebSocketClient) : Prop where
  reached : Reaches options tc c
  calls : tc.filterMap ownerEnd = ts.flatMap callEnds

/-- A client reaches a state on the way to what it reaches. -/
theorem Reaches.before {options : WebSocketClientOptions} {t₁ t₂ : List ClientEvent}
    {c : WebSocketClient} (reached : Reaches options (t₁ ++ t₂) c) :
    ∃ c₁, Reaches options t₁ c₁ := by
  induction t₂ using List.reverseRecOn generalizing c with
  | nil => exact ⟨c, by simpa using reached⟩
  | append_singleton t₂ e ih =>
      rw [← List.append_assoc] at reached
      generalize ht : t₁ ++ t₂ ++ [e] = t at reached
      cases reached with
      | start => simp at ht
      | step before step =>
          obtain ⟨rfl, -⟩ := List.append_inj' ht rfl
          exact ih before

/-- **A session that has gone part of its way** drives the client part of its way. -/
theorem Drives.before {options : WebSocketClientOptions} {ts₁ ts₂ : SessionTrace}
    {tc : List ClientEvent} {c : WebSocketClient} (h : Drives options (ts₁ ++ ts₂) tc c) :
    ∃ tc₁ tc₂ c₁, tc = tc₁ ++ tc₂ ∧ Drives options ts₁ tc₁ c₁ := by
  have hcalls := h.calls
  rw [List.flatMap_append] at hcalls
  obtain ⟨tc₁, tc₂, rfl, hcalls₁, -⟩ := List.filterMap_eq_append_iff.mp hcalls
  obtain ⟨c₁, reached⟩ := h.reached.before
  exact ⟨tc₁, tc₂, c₁, rfl, reached, hcalls₁⟩

/-! ## What is heard on a connection -/

/-- The messages in a queue. -/
def QueueItem.message? : QueueItem → Option WebSocketMessage
  | .message m => some m
  | .error _ => none

/-- What has been heard since the last `connect`, after one more end of a call. -/
def hear (heard : List WebSocketMessage) : CallEnd → List WebSocketMessage
  | .connecting _ => []
  | .received (.ok message) => heard ++ [message]
  | _ => heard

/-- What the run thread of the connection has pushed. -/
def pushedBy (n : Nat) (t : List ClientEvent) : List QueueItem :=
  t.filterMap fun
    | .callback connection msg => if connection = n then onMessageCallback msg else none
    | _ => none

theorem pushedBy_append (n : Nat) (t t' : List ClientEvent) :
    pushedBy n (t ++ t') = pushedBy n t ++ pushedBy n t' := List.filterMap_append

/-- What has been popped is what the owner has heard, errors apart. -/
theorem popped_eq_heard (t : List ClientEvent) :
    (popped (observe 0 t)).filterMap QueueItem.message? =
      (t.filterMap ownerEnd).foldl hear [] := by
  induction t using List.reverseRecOn with
  | nil => rfl
  | append_singleton t e ih =>
      rw [observe_append, Nat.zero_add, popped, Channel.tally, List.foldl_append,
        List.filterMap_append, List.foldl_append, ← ih, popped, Channel.tally]
      cases e with
      | received item =>
          simp only [observe, operations, List.append_nil, List.foldl_cons, List.foldl_nil,
            Channel.Tally.record, List.filterMap_append]
          cases item with
          | message m => rfl
          | error e => exact List.append_nil _
      | callback connection msg =>
          simp only [observe, operations, List.append_nil]
          by_cases hn : connection = connectCount t
          · rw [if_pos hn]
            cases onMessageCallback msg <;> rfl
          · rw [if_neg hn]
            rfl
      | _ => rfl

/-- A run thread belongs to a connection that has been opened. -/
theorem Reaches.callback_le {options : WebSocketClientOptions} {t : List ClientEvent}
    {c : WebSocketClient} (reached : Reaches options t c) :
    ∀ n msg, .callback n msg ∈ t → n ≤ connectCount t := by
  induction reached with
  | start => nofun
  | @step t c e c' before step ih =>
      intro n msg hmem
      rw [connectCount_append]
      rcases List.mem_append.mp hmem with hmem | hmem
      · exact (ih n msg hmem).trans (Nat.le_add_right _ _)
      · obtain rfl := List.mem_singleton.mp hmem
        have inv := before.inv
        cases step with
        | callback msg running =>
            rw [← inv.counted]
            by_cases hphase : c.phase = .connecting
            · exact ((inv.earlier n running hphase).le).trans (Nat.le_add_right _ _)
            · exact (inv.current n running hphase).le.trans (Nat.le_add_right _ _)

/-- **What counts as pushed** is what the run thread of the last connection has pushed. -/
theorem Reaches.pushed_eq {options : WebSocketClientOptions} {t : List ClientEvent}
    {c : WebSocketClient} (reached : Reaches options t c) :
    pushed (observe 0 t) = pushedBy (connectCount t) t := by
  induction reached with
  | start => rfl
  | @step t c e c' before step ih =>
      rw [observe_append, Nat.zero_add, pushed, Channel.tally, List.foldl_append,
        connectCount_append, pushedBy_append]
      rw [pushed, Channel.tally] at ih
      cases e with
      | connect url =>
          -- no run thread can have the number of a connection to come
          have hnone : pushedBy (connectCount t + 1) t = [] := by
            refine List.filterMap_eq_nil_iff.mpr fun e he => ?_
            cases e with
            | callback n msg =>
                have := before.callback_le n msg he
                exact if_neg (by omega)
            | _ => rfl
          show [] = pushedBy (connectCount t + 1) t ++ []
          rw [hnone]
          rfl
      | callback connection msg =>
          simp only [observe, operations, List.append_nil]
          show _ = pushedBy (connectCount t) t ++ pushedBy (connectCount t) _
          rw [← ih]
          by_cases hn : connection = connectCount t
          · rw [if_pos hn]
            cases hmsg : onMessageCallback msg <;> simp [pushedBy, hn, hmsg, Channel.Tally.record]
          · rw [if_neg hn]
            simp [pushedBy, hn]
      | _ => exact ih.trans (List.append_nil _).symm

theorem mem_popped_observe {t : List ClientEvent} {item : QueueItem}
    (h : item ∈ popped (observe 0 t)) : .received item ∈ t := by
  induction t using List.reverseRecOn with
  | nil => cases h
  | append_singleton t e ih =>
      rw [observe_append, Nat.zero_add, popped, Channel.tally, List.foldl_append] at h
      cases e with
      | connect url => cases h
      | received item' =>
          rcases List.mem_append.mp h with h | h
          · exact List.mem_append_left _ (ih h)
          · rw [List.mem_singleton.mp h]
            simp
      | callback connection msg =>
          simp only [observe, operations, List.append_nil] at h
          refine List.mem_append_left _ (ih ?_)
          by_cases hn : connection = connectCount t
          · rw [if_pos hn] at h
            cases hmsg : onMessageCallback msg <;> rw [hmsg] at h <;> exact h
          · rw [if_neg hn] at h
            exact h
      | _ => exact List.mem_append_left _ (ih h)

/-! ## The connections of a session -/

def isConnect : Command → Bool
  | .connect _ => true
  | _ => false

/-- The number of connections that the session has asked for. -/
def connectsIn (ts : SessionTrace) : Nat := ts.countP fun ev => isConnect ev.1

def isConnecting : CallEnd → Bool
  | .connecting _ => true
  | _ => false

theorem connectCount_eq (tc : List ClientEvent) :
    connectCount tc = (tc.filterMap ownerEnd).countP isConnecting := by
  induction tc with
  | nil => rfl
  | cons e tc ih =>
      rw [connectCount, List.countP_cons, ← connectCount, ih]
      cases e with
      | connect url => exact (List.countP_cons_of_pos rfl).symm
      | _ => rfl

theorem connectsIn_eq (ts : SessionTrace) :
    connectsIn ts = (ts.flatMap callEnds).countP isConnecting := by
  induction ts with
  | nil => rfl
  | cons ev ts ih =>
      obtain ⟨c, reply⟩ := ev
      rw [connectsIn, List.countP_cons, ← connectsIn, ih, List.flatMap_cons, List.countP_append,
        Nat.add_comm]
      cases c <;> rfl

/-- The conversations, each with the number of its connection; `n` have been asked for before. -/
def numbered : Nat → SessionTrace → List (Nat × List WebSocketMessage)
  | _, [] => []
  | n, ev :: ts =>
      if opens ev then
        (n + 1, received (ts.takeWhile fun ev => !isClose ev.1)) :: numbered (n + 1) ts
      else numbered (if isConnect ev.1 then n + 1 else n) ts

theorem numbered_snd (n : Nat) (ts : SessionTrace) :
    (numbered n ts).map Prod.snd = conversations ts := by
  induction ts generalizing n with
  | nil => rfl
  | cons ev ts ih =>
      rw [numbered, conversations]
      by_cases hopens : opens ev = true
      · rw [if_pos hopens, if_pos hopens, List.map_cons, ih]
      · rw [if_neg hopens, if_neg hopens, ih]

/-- The numbers ascend. -/
theorem numbered_ascending (n : Nat) (ts : SessionTrace) :
    ((numbered n ts).map Prod.fst).Pairwise (· < ·) ∧
      ∀ k ∈ (numbered n ts).map Prod.fst, n < k := by
  induction ts generalizing n with
  | nil => exact ⟨.nil, nofun⟩
  | cons ev ts ih =>
      rw [numbered]
      by_cases hopens : opens ev = true
      · obtain ⟨hpair, hlow⟩ := ih (n + 1)
        rw [if_pos hopens, List.map_cons]
        refine ⟨.cons hlow hpair, List.forall_mem_cons.mpr ⟨Nat.lt_succ_self n, fun k hk => ?_⟩⟩
        exact (Nat.lt_succ_self n).trans (hlow k hk)
      · rw [if_neg hopens]
        obtain ⟨hpair, hlow⟩ := ih (if isConnect ev.1 then n + 1 else n)
        refine ⟨hpair, fun k hk => lt_of_le_of_lt ?_ (hlow k hk)⟩
        split
        · exact Nat.le_succ n
        · exact Nat.le_refl n

/-- While a connection is open there is no other `connect`. -/
theorem connection_true {ts : SessionTrace} {b : Bool} (h : connection true ts = some b)
    (unclosed : ∀ ev ∈ ts, isClose ev.1 = false) : ∀ ev ∈ ts, isConnect ev.1 = false := by
  induction ts with
  | nil => nofun
  | cons ev ts ih =>
      rw [connection_cons] at h
      obtain ⟨hev, hts⟩ := List.forall_mem_cons.mp unclosed
      obtain ⟨c, reply⟩ := ev
      cases c with
      | connect url => simp [connectionStep, isQuiet] at h
      | close => cases hev
      | _ => exact List.forall_mem_cons.mpr ⟨rfl, ih h hts⟩

/-- **Where a conversation stands in the session**: after its connect, and before another. -/
theorem mem_numbered {ts : SessionTrace} {b b' : Bool} (h : connection b ts = some b') {k n : Nat}
    {messages : List WebSocketMessage} (hmem : (n, messages) ∈ numbered k ts) :
    ∃ pre url mid rest, ts = pre ++ ⟨.connect url, .ok ()⟩ :: (mid ++ rest) ∧
      n = k + connectsIn pre + 1 ∧ messages = received mid ∧
      ∀ ev ∈ mid, isConnect ev.1 = false := by
  induction ts generalizing b k with
  | nil => cases hmem
  | cons ev ts ih =>
      rw [connection_cons] at h
      obtain ⟨b₁, hstep, hrest⟩ := Option.bind_eq_some_iff.mp h
      -- a conversation that comes later
      have hlater : ∀ {k'}, k' = k + connectsIn [ev] → (n, messages) ∈ numbered k' ts →
          ∃ pre url mid rest, ev :: ts = pre ++ ⟨.connect url, .ok ()⟩ :: (mid ++ rest) ∧
            n = k + connectsIn pre + 1 ∧ messages = received mid ∧
            ∀ ev ∈ mid, isConnect ev.1 = false := by
        intro k' hk' hmem
        obtain ⟨pre, url, mid, rest, rfl, hn, hmessages, hmid⟩ := ih hrest hmem
        refine ⟨ev :: pre, url, mid, rest, rfl, ?_, hmessages, hmid⟩
        have hcount : connectsIn ([ev] ++ pre) = connectsIn [ev] + connectsIn pre :=
          List.countP_append
        rw [List.singleton_append] at hcount
        rw [hn, hk', hcount]
        omega
      rw [numbered] at hmem
      by_cases hopens : opens ev = true
      · obtain ⟨url, rfl⟩ : ∃ url, ev = ⟨.connect url, .ok ()⟩ := by
          obtain ⟨c, reply⟩ := ev
          cases c with
          | connect url =>
              cases reply with
              | ok u => exact ⟨url, rfl⟩
              | error e => cases hopens
          | _ => cases hopens
        rw [if_pos hopens] at hmem
        rcases List.mem_cons.mp hmem with heq | hmem
        · cases heq
          have hsplit := List.takeWhile_append_dropWhile
            (p := fun ev : Event Command Reply => !isClose ev.1) (l := ts)
          refine ⟨[], url, ts.takeWhile fun ev => !isClose ev.1,
            ts.dropWhile fun ev => !isClose ev.1, by rw [hsplit]; rfl, rfl, rfl, ?_⟩
          have hb₁ : b₁ = true := by
            cases b with
            | false => exact (Option.some.inj hstep).symm
            | true => cases hstep
          rw [hb₁, ← hsplit, connection_append] at hrest
          obtain ⟨b₂, hmid, -⟩ := Option.bind_eq_some_iff.mp hrest
          refine connection_true hmid fun ev hev => ?_
          simpa using List.mem_takeWhile_imp hev
        · exact hlater rfl hmem
      · rw [if_neg hopens] at hmem
        refine hlater ?_ hmem
        cases hconnect : isConnect ev.1 <;> simp [connectsIn, hconnect]

/-- What is heard after a `connect` is what is received. -/
theorem hear_received {mid : SessionTrace} (h : ∀ ev ∈ mid, isConnect ev.1 = false)
    (heard : List WebSocketMessage) :
    (mid.flatMap callEnds).foldl hear heard = heard ++ received mid := by
  induction mid generalizing heard with
  | nil => exact (List.append_nil heard).symm
  | cons ev mid ih =>
      obtain ⟨hev, hmid⟩ := List.forall_mem_cons.mp h
      rw [List.flatMap_cons, List.foldl_append, ih hmid]
      obtain ⟨c, reply⟩ := ev
      cases c with
      | connect url => cases hev
      | receive =>
          cases reply with
          | ok message => simp [callEnds, hear]
          | error e => rfl
      | _ => rfl

/-- The session up to the end of a conversation. -/
theorem numbered_split {ts : SessionTrace} {b b' : Bool} (h : connection b ts = some b') {n : Nat}
    {messages : List WebSocketMessage} (hmem : (n, messages) ∈ numbered 0 ts) :
    ∃ ts₁ ts₂, ts = ts₁ ++ ts₂ ∧ connectsIn ts₁ = n ∧
      (ts₁.flatMap callEnds).foldl hear [] = messages := by
  obtain ⟨pre, url, mid, rest, rfl, rfl, rfl, hmid⟩ := mem_numbered h hmem
  refine ⟨pre ++ ⟨.connect url, .ok ()⟩ :: mid, rest, by simp, ?_, ?_⟩
  · have hzero : connectsIn mid = 0 := List.countP_eq_zero.mpr fun ev hev => by simp [hmid ev hev]
    rw [connectsIn, List.countP_append, List.countP_cons, ← connectsIn, ← connectsIn, hzero]
    simp [isConnect]
  · rw [List.flatMap_append, List.foldl_append, List.flatMap_cons, List.foldl_append,
      hear_received hmid]
    rfl

/-! ## What a session hears -/

section
variable {options : WebSocketClientOptions} {ts : SessionTrace} {tc : List ClientEvent}
  {c : WebSocketClient}

theorem Drives.connectCount_eq (h : Drives options ts tc c) : connectCount tc = connectsIn ts := by
  rw [EdgeTts.connectCount_eq, connectsIn_eq, h.calls]

/-- What the owner has popped is a prefix of what has been pushed on the connection. -/
theorem Drives.popped_prefix (h : Drives options ts tc c) :
    popped (observe 0 tc) <+: pushedBy (connectsIn ts) tc := by
  rw [← h.connectCount_eq, ← h.reached.pushed_eq]
  exact h.reached.channel.popped_prefix

/-- **A conversation is a prefix of what its own run thread has pushed**, however the threads
interleave. -/
theorem Drives.heard_prefix (h : Drives options ts tc c) {b : Bool}
    (accepted : connection false ts = some b) :
    ∀ p ∈ numbered 0 ts, p.2 <+: (pushedBy p.1 tc).filterMap QueueItem.message? := by
  rintro ⟨n, messages⟩ hmem
  obtain ⟨ts₁, ts₂, rfl, rfl, rfl⟩ := numbered_split accepted hmem
  obtain ⟨tc₁, tc₂, c₁, rfl, hbefore⟩ := h.before
  rw [← hbefore.calls, ← popped_eq_heard, pushedBy_append, List.filterMap_append]
  exact (hbefore.popped_prefix.filterMap _).trans (List.prefix_append _ _)

/-- Where every call of `receive` has succeeded, no error has been popped. -/
theorem Drives.popped_messages (h : Drives options ts tc c)
    (succeed : ∀ e, ⟨.receive, .error e⟩ ∉ ts) :
    popped (observe 0 tc) = ((ts.flatMap callEnds).foldl hear []).map .message := by
  have hall : ∀ item ∈ popped (observe 0 tc), ∃ m, item = .message m := by
    intro item hitem
    have hend : .received (receiveResult (some item)) ∈ tc.filterMap ownerEnd :=
      List.mem_filterMap.mpr ⟨_, mem_popped_observe hitem, rfl⟩
    rw [h.calls] at hend
    obtain ⟨⟨c, reply⟩, hev, hend⟩ := List.mem_flatMap.mp hend
    cases item with
    | message m => exact ⟨m, rfl⟩
    | error e =>
        cases c with
        | receive =>
            cases List.mem_singleton.mp hend
            exact absurd hev (succeed e)
        | _ => simp [callEnds] at hend
  rw [← h.calls, ← popped_eq_heard]
  generalize popped (observe 0 tc) = items at hall
  induction items with
  | nil => rfl
  | cons item items ih =>
      obtain ⟨⟨m, rfl⟩, hrest⟩ := List.forall_mem_cons.mp hall
      exact congrArg (QueueItem.message m :: ·) (ih hrest)

/-- In a session without a failed `receive`, a conversation is the beginning of all that its run
thread has pushed, errors included. -/
theorem Drives.pushed_prefix (h : Drives options ts tc c) {b : Bool}
    (accepted : connection false ts = some b) (succeed : ∀ e, ⟨.receive, .error e⟩ ∉ ts) :
    ∀ p ∈ numbered 0 ts, p.2.map QueueItem.message <+: pushedBy p.1 tc := by
  rintro ⟨n, messages⟩ hmem
  obtain ⟨ts₁, ts₂, rfl, rfl, rfl⟩ := numbered_split accepted hmem
  obtain ⟨tc₁, tc₂, c₁, rfl, hbefore⟩ := h.before
  rw [← hbefore.popped_messages fun e hmem => succeed e (List.mem_append_left _ hmem),
    pushedBy_append]
  exact hbefore.popped_prefix.trans (List.prefix_append _ _)

end

/-! ## What is left running -/

/-- Whether a connection has been opened and not closed, after one more end of a call. -/
def live (isOpen : Bool) : CallEnd → Bool
  | .connected (.ok _) => true
  | .closed _ => false
  | _ => isOpen

/-- A run thread belongs to a connection that has not been closed. -/
theorem Reaches.live_of_runThread {options : WebSocketClientOptions} {tc : List ClientEvent}
    {c : WebSocketClient} (reached : Reaches options tc c) (running : c.runThread ≠ none) :
    (tc.filterMap ownerEnd).foldl live false = true := by
  induction reached with
  | start => exact absurd rfl running
  | @step t c e c' before step ih =>
      rw [List.filterMap_append, List.foldl_append]
      cases step with
      | joined noProxy call => exact absurd rfl running
      | closed call => exact absurd rfl running
      | connected init call =>
          have hnone := before.inv.stopped (.inr call)
          by_cases hsuccess : init.success = true
          · have hok : connectResult init = .ok () := by rw [connectResult, if_pos hsuccess]
            simp [ownerEnd, hok, live]
          · rw [if_neg hsuccess] at running
            exact absurd hnone running
      | _ => exact ih running

theorem live_of_connection {ts : SessionTrace} {b b' : Bool} (h : connection b ts = some b') :
    (ts.flatMap callEnds).foldl live b = b' := by
  induction ts generalizing b with
  | nil => exact Option.some.inj h
  | cons ev ts ih =>
      rw [connection_cons] at h
      obtain ⟨b₁, hstep, hrest⟩ := Option.bind_eq_some_iff.mp h
      rw [List.flatMap_cons, List.foldl_append, ← ih hrest]
      congr 1
      obtain ⟨c, reply⟩ := ev
      cases b with
      | false =>
          cases c with
          | connect url => cases reply <;> exact Option.some.inj hstep
          | sendText payload => cases hstep
          | receive => cases hstep
          | close => cases hstep
          | _ => exact Option.some.inj hstep
      | true =>
          cases c with
          | connect url => cases hstep
          | _ => exact Option.some.inj hstep

/-- **No run thread is left** when the session has closed its connection. -/
theorem Drives.runThread_eq_none {options : WebSocketClientOptions} {ts : SessionTrace}
    {tc : List ClientEvent} {c : WebSocketClient} (h : Drives options ts tc c)
    (closed : connection false ts = some false) : c.runThread = none := by
  by_contra hrunning
  have hlive := h.reached.live_of_runThread hrunning
  rw [h.calls, live_of_connection closed] at hlive
  cases hlive

/-! ## A session that succeeds -/

namespace SynthesisSession
variable {session : SynthesisSession}

theorem Listened.receives_succeed {comp : Int64} {st st' : ChunkState} {t : SessionTrace}
    (run : session.Listened comp st t (some (.ok st'))) (e : Error) :
    ⟨.receive, .error e⟩ ∉ t := by
  generalize hr : some (Outcome.ok st') = r at run
  induction run with
  | turn _ _ delivered _ ih =>
      intro hmem
      rcases List.mem_append.mp (by simpa using hmem) with hmem | hmem
      · obtain ⟨a, b, hadd⟩ := delivered.adds _ hmem
        cases hadd
      · exact ih hr hmem
  | turnEnd parsed => simp
  | _ => cases hr

theorem Attempted.receives_succeed {ttsConfig : TtsConfig} {text : Bytes} {comp : Int64}
    {chunks chunks' : List TtsChunk} {provider provider' : EdgeTokenProvider} {attempt : Int}
    {t : SessionTrace} {chunkBoundaryEnd : Int64}
    (run : session.Attempted ttsConfig text comp chunks provider attempt t
      (some (.ok (chunkBoundaryEnd, chunks', provider')))) (e : Error) :
    ⟨.receive, .error e⟩ ∉ t := by
  generalize hr : some (Outcome.ok (chunkBoundaryEnd, chunks', provider')) = r at run
  induction run with
  | refused => cases hr
  | retried given again corrected rest ih =>
      intro hmem
      rcases List.mem_append.mp (by simpa using hmem) with hmem | hmem
      · have hnow := (correctSkew_runs corrected).1 _ hmem
        cases hnow
      · exact ih hr hmem
  | @connected _ _ _ _ _ t₁ r₁ _ _ given run closing =>
      subst hr
      cases closing with
      | done _ _ closed =>
          generalize hr₁ : some (Outcome.ok (chunkBoundaryEnd, chunks')) = r₁ at run
          cases run with
          | listened built built' loop =>
              obtain ⟨st, rfl, -⟩ := map_checkAudio_eq_ok.mp hr₁.symm
              simpa using loop.receives_succeed e
          | _ => cases hr₁

/-- A session that succeeds has received nothing but messages. -/
theorem SessionRun.receives_succeed {ttsConfig : TtsConfig} {texts : List Bytes}
    {cumulative : Int64} {chunks out : List TtsChunk} {provider : EdgeTokenProvider}
    {t : SessionTrace}
    (run : session.SessionRun ttsConfig texts cumulative chunks provider t (some (.ok out)))
    (e : Error) : ⟨.receive, .error e⟩ ∉ t := by
  generalize hr : some (Outcome.ok out) = r at run
  induction run with
  | done => exact List.not_mem_nil
  | next chunk sum rest ih =>
      intro hmem
      rcases List.mem_append.mp (by simpa using hmem) with hmem | hmem
      · exact chunk.receives_succeed e hmem
      · exact ih hr hmem
  | _ => cases hr

end SynthesisSession

/-- **A session and its web socket, under every interleaving.**  Each conversation of the session
is a prefix of what the run thread of its own connection has pushed; once the session has
returned a value or an error, no run thread is left; and a session that returns a value has
held one conversation for each text, each of them all that its run thread has pushed up to the
turn end, and returns what they hold. -/
theorem socket_session {session : SynthesisSession} {fuel : Nat} {ttsConfig : TtsConfig}
    {texts : List Bytes} {provider : EdgeTokenProvider} {ts : SessionTrace}
    {r : Option (Outcome (List TtsChunk))} {options : WebSocketClientOptions}
    {tc : List ClientEvent} {c : WebSocketClient}
    (run : (session.synthesize fuel ttsConfig texts provider).Runs ts r)
    (drives : Drives options ts tc c) :
    ((numbered 0 ts).map Prod.fst).Pairwise (· < ·) ∧
    (∀ p ∈ numbered 0 ts, p.2 <+: (pushedBy p.1 tc).filterMap QueueItem.message?) ∧
    (leftOpen r = false → c.runThread = none) ∧
    ∀ out, r = some (.ok out) → (numbered 0 ts).length = texts.length ∧
      (∀ p ∈ numbered 0 ts, p.2.map QueueItem.message <+: pushedBy p.1 tc ∧
        session.WholeTurn p.2 ∧ (session.contents p.2).any isAudio = true) ∧
      out.map TtsChunk.untimed =
        ((numbered 0 ts).flatMap fun p => session.contents p.2).map TtsChunk.untimed := by
  have hrun := SynthesisSession.synthesize_runs run
  have hconnection := hrun.connection_eq
  refine ⟨(numbered_ascending 0 ts).1, drives.heard_prefix hconnection, fun hclosed => ?_, ?_⟩
  · rw [hclosed] at hconnection
    exact drives.runThread_eq_none hconnection
  · rintro out rfl
    obtain ⟨talks, habout, -, hconvs, hturns, hout⟩ := hrun.talks
    have hsnd := (numbered_snd 0 ts).trans hconvs
    have hpushed := drives.pushed_prefix hconnection hrun.receives_succeed
    refine ⟨?_, fun p hp => ⟨hpushed p hp, ?_⟩, ?_⟩
    · have hlen := congrArg List.length hsnd
      rw [List.length_map, List.length_map] at hlen
      exact hlen.trans habout.length_eq.symm
    · have hmem : p.2 ∈ talks.map Talk.messages := hsnd ▸ List.mem_map_of_mem hp
      obtain ⟨talk, htalk, heq⟩ := List.mem_map.mp hmem
      exact heq ▸ (hturns talk htalk).2
    · have hflat : ((numbered 0 ts).flatMap fun p => session.contents p.2) =
          talks.flatMap fun talk => session.contents talk.messages := by
        rw [← List.flatMap_map (g := session.contents) Prod.snd, hsnd, List.flatMap_map]
      rw [hout, hflat]
      rfl

/-! ## A socket that serves a session -/

/-- The message of the library that is pushed as this one. -/
def ixMessage (message : WebSocketMessage) : IxMessage :=
  match message.type with
  | .text => { type := .message, str := message.text }
  | .binary => { type := .message, binary := true, str := message.binary }

/-- The call succeeds, with a message that the library can have pushed. -/
def Succeeds : Event Command Reply → Prop
  | ⟨.connect _, reply⟩ => reply = .ok ()
  | ⟨.sendText _, reply⟩ => reply = .ok ()
  | ⟨.receive, reply⟩ =>
      ∃ m, reply = .ok m ∧ onMessageCallback (ixMessage m) = some (.message m)
  | ⟨.close, reply⟩ => reply = .ok ()
  | _ => True

/-- **A session whose calls succeed can be served**, by a socket that has pushed each message
just before it is asked for. -/
theorem exists_drives {ts : SessionTrace} {b : Bool} (accepted : connection false ts = some b)
    (succeed : ∀ ev ∈ ts, Succeeds ev) : ∃ tc c, Drives {} ts tc c ∧ c.options = {} ∧
      c.phase = .idle ∧ c.incoming = [] ∧ (b = true → c.runThread = some c.connects) := by
  induction ts using List.reverseRecOn generalizing b with
  | nil =>
      cases accepted
      exact ⟨[], _, ⟨.start, rfl⟩, rfl, rfl, rfl, nofun⟩
  | append_singleton ts ev ih =>
      rw [connection_append] at accepted
      obtain ⟨b₁, hts, hev⟩ := Option.bind_eq_some_iff.mp accepted
      rw [connection_cons] at hev
      obtain ⟨b₂, hstep, hb⟩ := Option.bind_eq_some_iff.mp hev
      cases hb
      obtain ⟨hsucceed, hlast⟩ := List.forall_mem_append.mp succeed
      obtain ⟨tc, c, ⟨reached, hcalls⟩, hoptions, hidle, hempty, hrunning⟩ := ih hts hsucceed
      have hsuc := hlast ev (List.mem_singleton_self ev)
      obtain ⟨cmd, reply⟩ := ev
      -- what is left of the state when the call changes nothing
      have hsame : callEnds ⟨cmd, reply⟩ = [] → b = b₁ →
          ∃ tc c, Drives {} (ts ++ [⟨cmd, reply⟩]) tc c ∧ c.options = {} ∧ c.phase = .idle ∧
            c.incoming = [] ∧ (b = true → c.runThread = some c.connects) := by
        rintro hends rfl
        refine ⟨tc, c, ⟨reached, ?_⟩, hoptions, hidle, hempty, hrunning⟩
        rw [hcalls, List.flatMap_append, List.flatMap_singleton, hends, List.append_nil]
      cases cmd with
      | connect url =>
          cases hsuc
          have hproxy : proxyGuard c.options = none := by rw [hoptions]; rfl
          refine ⟨_, _, ⟨(((reached.step (.connect url hidle)).step (.joined hproxy rfl)).step
            (.cleared rfl)).step (.connected { success := true } rfl), ?_⟩, hoptions, rfl, rfl,
            fun _ => rfl⟩
          simp [hcalls, ownerEnd, callEnds, connectResult]
          rfl
      | sendText payload =>
          cases hsuc
          cases b₁ with
          | false => cases hstep
          | true =>
              cases hstep
              refine ⟨_, _, ⟨reached.step (.sendText payload true hidle), ?_⟩, hoptions, hidle,
                hempty, hrunning⟩
              simp [hcalls, ownerEnd, callEnds, sendResult]
      | receive =>
          obtain ⟨m, rfl, hpush⟩ := hsuc
          cases b₁ with
          | false => cases hstep
          | true =>
              cases hstep
              have hqueue : c.incoming ++ (onMessageCallback (ixMessage m)).toList =
                  [QueueItem.message m] := by
                rw [hempty, hpush]
                rfl
              have harrived := (reached.step (.callback (ixMessage m) (hrunning rfl))).step
                (.receive hidle)
              refine ⟨_, _, ⟨harrived.step (.received rfl hqueue), ?_⟩, hoptions, rfl, rfl,
                hrunning⟩
              simp [hcalls, ownerEnd, callEnds, receiveResult]
              rfl
      | close =>
          cases hsuc
          cases b₁ with
          | false => cases hstep
          | true =>
              cases hstep
              refine ⟨_, _, ⟨(reached.step (.close hidle)).step (.closed rfl), ?_⟩, hoptions, rfl,
                hempty, nofun⟩
              simp [hcalls, ownerEnd, callEnds]
              rfl
      | _ => exact hsame rfl (by cases b₁ <;> exact (Option.some.inj hstep).symm)

/-- A service that sends one byte of audio and then turn ends. -/
def sampleService : Interaction.Environment Command Reply Bool
  | .isCancelled, sent => (false, sent)
  | .createForRequest, sent => (⟨lit "c0", lit "0f"⟩, sent)
  | .now, sent => (0, sent)
  | .connect _, sent => (.ok (), sent)
  | .sendText _, sent => (.ok (), sent)
  | .receive, sent => (.ok (if sent then turnEndMessage else audioMessage), true)
  | .close, sent => (.ok (), sent)
  | .add a b, sent => (Sum64.wrapping a b, sent)

/-- One chunk of one byte. -/
theorem socket_session_sample :
    let run := (sampleSession.synthesize 3 .defaults [lit "Hi"] sampleProvider).runIn
      sampleService false
    ∃ tc c, Drives {} run.trace tc c ∧ c.runThread = none ∧
      ∀ p ∈ numbered 0 run.trace, p.2.map QueueItem.message <+: pushedBy p.1 tc := by
  intro run
  have hrun : (sampleSession.synthesize 3 .defaults [lit "Hi"] sampleProvider).Runs run.trace
      run.result := Interaction.Prog.runs_runIn _ _ _
  have hok : run.result.any (fun r => match r with
      | .ok _ => true
      | _ => false) = true := by decide +kernel
  obtain ⟨r, hresult, hr⟩ := (Option.any_eq_true _ _).mp hok
  obtain ⟨out, rfl⟩ : ∃ out, r = .ok out := by
    split at hr
    · exact ⟨_, rfl⟩
    · cases hr
  have hsucceed : ∀ ev ∈ run.trace, Succeeds ev := by
    rintro ⟨cmd, reply⟩ hev
    obtain ⟨sent, heq⟩ := Interaction.Prog.replies_runIn sampleService _ false _ hev
    cases cmd with
    | receive => cases sent <;> exact ⟨_, heq, rfl⟩
    | _ => first | exact heq | trivial
  obtain ⟨tc, c, hdrives, -⟩ :=
    exists_drives (SynthesisSession.synthesize_runs hrun).connection_eq hsucceed
  obtain ⟨-, -, hclosed, hout⟩ := socket_session hrun hdrives
  obtain ⟨-, hall, -⟩ := hout out hresult
  exact ⟨tc, c, hdrives, hclosed (by rw [hresult]; rfl), fun p hp => (hall p hp).1⟩

end EdgeTts
