import EdgeTts.Communication.EdgeProtocolIncoming
import EdgeTts.Lib.Channel

/-!
# `communication/WebSocketClient.cpp`

Two parties share the queue `incoming`: the owner, who calls `connect`, `receive` and
`close`, and the run thread of the connection, which fires the message callback.  `Step` is
what either of them does next; a call is as many steps as the other party can see, so the
run thread may fire at any point of it.  What is relied on of ixwebsocket is in `Step` as
well: only the run thread fires (`callback`), and none does once it has been joined.

`view` is the queue as the owner of the last connection sees it.  It is a channel that
`connect` resets (`Reaches.channel`), so the client is a FIFO for each connection
(`receive_fifo`), although the queue still holds the items of the connection before while
`connect` is stopping it.
-/
namespace EdgeTts

open Channel (Op Run pushed popped)

/-- `sanitize_proxy_url`. -/
def sanitizeProxyUrl (url : Bytes) : Bytes :=
  match Search.find (lit "://") url with
  | none => url
  | some schemeEnd =>
      let authStart := schemeEnd + 3
      match Search.findFrom 0x40 url authStart with
      | none => url
      | some atPos => url.take authStart ++ lit "[credentials]" ++ url.drop atPos

/-! ## The library's messages and results -/

/-- `ix::WebSocketMessageType`. -/
inductive IxMessageType where
  | message
  | «open»
  | close
  | error
  | ping
  | pong
  | fragment
  deriving DecidableEq, Repr

/-- `ix::WebSocketMessage`, with its `errorInfo` and `closeInfo`. -/
structure IxMessage where
  type : IxMessageType
  binary : Bool := false
  str : Bytes := []
  errorReason : Bytes := []
  closeCode : UInt16 := 0
  closeReason : Bytes := []
  deriving DecidableEq, Repr

/-- `ix::WebSocketInitResult`. -/
structure InitResult where
  success : Bool
  httpStatus : Int := 0
  errorStr : Bytes := []
  headers : List (Bytes × Bytes) := []
  deriving DecidableEq, Repr

/-- `std::tolower` in the C locale. -/
def toLower (c : UInt8) : UInt8 := if 0x41 ≤ c ∧ c ≤ 0x5A then c + 0x20 else c

/-- `headers.find(name)`, whose names differ by more than case. -/
def InitResult.findHeader (init : InitResult) (name : Bytes) : Option Bytes :=
  (init.headers.find? fun h => h.1.map toLower == name.map toLower).map Prod.snd

/-- What a successful or failed `ws.connect` is turned into. -/
def connectResult (init : InitResult) : Result Unit :=
  let errorStr := if init.errorStr.isEmpty then lit "WebSocket connect failed" else init.errorStr
  if init.success then .ok ()
  else if init.httpStatus = 403 then
    .error ⟨.drmError, errorStr, (init.findHeader (lit "Date")).getD []⟩
  else .error ⟨.networkError, errorStr, []⟩

/-! ## The queue -/

inductive QueueItem where
  | message (message : WebSocketMessage)
  | error (error : Error)
  deriving DecidableEq, Repr

/-- The message callback: what it pushes. -/
def onMessageCallback (msg : IxMessage) : Option QueueItem :=
  match msg.type with
  | .message =>
      if msg.binary then some (.message { type := .binary, binary := msg.str })
      else some (.message { type := .text, text := msg.str })
  | .error =>
      some (.error ⟨.networkError,
        if msg.errorReason.isEmpty then lit "WebSocket error" else msg.errorReason, []⟩)
  | .close =>
      if msg.closeCode ≠ 1000 ∨ !msg.closeReason.isEmpty then
        some (.error ⟨.networkError, lit "WebSocket closed by server", []⟩)
      else none
  | _ => none

/-- What `receive` returns: the item it has popped, or none. -/
def receiveResult : Option QueueItem → Result WebSocketMessage
  | some (.message message) => .ok message
  | some (.error e) => .error e
  | none => .error ⟨.timeout, lit "WebSocket receive timed out", []⟩

structure WebSocketClientOptions where
  proxy : Option Bytes := none

/-- The guard at the top of `connect`. -/
def proxyGuard (options : WebSocketClientOptions) : Option Error :=
  options.proxy.map fun proxy => ⟨.unsupported,
    lit "WebSocket proxy is not supported by the ixwebsocket " ++
      lit "networking backend; remove --proxy to proceed without a proxy",
    sanitizeProxyUrl proxy⟩

/-! ## The two parties -/

/-- Where the owner is in its call. -/
inductive Phase where
  | idle
  /-- In `connect`, before the previous run thread has been joined. -/
  | connecting
  /-- In `connect`, before the queue has been emptied. -/
  | joined
  /-- In `connect`, before the answer of `ws.connect`. -/
  | cleared
  | receiving
  | closing
  deriving DecidableEq, Repr

/-- `WebSocketClient::Impl`; connections are numbered by the calls of `connect`. -/
structure WebSocketClient where
  options : WebSocketClientOptions
  incoming : List QueueItem := []
  runThread : Option Nat := none
  phase : Phase := .idle
  connects : Nat := 0

inductive ClientEvent where
  | connect (url : Bytes)
  /-- `connect` returns the error of its proxy guard. -/
  | refused (e : Error)
  /-- `stop_and_join` of `connect` is over. -/
  | joined
  | cleared
  /-- `connect` returns `connectResult init`. -/
  | connected (init : InitResult)
  | sendText (payload : Bytes) (success : Bool)
  | receive
  /-- `receive` returns `receiveResult (some item)`. -/
  | received (item : QueueItem)
  /-- `receive` returns `receiveResult none`. -/
  | timedOut
  | close
  | closed
  /-- The run thread of the connection fires the message callback. -/
  | callback (connection : Nat) (msg : IxMessage)

open Phase in
/-- What the owner or the run thread does next. -/
inductive Step : WebSocketClient → ClientEvent → WebSocketClient → Prop
  | connect {c} (url : Bytes) (free : c.phase = idle) :
      Step c (.connect url) { c with phase := connecting, connects := c.connects + 1 }
  | refused {c e} (guarded : proxyGuard c.options = some e) (call : c.phase = connecting) :
      Step c (.refused e) { c with phase := idle }
  | joined {c} (noProxy : proxyGuard c.options = none) (call : c.phase = connecting) :
      Step c .joined { c with phase := joined, runThread := none }
  | cleared {c} (call : c.phase = joined) :
      Step c .cleared { c with phase := cleared, incoming := [] }
  | connected {c} (init : InitResult) (call : c.phase = cleared) :
      Step c (.connected init) { c with
        phase := idle
        runThread := if init.success then some c.connects else c.runThread }
  | sendText {c} (payload : Bytes) (success : Bool) (free : c.phase = idle) :
      Step c (.sendText payload success) c
  | receive {c} (free : c.phase = idle) : Step c .receive { c with phase := receiving }
  | received {c item rest} (call : c.phase = receiving) (arrived : c.incoming = item :: rest) :
      Step c (.received item) { c with phase := idle, incoming := rest }
  | timedOut {c} (call : c.phase = receiving) (empty : c.incoming = []) :
      Step c .timedOut { c with phase := idle }
  | close {c} (free : c.phase = idle) : Step c .close { c with phase := closing }
  | closed {c} (call : c.phase = closing) :
      Step c .closed { c with phase := idle, runThread := none }
  | callback {c connection} (msg : IxMessage) (running : c.runThread = some connection) :
      Step c (.callback connection msg)
        { c with incoming := c.incoming ++ (onMessageCallback msg).toList }

/-- The client can come into the state `c` by the events `t`. -/
inductive Reaches (options : WebSocketClientOptions) : List ClientEvent → WebSocketClient → Prop
  | start : Reaches options [] { options }
  | step {t c e c'} (before : Reaches options t c) (step : Step c e c') :
      Reaches options (t ++ [e]) c'

/-! ## The channel of the last connection -/

/-- The queue, as the owner of the last connection sees it. -/
def view (c : WebSocketClient) : List QueueItem :=
  match c.phase with
  | .connecting => []
  | .joined => []
  | _ => c.incoming

/-- What an event is to the connection with the number `n`. -/
def operations (n : Nat) : ClientEvent → List (Op QueueItem)
  | .connect _ => [.reset]
  | .received item => [.pop item]
  | .callback connection msg =>
      if connection = n then (onMessageCallback msg).toList.map .push else []
  | _ => []

/-- What the events of a trace are, each to the connection opened last; `n` connections have
been opened before. -/
def observe : Nat → List ClientEvent → List (Op QueueItem)
  | _, [] => []
  | n, .connect url :: t => operations n (.connect url) ++ observe (n + 1) t
  | n, e :: t => operations n e ++ observe n t

/-- The number of connections that have been opened. -/
def connectCount (t : List ClientEvent) : Nat :=
  t.countP fun | .connect _ => true | _ => false

theorem observe_append (n : Nat) (t t' : List ClientEvent) :
    observe n (t ++ t') = observe n t ++ observe (n + connectCount t) t' := by
  induction t generalizing n with
  | nil => rfl
  | cons e t ih =>
      cases e with
      | connect url =>
          have hcount : n + connectCount (.connect url :: t) = n + 1 + connectCount t := by
            simp [connectCount]
            omega
          rw [List.cons_append, observe, observe, ih, hcount, List.append_assoc]
      | _ =>
          rw [List.cons_append, observe, observe, ih, List.append_assoc]
          · rfl
          · exact nofun
          · exact nofun

theorem connectCount_append (t t' : List ClientEvent) :
    connectCount (t ++ t') = connectCount t + connectCount t' := by
  rw [connectCount, List.countP_append]
  rfl

/-- What counts as pushed was pushed by the connection opened last. -/
theorem mem_pushed_observe {t : List ClientEvent} {item : QueueItem}
    (h : item ∈ pushed (observe 0 t)) :
    ∃ msg, .callback (connectCount t) msg ∈ t ∧ onMessageCallback msg = some item := by
  induction t using List.reverseRecOn with
  | nil => cases h
  | append_singleton t e ih =>
      rw [observe_append, Nat.zero_add, pushed, Channel.tally, List.foldl_append] at h
      rw [connectCount_append]
      cases e with
      | connect url => cases h
      | callback connection msg =>
          simp only [observe, operations, List.append_nil] at h
          by_cases hn : connection = connectCount t
          · rw [if_pos hn] at h
            cases hmsg : onMessageCallback msg with
            | none =>
                rw [hmsg] at h
                obtain ⟨msg', hmem, heq⟩ := ih h
                exact ⟨msg', List.mem_append_left _ hmem, heq⟩
            | some item' =>
                rw [hmsg] at h
                rcases List.mem_append.mp h with h | h
                · obtain ⟨msg', hmem, heq⟩ := ih h
                  exact ⟨msg', List.mem_append_left _ hmem, heq⟩
                · rw [List.mem_singleton.mp h]
                  exact ⟨msg, by rw [hn]; simp [connectCount], hmsg⟩
          · rw [if_neg hn] at h
            obtain ⟨msg', hmem, heq⟩ := ih h
            exact ⟨msg', List.mem_append_left _ hmem, heq⟩
      | _ =>
          obtain ⟨msg', hmem, heq⟩ := ih h
          exact ⟨msg', List.mem_append_left _ hmem, heq⟩

/-- What every reachable state keeps. -/
structure ClientInv (t : List ClientEvent) (c : WebSocketClient) : Prop where
  counted : c.connects = connectCount t
  /-- Only while `connect` has not joined it, a run thread is that of an earlier connection. -/
  current : ∀ n, c.runThread = some n → c.phase ≠ .connecting → n = c.connects
  earlier : ∀ n, c.runThread = some n → c.phase = .connecting → n < c.connects
  stopped : c.phase = .joined ∨ c.phase = .cleared → c.runThread = none
  emptied : c.phase = .cleared → c.incoming = []
  /-- Behind a proxy there is no connection at all. -/
  proxied : (proxyGuard c.options).isSome →
    c.incoming = [] ∧ c.runThread = none ∧ c.phase ≠ .joined ∧ c.phase ≠ .cleared

theorem ClientInv.start (options : WebSocketClientOptions) : ClientInv [] { options } :=
  ⟨rfl, nofun, nofun, fun _ => rfl, fun _ => rfl, fun _ => ⟨rfl, rfl, nofun, nofun⟩⟩

theorem Step.connects_eq {c c' : WebSocketClient} {e : ClientEvent} (step : Step c e c') :
    c'.connects = c.connects + connectCount [e] := by
  cases step <;> rfl

/-- The owner goes on, outside `connect`. -/
theorem ClientInv.phase {t : List ClientEvent} {c : WebSocketClient} {e : ClientEvent} {p : Phase}
    (inv : ClientInv t c) (hcounted : c.connects = connectCount (t ++ [e]))
    (hcall : c.phase ≠ .connecting) (hp : p ≠ .connecting ∧ p ≠ .joined ∧ p ≠ .cleared) :
    ClientInv (t ++ [e]) { c with phase := p } where
  counted := hcounted
  current := fun n hn _ => inv.current n hn hcall
  earlier := fun _ _ hphase => absurd hphase hp.1
  stopped := fun hphase => hphase.elim (absurd · hp.2.1) (absurd · hp.2.2)
  emptied := fun hphase => absurd hphase hp.2.2
  proxied := fun hproxy =>
    ⟨(inv.proxied hproxy).1, (inv.proxied hproxy).2.1, hp.2.1, hp.2.2⟩

/-- **A step keeps the invariant.** -/
theorem ClientInv.step {t : List ClientEvent} {c c' : WebSocketClient} {e : ClientEvent}
    (inv : ClientInv t c) (step : Step c e c') : ClientInv (t ++ [e]) c' := by
  have hcounted : c'.connects = connectCount (t ++ [e]) := by
    rw [connectCount_append, ← inv.counted]
    exact step.connects_eq
  cases step with
  | connect url free =>
      refine ⟨hcounted, nofun, ?_, nofun, nofun, ?_⟩
      · intro n hn _
        have := inv.current n hn (by rw [free]; nofun)
        show n < c.connects + 1
        omega
      · intro hproxy
        exact ⟨(inv.proxied hproxy).1, (inv.proxied hproxy).2.1, nofun, nofun⟩
  | refused guarded call =>
      have hproxied := inv.proxied (by rw [guarded]; rfl)
      refine ⟨hcounted, ?_, nofun, nofun, nofun, ?_⟩
      · intro n hn
        rw [hproxied.2.1] at hn
        cases hn
      · intro _
        exact ⟨hproxied.1, hproxied.2.1, nofun, nofun⟩
  | joined noProxy call =>
      refine ⟨hcounted, nofun, nofun, fun _ => rfl, nofun, ?_⟩
      intro hproxy
      rw [noProxy] at hproxy
      cases hproxy
  | cleared call =>
      have hnone := inv.stopped (Or.inl call)
      refine ⟨hcounted, ?_, ?_, fun _ => hnone, fun _ => rfl, ?_⟩
      · intro n hn
        rw [hnone] at hn
        cases hn
      · intro n hn
        rw [hnone] at hn
        cases hn
      · intro hproxy
        exact absurd call (inv.proxied hproxy).2.2.1
  | connected init call =>
      have hnone := inv.stopped (Or.inr call)
      refine ⟨hcounted, ?_, nofun, nofun, nofun, ?_⟩
      · intro n hn _
        by_cases hsuccess : init.success = true
        · simp only [if_pos hsuccess, Option.some.injEq] at hn
          exact hn.symm
        · simp only [if_neg hsuccess, hnone] at hn
          cases hn
      · intro hproxy
        exact absurd call (inv.proxied hproxy).2.2.2
  | sendText payload success free =>
      exact ⟨hcounted, inv.current, inv.earlier, inv.stopped, inv.emptied, inv.proxied⟩
  | receive free =>
      exact inv.phase hcounted (by rw [free]; nofun) ⟨nofun, nofun, nofun⟩
  | received call arrived =>
      refine ⟨hcounted, ?_, nofun, nofun, nofun, ?_⟩
      · intro n hn _
        exact inv.current n hn (by rw [call]; nofun)
      · intro hproxy
        rw [(inv.proxied hproxy).1] at arrived
        cases arrived
  | timedOut call empty =>
      exact inv.phase hcounted (by rw [call]; nofun) ⟨nofun, nofun, nofun⟩
  | close free =>
      exact inv.phase hcounted (by rw [free]; nofun) ⟨nofun, nofun, nofun⟩
  | closed call =>
      refine ⟨hcounted, nofun, nofun, nofun, nofun, ?_⟩
      intro hproxy
      exact ⟨(inv.proxied hproxy).1, rfl, nofun, nofun⟩
  | callback msg running =>
      refine ⟨hcounted, inv.current, inv.earlier, inv.stopped, ?_, ?_⟩
      · intro hcleared
        rw [inv.stopped (Or.inr hcleared)] at running
        cases running
      · intro hproxy
        rw [(inv.proxied hproxy).2.1] at running
        cases running

/-- **A step is what it is observed to be** of the channel of the last connection. -/
theorem Step.channel {t : List ClientEvent} {c c' : WebSocketClient} {e : ClientEvent}
    (inv : ClientInv t c) (step : Step c e c') :
    Run (view c) (operations c.connects e) (view c') := by
  cases step with
  | connect url free => exact .reset (.nil [])
  | refused guarded call =>
      have hempty := (inv.proxied (by rw [guarded]; rfl)).1
      simp only [view, call, hempty]
      exact .nil []
  | joined noProxy call =>
      simp only [view, call]
      exact .nil []
  | cleared call =>
      simp only [view, call]
      exact .nil []
  | connected init call =>
      simp only [view, call]
      exact .nil _
  | sendText payload success free => exact .nil _
  | receive free =>
      simp only [view, free]
      exact .nil _
  | received call arrived =>
      simp only [view, call, arrived]
      exact .pop (.nil _)
  | timedOut call empty =>
      simp only [view, call]
      exact .nil _
  | close free =>
      simp only [view, free]
      exact .nil _
  | closed call =>
      simp only [view, call]
      exact .nil _
  | @callback connection msg running =>
      by_cases hconnecting : c.phase = .connecting
      · -- a late callback of the connection before
        have hn := inv.earlier connection running hconnecting
        rw [operations, if_neg (by omega)]
        simp only [view, hconnecting]
        exact .nil []
      · have hn := inv.current connection running hconnecting
        have hjoined : c.phase ≠ .joined := by
          intro hjoined
          rw [inv.stopped (Or.inl hjoined)] at running
          cases running
        have hview : ∀ incoming, view { c with incoming } = incoming := by
          intro incoming
          cases hphase : c.phase <;> simp_all [view]
        rw [operations, if_pos hn, show view c = c.incoming from hview c.incoming, hview]
        exact Channel.run_pushes _ _

theorem Reaches.inv {options : WebSocketClientOptions} {t : List ClientEvent}
    {c : WebSocketClient} (reached : Reaches options t c) : ClientInv t c := by
  induction reached with
  | start => exact .start options
  | step _ step ih => exact ih.step step

/-- **The client is the channel of its last connection**, in every state that it can reach. -/
theorem Reaches.channel {options : WebSocketClientOptions} {t : List ClientEvent}
    {c : WebSocketClient} (reached : Reaches options t c) : Run [] (observe 0 t) (view c) := by
  induction reached with
  | start => exact .nil []
  | @step t c e c' before step ih =>
      have inv := before.inv
      rw [observe_append, Nat.zero_add, ← inv.counted]
      refine ih.append ?_
      have hstep := step.channel inv
      cases e <;> simpa [observe] using hstep

/-- **`WebSocketClient` is a faithful FIFO for each connection.**  However the owner and the
run threads interleave, what `receive` has returned since the last `connect` is a prefix of
what the run thread of that connection has pushed, and nothing else; outside `connect` the
rest is in the queue; and a timeout consumes nothing. -/
theorem receive_fifo {options : WebSocketClientOptions} {t : List ClientEvent}
    {c : WebSocketClient} (reached : Reaches options t c) :
    popped (observe 0 t) <+: pushed (observe 0 t) ∧
    (∀ item ∈ pushed (observe 0 t), ∃ msg, .callback c.connects msg ∈ t ∧
      onMessageCallback msg = some item) ∧
    (c.phase ≠ .connecting → c.phase ≠ .joined →
      pushed (observe 0 t) = popped (observe 0 t) ++ c.incoming) ∧
    ∀ c', Step c .timedOut c' → c.incoming = [] ∧ c'.incoming = c.incoming := by
  refine ⟨reached.channel.popped_prefix, ?_, ?_, ?_⟩
  · intro item hitem
    rw [reached.inv.counted]
    exact mem_pushed_observe hitem
  · intro hconnecting hjoined
    have hview : view c = c.incoming := by
      cases hphase : c.phase <;> simp_all [view]
    rw [← hview]
    exact reached.channel.pushed_eq
  · intro c' step
    cases step with
    | timedOut call empty => exact ⟨empty, rfl⟩

/-- A message of the first connection that arrives while the second `connect` stops it. -/
theorem receive_fifo_late :
    ∃ t, observe 0 t = [.reset, .reset, .push (.message { type := .text, text := lit "new" }),
        .pop (.message { type := .text, text := lit "new" })] ∧
      .callback 1 { type := .message, str := lit "old" } ∈ t ∧
      popped (observe 0 t) <+: pushed (observe 0 t) := by
  let opened (n : Nat) (incoming : List QueueItem) : WebSocketClient :=
    { options := {}, incoming, runThread := some n, connects := n }
  have first : Reaches {} [.connect [], .joined, .cleared, .connected { success := true }]
      (opened 1 []) :=
    (((Reaches.start.step (.connect [] rfl)).step (.joined rfl rfl)).step (.cleared rfl)).step
      (.connected { success := true } rfl)
  have late := (first.step (.connect [] rfl)).step
    (.callback { type := .message, str := lit "old" } rfl)
  have second := ((late.step (.joined rfl rfl)).step (.cleared rfl)).step
    (.connected { success := true } rfl)
  have pushed := second.step (.callback { type := .message, str := lit "new" } rfl)
  have received := (pushed.step (.receive rfl)).step (.received rfl rfl)
  exact ⟨_, rfl, by simp, (receive_fifo received).1⟩

end EdgeTts
