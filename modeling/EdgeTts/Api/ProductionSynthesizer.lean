import EdgeTts.Lib.Handlers
import EdgeTts.Api.SavedFiles
import EdgeTts.Communication.RequestUrl
import EdgeTts.Communication.SessionService
import EdgeTts.Communication.SessionTalks
import EdgeTts.Communication.WebSocketClient

/-!
# The production synthesizer of `api/SpeechSynthesizer.cpp`

A `SpeechSynthesizer` that is made without an injected synthesizer owns the whole stack.  Its
calls are carried out by a session (`apiHandler`), and the calls of the session by the generator
of identifiers, the clock and the web socket (`sessionHandler`), so a run of the stack is a run
of the entry point, of the session in it, and of the generator in that (`stack_runs`,
`synthesizer_runs`).  The cancellation token is one and the same for both levels.
-/
namespace EdgeTts

open Interaction (Prog Event Trace Handler CarriedOut Environment runs_handle_some
  runs_handle_total append_cons_eq_singleton)
open Interaction.Prog (perform runs_bind runs_perform_return)

/-- What the stack asks of the machine it runs on, and of its caller. -/
inductive StackCommand where
  | rng
  | now
  | isCancelled
  | cancel
  | connect (url : Bytes) (headers : List (Bytes × Bytes))
  | sendText (payload : Bytes)
  | receive
  | close
  | onAudio (data : Bytes)
  | onBoundary (boundary : BoundaryChunk)
  | onComplete
  | onError (error : Error)
  | add (a b : Int64)
  | writeBinary (path bytes : Bytes)
  | writeTextUtf8 (path text : Bytes)

abbrev StackReply : StackCommand → Type
  | .rng => UInt64
  | .now => TimePoint
  | .isCancelled => Bool
  | .cancel => Unit
  | .connect _ _ => Result Unit
  | .sendText _ => Result Unit
  | .receive => Result WebSocketMessage
  | .close => Result Unit
  | .onAudio _ => Unit
  | .onBoundary _ => Unit
  | .onComplete => Unit
  | .onError _ => Unit
  | .add a b => Sum64 a b
  | .writeBinary _ _ => Result Unit
  | .writeTextUtf8 _ _ => Result Unit

abbrev StackTrace := Trace StackCommand StackReply

/-- A program that draws random words. -/
def draw {α : Type} (p : Prog RandomCommand RandomReply α) : Prog StackCommand StackReply α :=
  p.mapCommands (fun | .rng => .rng) (fun | .rng => id)

/-- The options of the web socket, with the headers of its upgrade request. -/
structure ProductionOptions extends WebSocketClientOptions where
  extraHeaders : List (Bytes × Bytes)

/-- `ProductionSynthesizer`; the session is given its provider with each call. -/
structure ProductionSynthesizer where
  websocketOptions : ProductionOptions
  session : SynthesisSession
  tokenProvider : EdgeTokenProvider

/-- `make_ws_options`; no proxy is passed on. -/
def makeWsOptions : Prog RandomCommand RandomReply ProductionOptions := do
  let extraHeaders ← buildWebsocketHeaders defaultRequestHeadersConfig
  return { extraHeaders }

/-- The constructor of `ProductionSynthesizer`, with the JSON library it is linked with. -/
def makeProductionSynthesizer (jsonParse : Bytes → JsonParse) :
    Prog RandomCommand RandomReply ProductionSynthesizer := do
  let websocketOptions ← makeWsOptions
  return {
    websocketOptions
    session := {
      config := defaultEdgeServiceConfig
      jsonParse
      sha256HexUpper := Sha256.sha256HexUpper }
    tokenProvider := { config := defaultEdgeServiceConfig } }

namespace ProductionSynthesizer
variable (synth : ProductionSynthesizer)

/-- The collaborators of the session. -/
def sessionHandler : Handler Command Reply StackCommand StackReply
  | .isCancelled => some <$> perform StackCommand.isCancelled
  | .createForRequest => some <$> draw createForRequest
  | .now => some <$> perform StackCommand.now
  | .connect url => some <$> perform (StackCommand.connect url synth.websocketOptions.extraHeaders)
  | .sendText payload => some <$> perform (StackCommand.sendText payload)
  | .receive => some <$> perform StackCommand.receive
  | .close => some <$> perform StackCommand.close
  | .add a b => some <$> perform (StackCommand.add a b)

/-- The lambda of `make_production_synthesizer`; the provider is as the constructor left it,
since a `SpeechSynthesizer` makes this call only once. -/
def synthesize (fuel : Nat) (config : TtsConfig) (chunks : List Bytes) :
    Prog StackCommand StackReply (Option (Outcome (List TtsChunk))) := do
  let result ← (synth.session.synthesize fuel config chunks synth.tokenProvider).handle
    synth.sessionHandler
  return result.join

/-- What a `SpeechSynthesizer` is surrounded by. -/
def apiHandler (fuel : Nat) : Handler ApiCommand ApiReply StackCommand StackReply
  | .isCancelled => some <$> perform StackCommand.isCancelled
  | .cancel => some <$> perform StackCommand.cancel
  | .synthesizer config chunks => synth.synthesize fuel config chunks
  | .onAudio data => some <$> perform (StackCommand.onAudio data)
  | .onBoundary boundary => some <$> perform (StackCommand.onBoundary boundary)
  | .onComplete => some <$> perform StackCommand.onComplete
  | .onError error => some <$> perform (StackCommand.onError error)
  | .add a b => some <$> perform (StackCommand.add a b)
  | .writeBinary path bytes => some <$> perform (StackCommand.writeBinary path bytes)
  | .writeTextUtf8 path text => some <$> perform (StackCommand.writeTextUtf8 path text)

end ProductionSynthesizer

/-- A `SpeechSynthesizer` is constructed, and then one call is made on it. -/
def production {α : Type} (jsonParse : Bytes → JsonParse) (fuel : Nat)
    (entry : Prog ApiCommand ApiReply α) : Prog StackCommand StackReply (Option α) := do
  let synth ← draw (makeProductionSynthesizer jsonParse)
  entry.handle (synth.apiHandler fuel)

/-! ## Drawing -/

/-- The words as events of the stack. -/
def drawnWords (words : RandomTrace) : StackTrace := words.map fun | ⟨.rng, word⟩ => ⟨.rng, word⟩

theorem runs_draw {α : Type} {p : Prog RandomCommand RandomReply α} {t : StackTrace} {a : α} :
    (draw p).Runs t a ↔ ∃ words, t = drawnWords words ∧ p.Runs words a := by
  unfold draw
  induction p generalizing t with
  | ret b =>
      constructor
      · rintro ⟨rfl, rfl⟩
        exact ⟨[], rfl, rfl, rfl⟩
      · rintro ⟨_, rfl, rfl, rfl⟩
        exact ⟨rfl, rfl⟩
  | call c k ih =>
      cases c
      constructor
      · rintro ⟨word, t, rfl, h⟩
        obtain ⟨words, rfl, hrun⟩ := (ih word).mp h
        exact ⟨⟨.rng, word⟩ :: words, rfl, word, words, rfl, hrun⟩
      · rintro ⟨_, rfl, word, words, rfl, hrun⟩
        exact ⟨word, drawnWords words, rfl, (ih word).mpr ⟨words, rfl, hrun⟩⟩

/-- Nothing but words is drawn. -/
theorem mem_drawnWords {words : RandomTrace} {ev : Event StackCommand StackReply}
    (h : ev ∈ drawnWords words) : ev.1 = .rng := by
  obtain ⟨⟨c, word⟩, -, rfl⟩ := List.mem_map.mp h
  cases c
  rfl

/-- A handler that performs one command always answers. -/
theorem runs_map_perform {C : Type} {R : C → Type} {c : C} {t : Trace C R} {o : Option (R c)} :
    (some <$> perform c : Prog C R (Option (R c))).Runs t o ↔ ∃ r, t = [⟨c, r⟩] ∧ some r = o := by
  have hmap : (some <$> perform c : Prog C R (Option (R c))) = (do
      let r ← perform c
      return some r) := map_eq_pure_bind _ _
  rw [hmap, runs_perform_return]

/-- The run of a handler that performs one command. -/
theorem runs_some_perform {C : Type} {R : C → Type} {c : C} {t : Trace C R} {r : R c} :
    (some <$> perform c : Prog C R (Option (R c))).Runs t (some r) ↔ t = [⟨c, r⟩] := by
  rw [runs_map_perform]
  simp

/-- A program whose result is wrapped. -/
theorem runs_some_map {C : Type} {R : C → Type} {α : Type} {p : Prog C R α} {t : Trace C R}
    {a : α} : (some <$> p : Prog C R (Option α)).Runs t (some a) ↔ p.Runs t a := by
  rw [map_eq_pure_bind, runs_bind]
  constructor
  · rintro ⟨t₁, t₂, a', rfl, hp, rfl, heq⟩
    cases heq
    rwa [List.append_nil]
  · intro hp
    exact ⟨t, [], a, (List.append_nil t).symm, hp, rfl, rfl⟩

/-! ## The levels -/

/-- The session of the stack. -/
abbrev stackSession (jsonParse : Bytes → JsonParse) : SynthesisSession :=
  ⟨defaultEdgeServiceConfig, {}, jsonParse, Sha256.sha256HexUpper⟩

/-- The synthesizer of the stack, with the headers of its connections. -/
abbrev stackSynthesizer (jsonParse : Bytes → JsonParse) (headers : List (Bytes × Bytes)) :
    ProductionSynthesizer where
  websocketOptions := { extraHeaders := headers }
  session := stackSession jsonParse
  tokenProvider := { config := defaultEdgeServiceConfig }

/-- What a synthesizer is made of does not depend on the words drawn for its headers. -/
theorem runs_makeProductionSynthesizer {jsonParse : Bytes → JsonParse} {words : RandomTrace}
    {synth : ProductionSynthesizer} :
    (makeProductionSynthesizer jsonParse).Runs words synth ↔ ∃ headers,
      (buildWebsocketHeaders defaultRequestHeadersConfig).Runs words headers ∧
      synth = stackSynthesizer jsonParse headers := by
  rw [makeProductionSynthesizer, runs_bind]
  constructor
  · rintro ⟨t₁, t₂, options, rfl, hoptions, rfl, rfl⟩
    obtain ⟨t₃, t₄, headers, rfl, hheaders, rfl, rfl⟩ := runs_bind.mp hoptions
    rw [List.append_nil, List.append_nil]
    exact ⟨headers, hheaders, rfl⟩
  · rintro ⟨headers, hheaders, rfl⟩
    exact ⟨words, [], _, (List.append_nil _).symm,
      runs_bind.mpr ⟨words, [], headers, (List.append_nil _).symm, hheaders, rfl, rfl⟩, rfl, rfl⟩

/-- **A run of the stack that ends** is the construction and a run of the entry point. -/
theorem stack_runs {α : Type} {jsonParse : Bytes → JsonParse} {fuel : Nat}
    {entry : Prog ApiCommand ApiReply α} {t : StackTrace} {a : α} :
    (production jsonParse fuel entry).Runs t (some a) ↔ ∃ words synth u apiTrace,
      t = drawnWords words ++ u ∧ (makeProductionSynthesizer jsonParse).Runs words synth ∧
      entry.Runs apiTrace a ∧ CarriedOut (synth.apiHandler fuel) apiTrace u := by
  rw [production, runs_bind]
  constructor
  · rintro ⟨t₁, u, synth, rfl, hdraw, hentry⟩
    obtain ⟨words, rfl, hmake⟩ := runs_draw.mp hdraw
    obtain ⟨apiTrace, hrun, hc⟩ := runs_handle_some.mp hentry
    exact ⟨words, synth, u, apiTrace, rfl, hmake, hrun, hc⟩
  · rintro ⟨words, synth, u, apiTrace, rfl, hmake, hrun, hc⟩
    exact ⟨_, u, synth, rfl, runs_draw.mpr ⟨words, rfl, hmake⟩,
      runs_handle_some.mpr ⟨apiTrace, hrun, hc⟩⟩

/-- The call of a session that an event of the stack is, unless it draws a word or is no such
call. -/
def sessionEvent : Event StackCommand StackReply → Option (Event Command Reply)
  | ⟨.now, now⟩ => some ⟨.now, now⟩
  | ⟨.isCancelled, v⟩ => some ⟨.isCancelled, v⟩
  | ⟨.connect url _, reply⟩ => some ⟨.connect url, reply⟩
  | ⟨.sendText payload, reply⟩ => some ⟨.sendText payload, reply⟩
  | ⟨.receive, reply⟩ => some ⟨.receive, reply⟩
  | ⟨.close, reply⟩ => some ⟨.close, reply⟩
  | ⟨.add a b, sum⟩ => some ⟨.add a b, sum⟩
  | _ => none

/-- Such a call is carried out by the event alone. -/
theorem sessionHandler_event {synth : ProductionSynthesizer} {ev : Event StackCommand StackReply}
    {ev' : Event Command Reply} (hev : sessionEvent ev = some ev') {c : Command} {r : Reply c}
    {before after : StackTrace}
    (h : (synth.sessionHandler c).Runs (before ++ ev :: after) (some r)) :
    (⟨c, r⟩ : Event Command Reply) = ev' ∧ before = [] ∧ after = [] := by
  cases c with
  | createForRequest =>
      obtain ⟨words, heq, -⟩ := runs_draw.mp (runs_some_map.mp h)
      have hmem : ev ∈ drawnWords words := by
        rw [← heq]
        simp
      obtain ⟨c, word⟩ := ev
      obtain rfl : c = .rng := mem_drawnWords hmem
      cases hev
  | _ =>
      obtain ⟨rfl, rfl, rfl⟩ := append_cons_eq_singleton (runs_some_perform.mp h)
      cases hev
      exact ⟨rfl, rfl, rfl⟩

/-- The collaborators of a session always answer. -/
theorem sessionHandler_total {synth : ProductionSynthesizer} (c : Command) (t : StackTrace) :
    ¬ (synth.sessionHandler c).Runs t none := by
  have hsome : ∀ {α : Type} (p : Prog StackCommand StackReply α),
      ¬ (some <$> p : Prog StackCommand StackReply (Option α)).Runs t none := by
    intro α p h
    rw [map_eq_pure_bind, runs_bind] at h
    obtain ⟨_, _, _, -, -, -, hnone⟩ := h
    cases hnone
  cases c <;> exact hsome _

/-- **A run of the injected synthesizer** is a run of the session, whether or not it ends. -/
theorem synthesizer_runs {synth : ProductionSynthesizer} {fuel : Nat} {config : TtsConfig}
    {chunks : List Bytes} {t : StackTrace} {r : Option (Outcome (List TtsChunk))} :
    (synth.synthesize fuel config chunks).Runs t r ↔ ∃ sessionTrace,
      (synth.session.synthesize fuel config chunks synth.tokenProvider).Runs sessionTrace r ∧
      CarriedOut synth.sessionHandler sessionTrace t := by
  rw [ProductionSynthesizer.synthesize, runs_bind]
  constructor
  · rintro ⟨t₁, t₂, result, rfl, hrun, rfl, rfl⟩
    rw [List.append_nil]
    cases result with
    | none => exact absurd hrun (runs_handle_total sessionHandler_total)
    | some result => exact runs_handle_some.mp hrun
  · intro hrun
    exact ⟨t, [], some r, (List.append_nil t).symm, runs_handle_some.mpr hrun, rfl, rfl⟩

/-! ## A machine that answers -/

/-- Every command succeeds, the clock stands still, and what is to be received is the state; a
turn end follows after that. -/
def sampleMachine : Environment StackCommand StackReply (List WebSocketMessage)
  | .rng, s => (0x0123456789ABCDEF, s)
  | .now, s => (1704067200000000000, s)
  | .isCancelled, s => (false, s)
  | .cancel, s => ((), s)
  | .connect _ _, s => (.ok (), s)
  | .sendText _, s => (.ok (), s)
  | .receive, s => (.ok (s.headD turnEndMessage), s.tail)
  | .close, s => (.ok (), s)
  | .onAudio _, s => ((), s)
  | .onBoundary _, s => ((), s)
  | .onComplete, s => ((), s)
  | .onError _, s => ((), s)
  | .add a b, s => (Sum64.wrapping a b, s)
  | .writeBinary _ _, s => (.ok (), s)
  | .writeTextUtf8 _ _, s => (.ok (), s)

theorem sampleMachine_now {α : Type} {p : Prog StackCommand StackReply α}
    {messages : List WebSocketMessage} {now : TimePoint}
    (h : ⟨.now, now⟩ ∈ (p.runIn sampleMachine messages).trace) : now = 1704067200000000000 := by
  obtain ⟨_, heq⟩ := Prog.replies_runIn sampleMachine p messages _ h
  exact heq

end EdgeTts
