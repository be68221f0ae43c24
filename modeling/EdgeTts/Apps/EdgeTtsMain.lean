import EdgeTts.Api.SavedSpeech
import EdgeTts.Cli.Routing
import EdgeTts.Communication.HttpClient
import EdgeTts.Communication.VoiceList

/-!
# `apps/edge-tts/main.cpp`

The dispatcher is given the production dependencies: a `SpeechSynthesizer` that owns its stack,
and a voice service over the HTTP client.  The program refuses a proxy before it makes any of
them.  What the program puts out is what its dispatcher does (`machineOutput_synthesis`), and
what happens in the stack is what the dispatcher calls there (`carriedOut_stack`).
-/
namespace EdgeTts

open Interaction (Prog Environment Event Trace Handler CarriedOut runs_handle_some)
open Interaction.Prog (perform runs_bind runs_mapCommands)
open StableSort (Sorting)

/-- What the program asks of its machine; `http` is the client of ixwebsocket. -/
inductive MachineCommand where
  | stack (command : StackCommand)
  | http (request : HttpRequest)
  | cli (command : CliCommand)

/-- A null response is `none`. -/
abbrev MachineReply : MachineCommand → Type
  | .stack command => StackReply command
  | .http _ => Option IxHttpResponse
  | .cli command => CliReply command

abbrev MachineTrace := Trace MachineCommand MachineReply

def onStack {α : Type} (p : Prog StackCommand StackReply α) : Prog MachineCommand MachineReply α :=
  p.mapCommands MachineCommand.stack fun _ => id

def onCli {α : Type} (p : Prog CliCommand CliReply α) : Prog MachineCommand MachineReply α :=
  p.mapCommands MachineCommand.cli fun _ => id

namespace EdgeTtsMain

/-! ## The voice service -/

/-- `default_edge_service_config`, with the fields of the voice list. -/
def svcConfig : VoiceServiceConfig where
  toEdgeServiceConfig := defaultEdgeServiceConfig
  voicesEndpoint := lit "https://speech.platform.bing.com/consumer/speech/synthesize/readaloud" ++
    lit "/voices/list?trustedclienttoken=6A5AA1D4EAFF4E9FB37E23D68491D6F4"
  userAgent := defaultRequestHeadersConfig.userAgent

/-- The collaborators of the voice service; the HTTP client has no proxy. -/
def voiceHandler : Handler VoiceCommand VoiceReply MachineCommand MachineReply
  | .now => some <$> perform (MachineCommand.stack .now)
  | .random32Hex => some <$> onStack (draw IdGenerator.random32Hex)
  | .send request => do
      let resp ← perform (MachineCommand.http request)
      return some (HttpClient.send {} request resp)

/-- `voice_svc.list_voices()`; `none` where an exception escapes. -/
def listVoices (jsonParse : Bytes → JsonParse) :
    Prog MachineCommand MachineReply (Option (Result (List Voice))) := do
  let service : VoiceService := ⟨svcConfig, jsonParse, Sha256.sha256HexUpper⟩
  match ← (service.listVoices {} { config := defaultEdgeServiceConfig }).handle voiceHandler with
  | some (.ok voices, _) => return some (.ok voices)
  | some (.fail e, _) => return some (.error e)
  | some (.escape _, _) | none => return none

/-! ## The dispatcher -/

/-- The dispatcher, with the check for terminals. -/
def dispatcher : EdgeTtsCommandDispatcher where
  synthesizerFactory text config options := ⟨text, config, options, false⟩
  ttyCheck := true

/-- A synthesis, with the synthesizer that it has made. -/
def synthesisHandler (synth : ProductionSynthesizer) (fuel : Nat) :
    Handler CliCommand CliReply MachineCommand MachineReply
  | .api command => onStack (synth.apiHandler fuel command)
  -- not called here
  | .voiceService => return none
  | command => some <$> perform (MachineCommand.cli command)

/-- `dispatch_synthesize`; the factory makes the stack of the synthesizer as well. -/
def dispatchSynthesize (jsonParse : Bytes → JsonParse) (fuel : Nat) (args : EdgeTtsArguments) :
    Prog MachineCommand MachineReply (Option (Except CliEscape Int)) := do
  match ← onCli (InputLoader.load args) with
  | .error x => return some (.error x)
  | .ok (.error e) => some <$> onCli (EdgeTtsCommandDispatcher.fail e)
  | .ok (.ok text) =>
      let synth ← onStack (draw (makeProductionSynthesizer jsonParse))
      (dispatcher.synthesizeText args text).handle (synthesisHandler synth fuel)

/-- The other actions. -/
def otherHandler (jsonParse : Bytes → JsonParse) :
    Handler CliCommand CliReply MachineCommand MachineReply
  | .voiceService => listVoices jsonParse
  -- no synthesizer is made
  | .api _ => return none
  | command => some <$> perform (MachineCommand.cli command)

/-- `main`. -/
def main (std : Sorting) (jsonParse : Bytes → JsonParse) (fuel : Nat) (tokens : List Bytes) :
    Prog MachineCommand MachineReply (Option (Except CliEscape Int)) :=
  let result := EdgeTtsArgumentParser.parse tokens
  if result.arguments.proxy.isSome then do
    perform (MachineCommand.cli (.err (lit "Error: proxy is not supported\n")))
    return some (.ok 1)
  else
    match result.action with
    | .synthesize => dispatchSynthesize jsonParse fuel result.arguments
    | _ => (EdgeTtsCommandDispatcher.dispatch std dispatcher result).handle (otherHandler jsonParse)

/-! ## The levels -/

open EdgeTtsCommandDispatcher (Output outputOf outputOf_cons outputOf_append outputOf_map
  append_assoc append_empty dispatchSynthesize_load greetingEnvironment)

def stackEvent (ev : Event StackCommand StackReply) : Event MachineCommand MachineReply :=
  ⟨.stack ev.1, ev.2⟩

def cliEvent (ev : Event CliCommand CliReply) : Event MachineCommand MachineReply :=
  ⟨.cli ev.1, ev.2⟩

theorem onStack_runs {α : Type} {p : Prog StackCommand StackReply α} {t : MachineTrace} {a : α}
    (h : (onStack p).Runs t a) : ∃ u, t = u.map stackEvent ∧ p.Runs u a := by
  obtain ⟨u, rfl, hrun⟩ := runs_mapCommands.mp h
  exact ⟨u, rfl, List.map_id u ▸ hrun⟩

theorem onCli_runs {α : Type} {p : Prog CliCommand CliReply α} {t : MachineTrace} {a : α}
    (h : (onCli p).Runs t a) : ∃ u, t = u.map cliEvent ∧ p.Runs u a := by
  obtain ⟨u, rfl, hrun⟩ := runs_mapCommands.mp h
  exact ⟨u, rfl, List.map_id u ▸ hrun⟩

/-- What happened in the stack. -/
def stackEvents (t : MachineTrace) : StackTrace :=
  t.filterMap fun
    | ⟨.stack command, reply⟩ => some ⟨command, reply⟩
    | _ => none

@[simp] theorem stackEvents_append (t t' : MachineTrace) :
    stackEvents (t ++ t') = stackEvents t ++ stackEvents t' := List.filterMap_append

@[simp] theorem stackEvents_map (u : StackTrace) : stackEvents (u.map stackEvent) = u := by
  rw [stackEvents, List.filterMap_map]
  exact List.filterMap_some

theorem mem_stackEvents {t : MachineTrace} {command : StackCommand} {reply : StackReply command}
    (h : ⟨command, reply⟩ ∈ stackEvents t) : ⟨.stack command, reply⟩ ∈ t := by
  obtain ⟨⟨c, r⟩, hmem, hsome⟩ := List.mem_filterMap.mp h
  cases c with
  | stack command' =>
      cases hsome
      exact hmem
  | _ => cases hsome

theorem stackEvents_cliEvent (u : CliTrace) : stackEvents (u.map cliEvent) = [] := by
  rw [stackEvents, List.filterMap_map]
  exact List.filterMap_eq_nil_iff.mpr fun _ _ => rfl

/-- The output of an event of the machine. -/
def eventOutput : Event MachineCommand MachineReply → Output
  | ⟨.stack command, reply⟩ => { files := (stackFileAction ⟨command, reply⟩).toList }
  | ⟨.http _, _⟩ => {}
  | ⟨.cli command, reply⟩ => outputOf [⟨command, reply⟩]

/-- The output of the program. -/
def machineOutput : MachineTrace → Output
  | [] => {}
  | ev :: t => eventOutput ev ++ machineOutput t

theorem machineOutput_append (t t' : MachineTrace) :
    machineOutput (t ++ t') = machineOutput t ++ machineOutput t' := by
  induction t with
  | nil => rfl
  | cons ev t ih => rw [List.cons_append, machineOutput, machineOutput, ih, append_assoc]

theorem machineOutput_stackEvent (u : StackTrace) :
    machineOutput (u.map stackEvent) = { files := stackFileActions u } := by
  induction u with
  | nil => rfl
  | cons ev u ih =>
      have hcons : stackFileActions (ev :: u) =
          (stackFileAction ev).toList ++ stackFileActions u := by
        cases haction : stackFileAction ev <;> simp [stackFileActions, haction]
      rw [List.map_cons, machineOutput, ih, hcons]
      rfl

theorem machineOutput_cliEvent (u : CliTrace) : machineOutput (u.map cliEvent) = outputOf u := by
  induction u with
  | nil => rfl
  | cons ev u ih =>
      rw [List.map_cons, machineOutput, ih, outputOf_cons]
      rfl

theorem outputOf_api (command : ApiCommand) (reply : ApiReply command) :
    outputOf [⟨.api command, reply⟩] = { files := (fileAction ⟨command, reply⟩).toList } := by
  have hfiles : fileActions [⟨command, reply⟩] = (fileAction ⟨command, reply⟩).toList := by
    cases haction : fileAction ⟨command, reply⟩ <;> simp [fileActions, haction]
  rw [← hfiles]
  exact outputOf_map [⟨command, reply⟩]

section
variable {synth : ProductionSynthesizer} {fuel : Nat} {t : CliTrace} {t' : MachineTrace}

/-- **The output of a synthesis** is that of its dispatcher. -/
theorem machineOutput_synthesis (hc : CarriedOut (synthesisHandler synth fuel) t t') :
    machineOutput t' = outputOf t := by
  induction hc with
  | nil => rfl
  | @cons c r t u t' first rest ih =>
      rw [machineOutput_append, ih, outputOf_cons]
      refine congrArg (· ++ outputOf t) ?_
      cases c with
      | api command =>
          obtain ⟨v, rfl, hv⟩ := onStack_runs first
          rw [machineOutput_stackEvent, stackFileActions, apiHandler_file command r v hv,
            outputOf_api]
      | voiceService => cases first.2
      | _ =>
          rw [runs_some_perform.mp first]
          exact append_empty _

/-- **What happens in the stack** carries out what the dispatcher calls. -/
theorem carriedOut_stack (hc : CarriedOut (synthesisHandler synth fuel) t t') :
    CarriedOut (synth.apiHandler fuel) (libraryEvents t) (stackEvents t') := by
  induction hc with
  | nil => exact .nil
  | @cons c r t u t' first rest ih =>
      rw [stackEvents_append]
      cases c with
      | api command =>
          obtain ⟨v, rfl, hv⟩ := onStack_runs first
          rw [stackEvents_map]
          exact .cons hv ih
      | voiceService => cases first.2
      | _ =>
          rw [runs_some_perform.mp first]
          exact ih

end

/-! ## The voices -/

/-- The collaborators of the voice service put nothing out. -/
theorem voiceHandler_output {c : VoiceCommand} {r : VoiceReply c} {t : MachineTrace}
    (h : (voiceHandler c).Runs t (some r)) : machineOutput t = {} := by
  cases c with
  | now =>
      rw [runs_some_perform.mp h]
      rfl
  | random32Hex =>
      obtain ⟨u, rfl, hu⟩ := onStack_runs (runs_some_map.mp h)
      obtain ⟨words, rfl, -⟩ := runs_draw.mp hu
      rw [machineOutput_stackEvent, stackFileActions_drawnWords]
  | send request =>
      obtain ⟨resp, t, rfl, rfl, -⟩ := h
      rfl

theorem carriedOut_voices {t : Trace VoiceCommand VoiceReply} {t' : MachineTrace}
    (hc : CarriedOut voiceHandler t t') : machineOutput t' = {} := by
  induction hc with
  | nil => rfl
  | cons first rest ih =>
      rw [machineOutput_append, ih, voiceHandler_output first]
      rfl

/-- **A list of voices that is returned** is that of a run of the service. -/
theorem listVoices_runs {jsonParse : Bytes → JsonParse} {t : MachineTrace}
    {voices : Result (List Voice)} (h : (listVoices jsonParse).Runs t (some voices)) :
    ∃ u tokens, (VoiceService.listVoices ⟨svcConfig, jsonParse, Sha256.sha256HexUpper⟩ {}
      { config := defaultEdgeServiceConfig }).Runs u (Outcome.ofResult voices, tokens) ∧
      CarriedOut voiceHandler u t := by
  obtain ⟨t₁, t₂, result, rfl, hrun, hrest⟩ := runs_bind.mp h
  rcases result with _ | ⟨_ | _ | _, tokens⟩
  · cases hrest.2
  case some.escape => cases hrest.2
  all_goals
    obtain ⟨rfl, heq⟩ := hrest
    cases heq
    obtain ⟨u, hu, hc⟩ := runs_handle_some.mp hrun
    rw [List.append_nil]
    exact ⟨u, tokens, hu, hc⟩

theorem machineOutput_other {jsonParse : Bytes → JsonParse} {t : CliTrace} {t' : MachineTrace}
    (hc : CarriedOut (otherHandler jsonParse) t t') : machineOutput t' = outputOf t := by
  induction hc with
  | nil => rfl
  | @cons c r t u t' first rest ih =>
      rw [machineOutput_append, ih, outputOf_cons]
      refine congrArg (· ++ outputOf t) ?_
      cases c with
      | api command => cases first.2
      | voiceService =>
          obtain ⟨v, tokens, -, hv⟩ := listVoices_runs first
          exact carriedOut_voices hv
      | _ =>
          rw [runs_some_perform.mp first]
          exact append_empty _

/-! ## The program and its dispatcher -/

/-- The runs of a synthesis: the text is loaded, and the stack is made where there is one. -/
theorem dispatchSynthesize_cases {jsonParse : Bytes → JsonParse} {fuel : Nat}
    {args : EdgeTtsArguments} {t : MachineTrace} {result : Except CliEscape Int}
    (run : (dispatchSynthesize jsonParse fuel args).Runs t (some result)) :
    ∃ t₀ loaded t₁, t = t₀.map cliEvent ++ t₁ ∧ (InputLoader.load args).Runs t₀ loaded ∧
      match loaded with
      | .error x => t₁ = [] ∧ result = .error x
      | .ok (.error e) => ∃ u, t₁ = u.map cliEvent ∧
          (EdgeTtsCommandDispatcher.fail e).Runs u result
      | .ok (.ok text) => ∃ words headers w v, t₁ = (drawnWords words).map stackEvent ++ v ∧
          (dispatcher.synthesizeText args text).Runs w result ∧
          CarriedOut (synthesisHandler (stackSynthesizer jsonParse headers) fuel) w v := by
  obtain ⟨t', t₁, loaded, rfl, hcall, hrest⟩ := runs_bind.mp run
  obtain ⟨t₀, rfl, hload⟩ := onCli_runs hcall
  refine ⟨t₀, loaded, t₁, rfl, hload, ?_⟩
  rcases loaded with x | e | text
  · obtain ⟨rfl, heq⟩ := hrest
    exact ⟨rfl, (Option.some.inj heq).symm⟩
  · exact onCli_runs (runs_some_map.mp hrest)
  · obtain ⟨t₂, v, synth, rfl, hmake, hrest⟩ := runs_bind.mp hrest
    obtain ⟨u, rfl, hu⟩ := onStack_runs hmake
    obtain ⟨words, rfl, hwords⟩ := runs_draw.mp hu
    obtain ⟨headers, -, rfl⟩ := runs_makeProductionSynthesizer.mp hwords
    obtain ⟨w, hw, hc⟩ := runs_handle_some.mp hrest
    exact ⟨words, headers, w, v, rfl, hw, hc⟩

/-- **A synthesis is that of the dispatcher.** -/
theorem dispatchSynthesize_runs {jsonParse : Bytes → JsonParse} {fuel : Nat}
    {args : EdgeTtsArguments} {t : MachineTrace} {result : Except CliEscape Int}
    (run : (dispatchSynthesize jsonParse fuel args).Runs t (some result)) :
    ∃ u, (dispatcher.dispatchSynthesize args).Runs u result ∧ machineOutput t = outputOf u := by
  obtain ⟨t₀, loaded, t₁, rfl, hload, hrest⟩ := dispatchSynthesize_cases run
  rw [dispatchSynthesize_load, machineOutput_append, machineOutput_cliEvent]
  rcases loaded with x | e | text
  · obtain ⟨rfl, rfl⟩ := hrest
    refine ⟨t₀, runs_bind.mpr ⟨t₀, [], _, (List.append_nil t₀).symm, hload, rfl, rfl⟩, ?_⟩
    exact append_empty _
  · obtain ⟨u, rfl, hu⟩ := hrest
    refine ⟨t₀ ++ u, runs_bind.mpr ⟨t₀, u, _, rfl, hload, hu⟩, ?_⟩
    rw [machineOutput_cliEvent, outputOf_append]
  · obtain ⟨words, headers, w, v, rfl, hw, hc⟩ := hrest
    refine ⟨t₀ ++ w, runs_bind.mpr ⟨t₀, w, _, rfl, hload, hw⟩, ?_⟩
    rw [machineOutput_append, machineOutput_stackEvent, stackFileActions_drawnWords,
      machineOutput_synthesis hc, outputOf_append]
    rfl

/-- **The program is its dispatcher**, in every run without a proxy; with one it reports that
and ends with 1, and nothing else happens. -/
theorem main_dispatches {std : Sorting} {jsonParse : Bytes → JsonParse} {fuel : Nat}
    {tokens : List Bytes} {t : MachineTrace} {result : Except CliEscape Int}
    (run : (main std jsonParse fuel tokens).Runs t (some result)) :
    if (EdgeTtsArgumentParser.parse tokens).arguments.proxy.isSome then
      t = [⟨.cli (.err (lit "Error: proxy is not supported\n")), ()⟩] ∧ result = .ok 1
    else ∃ u, (EdgeTtsCommandDispatcher.dispatch std dispatcher
      (EdgeTtsArgumentParser.parse tokens)).Runs u result ∧ machineOutput t = outputOf u := by
  unfold main at run
  generalize EdgeTtsArgumentParser.parse tokens = parsed at run ⊢
  dsimp only at run
  by_cases hproxy : parsed.arguments.proxy.isSome = true
  · rw [if_pos hproxy] at run ⊢
    obtain ⟨_, _, rfl, rfl, heq⟩ := run
    exact ⟨rfl, (Option.some.inj heq).symm⟩
  · rw [if_neg hproxy] at run ⊢
    have hother : ((EdgeTtsCommandDispatcher.dispatch std dispatcher parsed).handle
        (otherHandler jsonParse)).Runs t (some result) →
        ∃ u, (EdgeTtsCommandDispatcher.dispatch std dispatcher parsed).Runs u result ∧
          machineOutput t = outputOf u := by
      intro h
      obtain ⟨u, hu, hc⟩ := runs_handle_some.mp h
      exact ⟨u, hu, machineOutput_other hc⟩
    cases haction : parsed.action with
    | synthesize =>
        rw [haction] at run
        obtain ⟨u, hu, hout⟩ := dispatchSynthesize_runs run
        refine ⟨u, ?_, hout⟩
        rw [EdgeTtsCommandDispatcher.dispatch, haction]
        exact hu
    | _ =>
        rw [haction] at run
        exact hother run

/-- The service sends the messages, and neither stream is a terminal. -/
def sampleComputer : Environment MachineCommand MachineReply (List WebSocketMessage)
  | .stack command, messages => sampleMachine command messages
  | .http _, messages => (none, messages)
  | .cli command, messages => ((greetingEnvironment command fun _ => none).1, messages)

/-- A run whose audio goes to the standard output. -/
theorem main_dispatches_sample :
    let run := (main Sorting.insertion sampleSession.jsonParse 3 [lit "--text", lit "Hi"]).runIn
      sampleComputer [audioMessage]
    ∃ u, (EdgeTtsCommandDispatcher.dispatch Sorting.insertion dispatcher
      (EdgeTtsArgumentParser.parse [lit "--text", lit "Hi"])).Runs u (.ok 0) ∧
      machineOutput run.trace = outputOf u := by
  intro run
  have hrun : (main Sorting.insertion sampleSession.jsonParse 3 [lit "--text", lit "Hi"]).Runs
      run.trace run.result := Prog.runs_runIn _ _ _
  have hzero : run.result = some (.ok 0) := by decide +kernel
  have hdirect : ¬ (EdgeTtsArgumentParser.parse
      [lit "--text", lit "Hi"]).arguments.proxy.isSome = true := by decide +kernel
  have hdispatched := main_dispatches (hzero ▸ hrun)
  rwa [if_neg hdirect] at hdispatched

end EdgeTtsMain
end EdgeTts
