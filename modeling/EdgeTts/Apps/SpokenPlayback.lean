import EdgeTts.Api.SavedSpeech
import EdgeTts.Apps.Player

/-!
# What a run of edge-playback says and plays

The synthesizer of the program owns its stack, and its player is a process.  From the command
line to the wire, and from the wire to the file that is played (`deviceMain_plays`).
-/
namespace EdgeTts
namespace EdgePlayback

open Files (Action)
open Interaction (CarriedOut Environment Event Handler Prog Trace carriedOut_nil runs_handle_some)
open Interaction.Prog (perform runs_bind runs_mapCommands)
open ExecutableDiscovery (candidates Searched)
open PlaybackCommandDispatcher (Aside Silent Played cleanUp cliAction cliActions cliActions_append
  configOf optionsOf saveAndPlay)

/-- What the program asks of its machine, with its own stack. -/
inductive DeviceCommand where
  | stack (command : StackCommand)
  | player (command : PlayerCommand)

abbrev DeviceReply : DeviceCommand → Type
  | .stack command => StackReply command
  | .player command => PlayerReply command

abbrev DeviceTrace := Trace DeviceCommand DeviceReply

def onStack {α : Type} (p : Prog StackCommand StackReply α) : Prog DeviceCommand DeviceReply α :=
  p.mapCommands DeviceCommand.stack fun _ => id

def onPlayer {α : Type} (p : Prog PlayerCommand PlayerReply α) :
    Prog DeviceCommand DeviceReply α :=
  p.mapCommands DeviceCommand.player fun _ => id

def onCli {α : Type} (p : Prog CliCommand CliReply α) : Prog DeviceCommand DeviceReply α :=
  p.mapCommands (fun c => DeviceCommand.player (.cli c)) fun _ => id

/-- A playback, with the synthesizer that it has made and its converter. -/
def deviceHandler (synth : ProductionSynthesizer) (fuel : Nat) (converter : FfmpegAudioConverter) :
    Handler CliCommand CliReply DeviceCommand DeviceReply
  | .api command => onStack (synth.apiHandler fuel command)
  | command => onPlayer (playerHandler converter command)

section
variable (env : Env) (converter : FfmpegAudioConverter) (jsonParse : Bytes → JsonParse) (fuel : Nat)

/-- `dispatch_play`, once the text is loaded; the factory makes the stack of the synthesizer as
well. -/
def playText (args : PlaybackArguments) (text : Bytes) :
    Prog DeviceCommand DeviceReply (Option (Except CliEscape Int)) := do
  match ← onCli (tempProvider env (lit ".mp3")) with
  | .error x => return some (.error x)
  | .ok none =>
      onCli (perform (CliCommand.err (lit "error: temp file provider returned no path for .mp3\n")))
      return some (.ok 1)
  | .ok (some tmpMp3) =>
      match ← onCli (tempProvider env (lit ".srt")) with
      | .error x => return some (.error x)
      | .ok srt =>
          let synth ← onStack (draw (makeProductionSynthesizer jsonParse))
          Prog.handle (deviceHandler synth fuel converter) (do
            let synthesizer := (dispatcher env).synthesizerFactory text (configOf args)
              (optionsOf args)
            let result ← saveAndPlay synthesizer tmpMp3 srt
            cleanUp env.keepTemp tmpMp3 srt
            return result)

/-- `dispatch_play`. -/
def dispatchPlay (args : PlaybackArguments) :
    Prog DeviceCommand DeviceReply (Option (Except CliEscape Int)) :=
  if args.useMpv then some <$> onCli ((dispatcher env).dispatchPlay args)
  else do
    match ← onCli (InputLoader.loadPlayback args) with
    | .error x => return some (.error x)
    | .ok (.error e) => some <$> onCli (PlaybackCommandDispatcher.fail e)
    | .ok (.ok text) => playText env converter jsonParse fuel args text

/-- `main`; `mainWithPlayer` leaves open what is behind the synthesizer. -/
def deviceMain (tokens : List Bytes) :
    Prog DeviceCommand DeviceReply (Option (Except CliEscape Int)) :=
  let result := PlaybackArgumentParser.parse tokens
  match result.action with
  | .play => dispatchPlay env converter jsonParse fuel result.arguments
  | _ => some <$> onCli ((dispatcher env).dispatch result)

end

/-! ## The levels -/

def deviceStackEvent (ev : Event StackCommand StackReply) : Event DeviceCommand DeviceReply :=
  ⟨.stack ev.1, ev.2⟩

def devicePlayerEvent (ev : Event PlayerCommand PlayerReply) : Event DeviceCommand DeviceReply :=
  ⟨.player ev.1, ev.2⟩

def deviceCliEvent (ev : Event CliCommand CliReply) : Event DeviceCommand DeviceReply :=
  ⟨.player (.cli ev.1), ev.2⟩

theorem onStack_runs {α : Type} {p : Prog StackCommand StackReply α} {t : DeviceTrace} {a : α}
    (h : (onStack p).Runs t a) : ∃ u, t = u.map deviceStackEvent ∧ p.Runs u a := by
  obtain ⟨u, rfl, hrun⟩ := runs_mapCommands.mp h
  exact ⟨u, rfl, List.map_id u ▸ hrun⟩

theorem onPlayer_runs {α : Type} {p : Prog PlayerCommand PlayerReply α} {t : DeviceTrace} {a : α}
    (h : (onPlayer p).Runs t a) : ∃ u, t = u.map devicePlayerEvent ∧ p.Runs u a := by
  obtain ⟨u, rfl, hrun⟩ := runs_mapCommands.mp h
  exact ⟨u, rfl, List.map_id u ▸ hrun⟩

theorem onCli_runs {α : Type} {p : Prog CliCommand CliReply α} {t : DeviceTrace} {a : α}
    (h : (onCli p).Runs t a) : ∃ u, t = u.map deviceCliEvent ∧ p.Runs u a := by
  obtain ⟨u, rfl, hrun⟩ := runs_mapCommands.mp h
  exact ⟨u, rfl, List.map_id u ▸ hrun⟩

section
variable {env : Env} {converter : FfmpegAudioConverter} {jsonParse : Bytes → JsonParse} {fuel : Nat}
  {t : DeviceTrace} {result : Except CliEscape Int}

/-- The trace carries out a run of the program: up to the construction of a synthesizer the
machine is only asked what the command line needs, and what follows is carried out with it. -/
def Carries (converter : FfmpegAudioConverter) (jsonParse : Bytes → JsonParse) (fuel : Nat)
    (p : Prog CliCommand CliReply (Except CliEscape Int)) (t : DeviceTrace)
    (result : Except CliEscape Int) : Prop :=
  ∃ headers words u v t', t = u.map deviceCliEvent ++
      ((drawnWords words).map deviceStackEvent ++ t') ∧
    p.Runs (u ++ v) result ∧ (∀ ev ∈ u, Aside ev.1) ∧
    CarriedOut (deviceHandler (stackSynthesizer jsonParse headers) fuel converter) v t'

/-- No synthesizer is made. -/
theorem carries_onCli {p : Prog CliCommand CliReply (Except CliEscape Int)}
    (aside : p.Issues Aside) (run : (onCli p).Runs t result) :
    Carries converter jsonParse fuel p t result := by
  obtain ⟨u, rfl, hu⟩ := onCli_runs run
  refine ⟨[], [], u, [], [], ?_, ?_, aside.of_runs hu, .nil⟩
  · exact (List.append_nil _).symm
  · rwa [List.append_nil]

theorem Carries.bind {α : Type} {p : Prog CliCommand CliReply α}
    {f : α → Prog CliCommand CliReply (Except CliEscape Int)} {a : α} {t₁ t₂ : DeviceTrace}
    (aside : p.Issues Aside) (run : (onCli p).Runs t₁ a)
    (h : Carries converter jsonParse fuel (f a) t₂ result) :
    Carries converter jsonParse fuel (p >>= f) (t₁ ++ t₂) result := by
  obtain ⟨w, rfl, hw⟩ := onCli_runs run
  obtain ⟨headers, words, u, v, t', rfl, hu, haside, hc⟩ := h
  refine ⟨headers, words, w ++ u, v, t', ?_, ?_, ?_, hc⟩
  · rw [List.map_append, List.append_assoc]
  · rw [List.append_assoc]
    exact runs_bind.mpr ⟨w, u ++ v, a, rfl, hw, hu⟩
  · exact List.forall_mem_append.mpr ⟨aside.of_runs hw, haside⟩

/-- A synthesizer is made, and then it is used. -/
theorem carries_handle {p : Prog CliCommand CliReply (Except CliEscape Int)}
    (run : (do
      let synth ← onStack (draw (makeProductionSynthesizer jsonParse))
      p.handle (deviceHandler synth fuel converter)).Runs t (some result)) :
    Carries converter jsonParse fuel p t result := by
  obtain ⟨t₁, t', synth, rfl, hmake, hrun⟩ := runs_bind.mp run
  obtain ⟨w, rfl, hw⟩ := onStack_runs hmake
  obtain ⟨words, rfl, hwords⟩ := runs_draw.mp hw
  obtain ⟨headers, -, rfl⟩ := runs_makeProductionSynthesizer.mp hwords
  obtain ⟨v, hv, hc⟩ := runs_handle_some.mp hrun
  exact ⟨headers, words, [], v, t', rfl, hv, nofun, hc⟩

theorem playText_carries {args : PlaybackArguments} {text : Bytes}
    (run : (playText env converter jsonParse fuel args text).Runs t (some result)) :
    Carries converter jsonParse fuel ((dispatcher env).playText args text) t result := by
  have haside : ∀ suffix, ((dispatcher env).tempProvider suffix).Issues Aside :=
    tempProvider_aside env
  obtain ⟨t₁, t, mp3, rfl, hmp3, run⟩ := runs_bind.mp run
  refine .bind (haside _) hmp3 ?_
  rcases mp3 with x | _ | mp3
  · obtain ⟨rfl, heq⟩ := run
    cases heq
    exact carries_onCli trivial ⟨rfl, rfl⟩
  · obtain ⟨t, _, _, rfl, htold, rfl, heq⟩ := runs_bind.mp run
    cases heq
    exact .bind ⟨trivial, fun _ => trivial⟩ htold (carries_onCli trivial ⟨rfl, rfl⟩)
  · obtain ⟨t₂, t, srt, rfl, hsrt, run⟩ := runs_bind.mp run
    refine .bind (haside _) hsrt ?_
    rcases srt with x | srt
    · obtain ⟨rfl, heq⟩ := run
      cases heq
      exact carries_onCli trivial ⟨rfl, rfl⟩
    · exact carries_handle run

theorem dispatchPlay_carries {args : PlaybackArguments}
    (run : (dispatchPlay env converter jsonParse fuel args).Runs t (some result)) :
    Carries converter jsonParse fuel ((dispatcher env).dispatchPlay args) t result := by
  unfold dispatchPlay at run
  by_cases hmpv : args.useMpv = true
  · rw [if_pos hmpv] at run
    refine carries_onCli ?_ (runs_some_map.mp run)
    rw [PlaybackCommandDispatcher.dispatchPlay, if_pos hmpv]
    exact ⟨trivial, fun _ => trivial⟩
  · rw [if_neg hmpv] at run
    rw [PlaybackCommandDispatcher.dispatchPlay, if_neg hmpv]
    obtain ⟨t₁, t, loaded, rfl, hload, run⟩ := runs_bind.mp run
    refine .bind (PlaybackCommandDispatcher.loadPlayback_aside args) hload ?_
    rcases loaded with x | e | text
    · obtain ⟨rfl, heq⟩ := run
      cases heq
      exact carries_onCli trivial ⟨rfl, rfl⟩
    · exact carries_onCli (PlaybackCommandDispatcher.fail_aside e) (runs_some_map.mp run)
    · exact playText_carries run

/-- **A run of the program** is a run of `main`. -/
theorem deviceMain_carries {tokens : List Bytes}
    (run : (deviceMain env converter jsonParse fuel tokens).Runs t (some result)) :
    Carries converter jsonParse fuel (main env tokens) t result := by
  unfold deviceMain at run
  dsimp only at run
  rw [main, PlaybackCommandDispatcher.dispatch]
  cases haction : (PlaybackArgumentParser.parse tokens).action with
  | play =>
      rw [haction] at run
      exact dispatchPlay_carries run
  | help =>
      rw [haction] at run
      have hrun := runs_some_map.mp run
      rw [PlaybackCommandDispatcher.dispatch, haction] at hrun
      exact carries_onCli ⟨trivial, fun _ => trivial⟩ hrun
  | error =>
      rw [haction] at run
      have hrun := runs_some_map.mp run
      rw [PlaybackCommandDispatcher.dispatch, haction] at hrun
      exact carries_onCli ⟨trivial, fun _ => trivial⟩ hrun

end

/-! ## What is seen of a run -/

/-- What happened in the stack. -/
def stackEvents (t : DeviceTrace) : StackTrace :=
  t.filterMap fun
    | ⟨.stack command, reply⟩ => some ⟨command, reply⟩
    | ⟨.player _, _⟩ => none

@[simp] theorem stackEvents_append (t t' : DeviceTrace) :
    stackEvents (t ++ t') = stackEvents t ++ stackEvents t' := List.filterMap_append

@[simp] theorem stackEvents_map (u : StackTrace) : stackEvents (u.map deviceStackEvent) = u := by
  rw [stackEvents, List.filterMap_map]
  exact List.filterMap_some

@[simp] theorem stackEvents_cli (u : CliTrace) : stackEvents (u.map deviceCliEvent) = [] := by
  rw [stackEvents, List.filterMap_map]
  exact List.filterMap_eq_nil_iff.mpr fun _ _ => rfl

theorem mem_stackEvents {t : DeviceTrace} {command : StackCommand} {reply : StackReply command}
    (h : ⟨command, reply⟩ ∈ stackEvents t) : ⟨.stack command, reply⟩ ∈ t := by
  obtain ⟨⟨c, r⟩, hmem, hsome⟩ := List.mem_filterMap.mp h
  cases c with
  | stack command' =>
      cases hsome
      exact hmem
  | player command' => cases hsome

/-- What an event does to the files. -/
def deviceAction : Event DeviceCommand DeviceReply → Option (Action Bytes Bytes)
  | ⟨.stack command, reply⟩ => stackFileAction ⟨command, reply⟩
  | ⟨.player (.cli command), reply⟩ => cliAction ⟨command, reply⟩
  | ⟨.player (.media _), _⟩ => none

/-- What a run does to the files. -/
def deviceActions (t : DeviceTrace) : List (Action Bytes Bytes) := t.filterMap deviceAction

@[simp] theorem deviceActions_append (t t' : DeviceTrace) :
    deviceActions (t ++ t') = deviceActions t ++ deviceActions t' := List.filterMap_append

@[simp] theorem deviceActions_map (u : StackTrace) :
    deviceActions (u.map deviceStackEvent) = stackFileActions u := by
  rw [deviceActions, List.filterMap_map]
  rfl

@[simp] theorem deviceActions_cli (u : CliTrace) :
    deviceActions (u.map deviceCliEvent) = cliActions u := by
  rw [deviceActions, List.filterMap_map]
  rfl

/-- No process is started. -/
def NoProcess (t : DeviceTrace) : Prop :=
  ∀ ev ∈ t, ∀ cmd, ev.1 ≠ .player (.media (.run cmd))

theorem NoProcess.append {t t' : DeviceTrace} (h : NoProcess t) (h' : NoProcess t') :
    NoProcess (t ++ t') := List.forall_mem_append.mpr ⟨h, h'⟩

theorem noProcess_stack (u : StackTrace) : NoProcess (u.map deviceStackEvent) := by
  intro ev hev cmd heq
  obtain ⟨ev', -, rfl⟩ := List.mem_map.mp hev
  cases heq

theorem noProcess_cli (u : CliTrace) : NoProcess (u.map deviceCliEvent) := by
  intro ev hev cmd heq
  obtain ⟨ev', -, rfl⟩ := List.mem_map.mp hev
  cases heq

/-- Where nothing is played the library is carried out by its stack, and the files are those of
the dispatcher. -/
theorem carriedOut_library {synth : ProductionSynthesizer} {fuel : Nat}
    {converter : FfmpegAudioConverter} {v : CliTrace} {t : DeviceTrace}
    (hc : CarriedOut (deviceHandler synth fuel converter) v t) (silent : Silent v) :
    CarriedOut (synth.apiHandler fuel) (libraryEvents v) (stackEvents t) ∧
      deviceActions t = cliActions v ∧ NoProcess t := by
  induction hc with
  | nil => exact ⟨.nil, rfl, nofun⟩
  | @cons c r v t t' first rest ih =>
      obtain ⟨hfirst, hrest⟩ := List.forall_mem_cons.mp silent
      obtain ⟨hstack, hactions, hidle⟩ := ih hrest
      have hcons : cliActions (⟨c, r⟩ :: v) = (cliAction ⟨c, r⟩).toList ++ cliActions v := by
        cases haction : cliAction ⟨c, r⟩ <;> simp [cliActions, haction]
      rw [stackEvents_append, deviceActions_append, hactions, hcons]
      cases c with
      | api command =>
          obtain ⟨u, rfl, hu⟩ := onStack_runs first
          rw [stackEvents_map, deviceActions_map, stackFileActions, apiHandler_file command r u hu]
          exact ⟨.cons hu hstack, rfl, (noProcess_stack u).append hidle⟩
      | playMp3 path => exact absurd rfl (hfirst path)
      | _ =>
          obtain ⟨u, rfl, hu⟩ := onPlayer_runs first
          rw [runs_some_perform.mp hu]
          exact ⟨hstack, rfl, (noProcess_cli [⟨_, r⟩]).append hidle⟩

/-- The process that plays a file. -/
def playing (tool mp3 : Bytes) (played : ProcessResult) : Event DeviceCommand DeviceReply :=
  ⟨.player (.media (.run ⟨tool, [lit "-nodisp", lit "-autoexit", mp3]⟩)), .ok played⟩

/-- A file is played by the first `ffplay` that is found. -/
theorem carriedOut_played {synth : ProductionSynthesizer} {fuel : Nat}
    {converter : FfmpegAudioConverter} {mp3 : Bytes} {t : DeviceTrace} {reply : Result Unit}
    (run : (deviceHandler synth fuel converter (.playMp3 mp3)).Runs t (some reply))
    (good : PlaybackCommandDispatcher.playedCode reply = 0) :
    ∃ looked tool played, t = (looked.map mediaEvent).map devicePlayerEvent ++
        [playing tool mp3 played] ∧
      Searched (candidates (lit "ffplay") converter.pathEnv) looked (some tool) ∧
      played.exitCode = 0 := by
  obtain ⟨u, rfl, hu⟩ := onPlayer_runs run
  obtain ⟨w, rfl, hw⟩ := callConverter_runs (runs_some_map.mp hu)
  rcases FfmpegAudioConverter.runTool_runs hw with
    ⟨-, rfl⟩ | ⟨looked, tool, reply, rfl, hsearched, rfl⟩
  · cases good
  · obtain ⟨played, rfl, hcode⟩ := (playedCode_finished _ _).mp good
    exact ⟨looked, tool, played, by simp [playing, devicePlayerEvent, mediaEvent], hsearched,
      hcode⟩

/-- The file is played in the part of the run that has a synthesizer. -/
theorem split_of_aside {u v before after : CliTrace} {path : Bytes} {reply : Result Unit}
    (aside : ∀ ev ∈ u, Aside ev.1) (h : u ++ v = before ++ ⟨.playMp3 path, reply⟩ :: after) :
    ∃ x, before = u ++ x ∧ v = x ++ ⟨.playMp3 path, reply⟩ :: after := by
  rcases List.append_eq_append_iff.mp h with ⟨x, rfl, hv⟩ | ⟨x, rfl, hx⟩
  · exact ⟨x, rfl, hv⟩
  · cases x with
    | nil => exact ⟨[], by simp, hx.symm⟩
    | cons ev x =>
        obtain ⟨rfl, -⟩ := List.cons.inj hx
        have haside : Aside (.playMp3 path) := aside ⟨_, reply⟩ (by simp)
        exact haside.elim

/-- What is read for the text is read from the machine. -/
theorem mem_of_reads {synth : ProductionSynthesizer} {fuel : Nat}
    {converter : FfmpegAudioConverter} {v : CliTrace} {t : DeviceTrace}
    (hc : CarriedOut (deviceHandler synth fuel converter) v t) {ev : Event CliCommand CliReply}
    (hev : ev ∈ v) (reads : InputLoader.Reads ev.1) : deviceCliEvent ev ∈ t := by
  obtain ⟨c, reply⟩ := ev
  obtain ⟨t₁, hrun, hpart⟩ := hc.run_of_mem hev
  refine hpart.subset ?_
  cases c with
  | readStdin | isDirectory path | readFile path =>
      obtain ⟨u, rfl, hu⟩ := onPlayer_runs hrun
      rw [runs_some_perform.mp hu]
      exact List.mem_singleton_self _
  | _ => exact reads.elim

/-- A playback that has come to a good end.  `before`, the talks have been held and their audio
and subtitles saved; then `looked` has found the player, whose process has played the file; and
what is not to be kept has been removed `after`. -/
structure Playback (env : Env) (converter : FfmpegAudioConverter) (jsonParse : Bytes → JsonParse)
    (args : PlaybackArguments) (text : Bytes) (talks : List Talk) (before : DeviceTrace)
    (looked : MediaTrace) (tool mp3 : Bytes) (played : ProcessResult) (after : DeviceTrace) :
    Prop where
  loaded : ∃ t₀, (InputLoader.loadPlayback args).Runs t₀ (.ok (.ok text)) ∧
    ∀ ev ∈ t₀, deviceCliEvent ev ∈ before
  wire : stackWire (stackEvents before) = talks.flatMap Talk.wire
  upgrades : Upgrades talks
  silent : stackEvents after = []
  turns : ∀ talk ∈ talks, (stackSession jsonParse).WholeTurn talk.messages ∧
    (talk.heard jsonParse).any isAudio = true
  spoken : (0x27 : UInt8) ∉ args.voice →
    (∀ now, ⟨.stack .now, now⟩ ∈ before → FourDigitYear now) → Utters (configOf args) text talks
  alone : NoProcess before ∧ NoProcess after
  found : Searched (candidates (lit "ffplay") converter.pathEnv) looked (some tool)
  exited : played.exitCode = 0
  files : ∃ (srt : Option Bytes) (subtitles : Bytes) (mp3Removed srtRemoved : Bool),
    Captioned jsonParse talks subtitles ∧
    deviceActions before =
      .write mp3 (talks.flatMap fun talk => audioOf (talk.heard jsonParse)) true ::
        srt.toList.map (fun path => .write path subtitles true) ∧
    deviceActions after = if env.keepTemp then [] else .remove mp3 mp3Removed ::
      srt.toList.map fun path => .remove path srtRemoved

/-- **What edge-playback says is the text, and what it plays is what the service has sent.**  A
run that plays and ends with 0 has loaded a text and held its talks, each up to a turn end and with
audio in it; a server decodes them to the configuration and the text of the command line.  Their
audio has been written to the media file, and their subtitles to the other file if there is one;
then one process has been started, the first executable `ffplay` in the segments of `PATH` with the
media file, and it has exited with 0; and after it, what is not to be kept has been removed.
Nothing else has been done to any file. -/
theorem deviceMain_plays {env : Env} {converter : FfmpegAudioConverter}
    {jsonParse : Bytes → JsonParse} {fuel : Nat} {tokens : List Bytes} {t : DeviceTrace}
    (run : (deviceMain env converter jsonParse fuel tokens).Runs t (some (.ok 0)))
    (plays : (PlaybackArgumentParser.parse tokens).action = .play) :
    ∃ text talks before looked tool mp3 played after,
      t = before ++ ((looked.map mediaEvent).map devicePlayerEvent ++
        playing tool mp3 played :: after) ∧
      Playback env converter jsonParse (PlaybackArgumentParser.parse tokens).arguments text talks
        before looked tool mp3 played after := by
  obtain ⟨headers, words, u, v, t', rfl, hmain, haside, hc⟩ := deviceMain_carries run
  rcases PlaybackCommandDispatcher.dispatch_plays (tempProvider_aside env) hmain with
    ⟨-, hcode⟩ | ⟨before, mp3, srt, reply, after, hsplit, -, -, hplayed, hzero⟩
  · exact absurd rfl (hcode plays)
  obtain ⟨x, rfl, rfl⟩ := split_of_aside haside hsplit
  obtain ⟨tₓ, t', rfl, hcₓ, hc⟩ := hc.split
  cases hc with
  | @cons _ _ _ tₚ tₐ first rest =>
  have hsilent := List.forall_mem_append.mp hplayed.silent.1
  obtain ⟨hstack, hactions, hidle⟩ := carriedOut_library hcₓ hsilent.2
  obtain ⟨hstackₐ, hactionsₐ, hidleₐ⟩ := carriedOut_library rest hplayed.silent.2
  obtain ⟨looked, tool, played, rfl, hsearched, hexit⟩ :=
    carriedOut_played first (Except.ok.inj hzero).symm
  obtain ⟨t₀, text, s', hload, hsub, hsave⟩ := hplayed.saved
  -- the library has been called with a synthesizer only
  have hlibrary : libraryEvents (u ++ x) = libraryEvents x := by
    rw [libraryEvents_append, (PlaybackCommandDispatcher.quiet_of_aside haside).library,
      List.nil_append]
  rw [hlibrary] at hsave
  obtain ⟨texts, sessionTrace, chunks, _, submaker, subtitles, hs, hfed, hsrt, hfiles⟩ :=
    save_synthesis hsave hstack
  obtain ⟨talks, habout, hwire, hconvs, hturns, hout⟩ := hs.run.talks
  obtain ⟨mp3Removed, srtRemoved, hcleaned⟩ := hplayed.cleaned
  refine ⟨text, talks, u.map deviceCliEvent ++ ((drawnWords words).map deviceStackEvent ++ tₓ),
    looked, tool, mp3, played, tₐ, by simp, ?_⟩
  constructor
  · refine ⟨t₀, hload, fun ev hev => ?_⟩
    have hreads : InputLoader.Reads ev.1 :=
      (InputLoader.loadInput_issues _ _ _).of_runs hload ev hev
    rcases List.mem_append.mp (hsub hev) with hmem | hmem
    · exact List.mem_append_left _ (List.mem_map_of_mem hmem)
    · exact List.mem_append_right _ (List.mem_append_right _ (mem_of_reads hcₓ hmem hreads))
  · rw [stackEvents_append, stackEvents_append, stackEvents_cli, stackEvents_map, List.nil_append,
      stackWire_append, stackWire_drawnWords, List.nil_append, hs.wire_eq, hwire]
  · exact hs.upgrades habout fun talk htalk => (hturns talk htalk).1
  · rw [hplayed.afterwards] at hstackₐ
    exact carriedOut_nil.mp hstackₐ
  · exact fun talk htalk => (hturns talk htalk).2
  · intro plain years
    refine hs.decoded habout plain fun now hnow => years now ?_
    exact List.mem_append_right _ (List.mem_append_right _ (mem_stackEvents hnow))
  · exact ⟨(noProcess_cli u).append ((noProcess_stack _).append hidle), hidleₐ⟩
  · exact hsearched
  · exact hexit
  · refine ⟨srt, subtitles, mp3Removed, srtRemoved, toSrt_shows hs.run hconvs hfed hsrt, ?_, ?_⟩
    · rw [deviceActions_append, deviceActions_append, deviceActions_cli, deviceActions_map,
        stackFileActions_drawnWords, hactions, List.nil_append, ← cliActions_append, hplayed.files,
        hlibrary, hfiles, audioOf_of_untimed hout]
    · rw [hactionsₐ]
      exact hcleaned

/-- The service sends the messages, and there is an `ffplay`. -/
def sampleDevice : Environment DeviceCommand DeviceReply (List WebSocketMessage)
  | .stack command, messages => sampleMachine command messages
  | .player command, messages => ((playerMachine command fun _ => none).1, messages)

/-- The audio of one message is played. -/
theorem deviceMain_plays_sample :
    let run := (deviceMain namedEnv ⟨lit "/bin::/usr/bin"⟩ sampleSession.jsonParse 3
      [lit "--text", lit "Hi"]).runIn sampleDevice [audioMessage]
    ∃ text talks before looked tool mp3 played after,
      run.trace = before ++ ((looked.map mediaEvent).map devicePlayerEvent ++
        playing tool mp3 played :: after) ∧
      Playback namedEnv ⟨lit "/bin::/usr/bin"⟩ sampleSession.jsonParse
        (PlaybackArgumentParser.parse [lit "--text", lit "Hi"]).arguments text talks before looked
        tool mp3 played after := by
  intro run
  have hrun : (deviceMain namedEnv ⟨lit "/bin::/usr/bin"⟩ sampleSession.jsonParse 3
      [lit "--text", lit "Hi"]).Runs run.trace run.result := Prog.runs_runIn _ _ _
  have hzero : run.result = some (.ok 0) := by decide +kernel
  exact deviceMain_plays (hzero ▸ hrun) (by decide +kernel)

end EdgePlayback
end EdgeTts
