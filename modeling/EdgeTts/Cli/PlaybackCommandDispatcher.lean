import EdgeTts.Api.SavedFiles
import EdgeTts.Cli.CredentialRedaction
import EdgeTts.Cli.InputLoader

/-!
# `cli/PlaybackCommandDispatcher.cpp`

The guard of `dispatch_play` removes what the provider of temporary files has returned, on every
exit after it and wherever the paths come from.  Nothing else is removed, and nothing where no text
has been loaded (`dispatch_removes`).
-/
namespace EdgeTts

open Files (Action Disk After)
open InputLoader (inputOf inputOf_append inputOf_eq_self inputOf_eq_nil)
open Interaction (Prog Event)
open Interaction.Prog (perform runs_bind issues_mapCommands)

/-- `PlaybackCommandDispatcher`; `tempProvider` is given a suffix. -/
structure PlaybackCommandDispatcher where
  synthesizerFactory : Bytes → TtsConfig → SynthesisOptions → SpeechSynthesizer
  tempProvider : Bytes → Prog CliCommand CliReply (Except CliEscape (Option Bytes))
  keepTemp : Bool

namespace PlaybackCommandDispatcher

/-- `err_ << "error: " << format_error(e) << '\n'; return 1`. -/
def fail (e : Error) : Prog CliCommand CliReply (Except CliEscape Int) := do
  perform (CliCommand.err (lit "error: " ++ formatError e ++ lit "\n"))
  return .ok 1

/-- The destructor of `TempGuard`; its errors are dropped. -/
def cleanUp (keep : Bool) (mp3 : Bytes) (srt : Option Bytes) : Prog CliCommand CliReply Unit :=
  if keep then return ()
  else do
    let _ ← perform (CliCommand.remove mp3)
    match srt with
    | none => return ()
    | some srt =>
        let _ ← perform (CliCommand.remove srt)
        return ()

/-- The configuration of a synthesis. -/
def configOf (args : PlaybackArguments) : TtsConfig :=
  { voice := args.voice, rate := args.rate, volume := args.volume, pitch := args.pitch }

/-- The transport options of a synthesis. -/
def optionsOf (args : PlaybackArguments) : SynthesisOptions := { proxy := args.proxy }

/-- Steps 6 and 7 of `dispatch_play`. -/
def saveAndPlay (synthesizer : SpeechSynthesizer) (tmpMp3 : Bytes) (srt : Option Bytes) :
    Prog CliCommand CliReply (Except CliEscape Int) := do
  let (_, saved) ← callLibrary (synthesizer.save tmpMp3 srt)
  match saved with
  | .escape x => return .error (.library x)
  | .fail e => fail e
  | .ok _ =>
      match ← perform (CliCommand.playMp3 tmpMp3) with
      | .error e => fail e
      | .ok _ => return .ok 0

/-- `dispatch_play`, once the text is loaded. -/
def playText (d : PlaybackCommandDispatcher) (args : PlaybackArguments) (text : Bytes) :
    Prog CliCommand CliReply (Except CliEscape Int) := do
  match ← d.tempProvider (lit ".mp3") with
  | .error x => return .error x
  | .ok none =>
      perform (CliCommand.err (lit "error: temp file provider returned no path for .mp3\n"))
      return .ok 1
  | .ok (some tmpMp3) =>
      match ← d.tempProvider (lit ".srt") with
      | .error x => return .error x
      | .ok srt =>
          -- from here on the guard cleans up, when an exception leaves as well
          let synthesizer := d.synthesizerFactory text (configOf args) (optionsOf args)
          let result ← saveAndPlay synthesizer tmpMp3 srt
          cleanUp d.keepTemp tmpMp3 srt
          return result

/-- `dispatch_play`. -/
def dispatchPlay (d : PlaybackCommandDispatcher) (args : PlaybackArguments) :
    Prog CliCommand CliReply (Except CliEscape Int) :=
  if args.useMpv then do
    perform (CliCommand.err (lit "error: --mpv is not supported in this build; " ++
      lit "only ffplay is available. Remove --mpv to use ffplay.\n"))
    return .ok 1
  else do
    match ← InputLoader.loadPlayback args with
    | .error x => return .error x
    | .ok (.error e) => fail e
    | .ok (.ok text) => d.playText args text

/-- `dispatch`. -/
def dispatch (d : PlaybackCommandDispatcher) (result : PlaybackParseResult) :
    Prog CliCommand CliReply (Except CliEscape Int) :=
  match result.action with
  | .help => do
      perform (CliCommand.out result.message)
      return .ok 0
  | .error => do
      perform (CliCommand.err (lit "edge-playback: " ++ result.message ++ lit "\n"))
      return .ok 2
  | .play => d.dispatchPlay result.arguments

/-! ## What is removed -/

/-- A command that removes nothing. -/
def RemovesNothing (c : CliCommand) : Prop := ∀ path, c ≠ .remove path

/-- A command that neither removes anything nor reads the input. -/
structure Neutral (c : CliCommand) : Prop where
  removesNothing : RemovesNothing c
  notInput : ¬ InputLoader.Reads c

theorem fail_issues (e : Error) : (fail e).Issues Neutral :=
  ⟨⟨nofun, id⟩, fun _ => trivial⟩

theorem callLibrary_issues {α : Type} (p : Prog ApiCommand ApiReply α) :
    (callLibrary p).Issues Neutral :=
  issues_mapCommands (fun _ => ⟨nofun, id⟩) p

theorem saveAndPlay_issues (synthesizer : SpeechSynthesizer) (tmpMp3 : Bytes)
    (srt : Option Bytes) : (saveAndPlay synthesizer tmpMp3 srt).Issues Neutral := by
  refine (callLibrary_issues _).bind fun saved => ?_
  obtain ⟨s', saved⟩ := saved
  cases saved with
  | escape x => trivial
  | fail e => exact fail_issues e
  | ok _ =>
      refine ⟨⟨nofun, id⟩, fun played => ?_⟩
      cases played with
      | error e => exact fail_issues e
      | ok _ => trivial

theorem cleanUp_issues (keep : Bool) (mp3 : Bytes) (srt : Option Bytes) :
    (cleanUp keep mp3 srt).Issues (¬ InputLoader.Reads ·) := by
  unfold cleanUp
  cases keep with
  | true => trivial
  | false =>
      refine ⟨id, fun _ => ?_⟩
      cases srt with
      | none => trivial
      | some srt => exact ⟨id, fun _ => trivial⟩

theorem loadPlayback_issues (args : PlaybackArguments) :
    (InputLoader.loadPlayback args).Issues RemovesNothing := by
  refine (InputLoader.loadInput_issues _ _ _).mono ?_
  rintro c hreads path rfl
  exact hreads

/-- A removal is not part of what removes nothing. -/
theorem not_mem_of_issues {α : Type} {p : Prog CliCommand CliReply α} {t : CliTrace} {a : α}
    (quiet : p.Issues Neutral) (run : p.Runs t a) {path : Bytes} {removed : Bool} :
    ⟨.remove path, removed⟩ ∉ t :=
  fun hmem => (quiet.of_runs run _ hmem).removesNothing path rfl

theorem mem_append_of_issues {α : Type} {p : Prog CliCommand CliReply α} {t t' : CliTrace} {a : α}
    (quiet : p.Issues Neutral) (run : p.Runs t a) {path : Bytes} {removed : Bool}
    (h : ⟨.remove path, removed⟩ ∈ t ++ t') : ⟨.remove path, removed⟩ ∈ t' :=
  (List.mem_append.mp h).resolve_left (not_mem_of_issues quiet run)

theorem cleanUp_removes {keep : Bool} {mp3 : Bytes} {srt : Option Bytes} {t : CliTrace} {u : Unit}
    (run : (cleanUp keep mp3 srt).Runs t u) {path : Bytes} {removed : Bool}
    (h : ⟨.remove path, removed⟩ ∈ t) : keep = false ∧ (path = mp3 ∨ srt = some path) := by
  unfold cleanUp at run
  cases keep with
  | true =>
      obtain ⟨rfl, -⟩ := run
      cases h
  | false =>
      refine ⟨rfl, ?_⟩
      obtain ⟨removed₁, t, rfl, run⟩ := run
      rcases List.mem_cons.mp h with heq | h
      · cases heq
        exact .inl rfl
      · cases srt with
        | none =>
            obtain ⟨rfl, -⟩ := run
            cases h
        | some srt =>
            obtain ⟨removed₂, t, rfl, rfl, -⟩ := run
            cases List.mem_singleton.mp h
            exact .inr rfl

section
variable {d : PlaybackCommandDispatcher} {t : CliTrace} {result : Except CliEscape Int}
  {path : Bytes} {removed : Bool}

/-- The provider has returned the path, in the course of the trace. -/
def Provided (d : PlaybackCommandDispatcher) (t : CliTrace) (path : Bytes) : Prop :=
  ∃ suffix t₁, (d.tempProvider suffix).Runs t₁ (.ok (some path)) ∧ t₁ ⊆ t

/-- **Once the text is loaded** nothing more is read. -/
theorem playText_issues (args : PlaybackArguments) (text : Bytes)
    (quiet : ∀ suffix, (d.tempProvider suffix).Issues Neutral) :
    (d.playText args text).Issues (¬ InputLoader.Reads ·) := by
  refine ((quiet _).mono fun _ => Neutral.notInput).bind fun mp3 => ?_
  rcases mp3 with x | _ | tmpMp3
  · trivial
  · exact ⟨id, fun _ => trivial⟩
  · refine ((quiet _).mono fun _ => Neutral.notInput).bind fun srt => ?_
    cases srt with
    | error x => trivial
    | ok srt =>
        refine ((saveAndPlay_issues _ _ _).mono fun _ => Neutral.notInput).bind fun played => ?_
        exact (cleanUp_issues _ _ _).bind fun _ => trivial

theorem playText_removes {args : PlaybackArguments} {text : Bytes}
    (quiet : ∀ suffix, (d.tempProvider suffix).Issues Neutral)
    (run : (d.playText args text).Runs t result) (h : ⟨.remove path, removed⟩ ∈ t) :
    d.keepTemp = false ∧ d.Provided t path := by
  rw [playText] at run
  obtain ⟨t₁, t₂, mp3, rfl, hmp3, run⟩ := runs_bind.mp run
  have h := mem_append_of_issues (quiet _) hmp3 h
  rcases mp3 with x | _ | tmpMp3
  · obtain ⟨rfl, -⟩ := run
    cases h
  · obtain ⟨u, t, rfl, rfl, -⟩ := run
    cases List.mem_singleton.mp h
  · obtain ⟨t₃, t₄, srt, rfl, hsrt, run⟩ := runs_bind.mp run
    have h := mem_append_of_issues (quiet _) hsrt h
    rcases srt with x | srt
    · obtain ⟨rfl, -⟩ := run
      cases h
    · obtain ⟨t₅, t₆, played, rfl, hplayed, run⟩ := runs_bind.mp run
      have h := mem_append_of_issues (saveAndPlay_issues _ _ _) hplayed h
      obtain ⟨t₇, t₈, u, rfl, hclean, rfl, -⟩ := runs_bind.mp run
      rw [List.append_nil] at h
      obtain ⟨hkeep, hpath⟩ := cleanUp_removes hclean h
      refine ⟨hkeep, ?_⟩
      rcases hpath with rfl | rfl
      · exact ⟨_, t₁, hmp3, fun ev hev => by simp [hev]⟩
      · exact ⟨_, t₃, hsrt, fun ev hev => by simp [hev]⟩

/-- A playback is asked for that is not refused, and what has been read is a text. -/
structure Loads (parsed : PlaybackParseResult) (input : CliTrace) : Prop where
  action : parsed.action = .play
  useMpv : parsed.arguments.useMpv = false
  text : ∃ text, (InputLoader.loadPlayback parsed.arguments).Runs input (.ok (.ok text))

/-- **What is removed**: only paths that the provider has returned, when a text has been loaded and
nothing is to be kept. -/
theorem dispatch_removes {parsed : PlaybackParseResult}
    (quiet : ∀ suffix, (d.tempProvider suffix).Issues Neutral)
    (run : (d.dispatch parsed).Runs t result) (h : ⟨.remove path, removed⟩ ∈ t) :
    Loads parsed (inputOf t) ∧ d.keepTemp = false ∧ d.Provided t path := by
  rw [dispatch] at run
  cases haction : parsed.action with
  | help =>
      rw [haction] at run
      obtain ⟨u, t, rfl, rfl, -⟩ := run
      cases List.mem_singleton.mp h
  | error =>
      rw [haction] at run
      obtain ⟨u, t, rfl, rfl, -⟩ := run
      cases List.mem_singleton.mp h
  | play =>
      rw [haction] at run
      dsimp only at run
      rw [dispatchPlay] at run
      by_cases hmpv : parsed.arguments.useMpv = true
      · rw [if_pos hmpv] at run
        obtain ⟨u, t, rfl, rfl, -⟩ := run
        cases List.mem_singleton.mp h
      · rw [if_neg hmpv] at run
        obtain ⟨t₁, t₂, loaded, rfl, hload, run⟩ := runs_bind.mp run
        have h := (List.mem_append.mp h).resolve_left fun hmem =>
          (loadPlayback_issues _).of_runs hload _ hmem path rfl
        rcases loaded with x | e | text
        · obtain ⟨rfl, -⟩ := run
          cases h
        · exact absurd h (not_mem_of_issues (fail_issues e) run)
        · obtain ⟨hkeep, suffix, t₃, hprovided, hsub⟩ := playText_removes quiet run h
          have hreads := (InputLoader.loadInput_issues _ _ _).of_runs hload
          have hinput : inputOf (t₁ ++ t₂) = t₁ := by
            rw [inputOf_append, inputOf_eq_self hreads,
              inputOf_eq_nil ((playText_issues _ _ quiet).of_runs run), List.append_nil]
          refine ⟨⟨haction, by simpa using hmpv, text, hinput.symm ▸ hload⟩, hkeep, suffix, t₃,
            hprovided, ?_⟩
          exact fun ev hev => List.mem_append_right t₁ (hsub hev)

end

/-! ## A call that fails -/

/-- What an event does to the files. -/
def cliAction : Event CliCommand CliReply → Option (Action Bytes Bytes)
  | ⟨.api command, reply⟩ => fileAction ⟨command, reply⟩
  | ⟨.remove path, removed⟩ => some (.remove path removed)
  | _ => none

/-- What a trace does to the files. -/
def cliActions (t : CliTrace) : List (Action Bytes Bytes) := t.filterMap cliAction

@[simp] theorem cliActions_append (t t' : CliTrace) :
    cliActions (t ++ t') = cliActions t ++ cliActions t' :=
  List.filterMap_append

@[simp] theorem cliActions_map (t : ApiTrace) :
    cliActions (t.map libraryEvent) = fileActions t := by
  rw [cliActions, List.filterMap_map]
  rfl

theorem mem_cliActions_remove {t : CliTrace} {path : Bytes} {removed : Bool} :
    .remove path removed ∈ cliActions t ↔ ⟨.remove path, removed⟩ ∈ t := by
  rw [cliActions, List.mem_filterMap]
  constructor
  · rintro ⟨⟨c, reply⟩, hmem, haction⟩
    cases c with
    | api command => cases command <;> cases haction
    | remove path' =>
        cases haction
        exact hmem
    | _ => cases haction
  · intro hmem
    exact ⟨_, hmem, rfl⟩

/-- Nothing happens in the library or to the files. -/
structure Quiet (t : CliTrace) : Prop where
  library : libraryEvents t = []
  files : cliActions t = []

theorem loadPlayback_quiet {args : PlaybackArguments} {t : CliTrace}
    {loaded : Except CliEscape (Result Bytes)}
    (run : (InputLoader.loadPlayback args).Runs t loaded) : Quiet t := by
  have hreads : ∀ ev ∈ t, InputLoader.Reads ev.1 := (InputLoader.loadInput_issues _ _ _).of_runs run
  refine ⟨libraryEvents_eq_nil fun ev hev => (hreads ev hev).isOwn, ?_⟩
  refine List.filterMap_eq_nil_iff.mpr fun ev hev => ?_
  obtain ⟨c, reply⟩ := ev
  cases c with
  | readStdin => rfl
  | isDirectory path => rfl
  | readFile path => rfl
  | _ => exact (hreads _ hev).elim

/-- Nobody has cancelled the synthesis. -/
def Uncancelled (t : CliTrace) : Prop := ⟨.isCancelled, true⟩ ∉ libraryEvents t

theorem saveAndPlay_fails {synthesizer : SpeechSynthesizer} (fresh : synthesizer.called = false)
    (tmpMp3 : Bytes) (srt : Option Bytes) :
    ∃ t, (saveAndPlay synthesizer tmpMp3 srt).Runs t (.ok 1) ∧ Uncancelled t ∧
      ∀ {F : Type} (file : Bytes → F) (disk : Disk F Bytes),
        After file (cliActions t) disk disk := by
  obtain ⟨t, e, hsave, hcancelled, hfiles⟩ := save_fails fresh tmpMp3 srt
  refine ⟨t.map libraryEvent ++ [⟨.err (lit "error: " ++ formatError e ++ lit "\n"), ()⟩],
    runs_bind.mpr ⟨_, _, _, rfl, runs_callLibrary hsave, (), _, rfl, rfl, rfl⟩, ?_, ?_⟩
  · rw [Uncancelled, libraryEvents_append, libraryEvents_map]
    exact fun hmem => hcancelled ((List.mem_append.mp hmem).resolve_right List.not_mem_nil)
  · intro F file disk
    rw [cliActions_append, cliActions_map]
    exact (List.append_nil (fileActions t)).symm ▸ hfiles file disk

theorem cleanUp_runs (mp3 : Bytes) (srt : Option Bytes) (mp3Removed srtRemoved : Bool) :
    ∃ t, (cleanUp false mp3 srt).Runs t () ∧ libraryEvents t = [] ∧
      cliActions t = .remove mp3 mp3Removed :: srt.toList.map fun path =>
        .remove path srtRemoved := by
  cases srt with
  | none => exact ⟨_, ⟨mp3Removed, _, rfl, rfl, rfl⟩, rfl, rfl⟩
  | some srt => exact ⟨_, ⟨mp3Removed, _, rfl, srtRemoved, _, rfl, rfl, rfl⟩, rfl, rfl⟩

/-- **A call that fails removes the files it was given**, though it may have left them alone. -/
theorem dispatch_fails {d : PlaybackCommandDispatcher} {parsed : PlaybackParseResult}
    {input : CliTrace} (loads : Loads parsed input) (remove : d.keepTemp = false)
    (quiet : ∀ suffix, (d.tempProvider suffix).Issues Neutral)
    (fresh : ∀ text config options, (d.synthesizerFactory text config options).called = false)
    {mp3 : Bytes} {srt : Option Bytes} {t₁ t₂ : CliTrace}
    (hmp3 : (d.tempProvider (lit ".mp3")).Runs t₁ (.ok (some mp3))) (quiet₁ : Quiet t₁)
    (hsrt : (d.tempProvider (lit ".srt")).Runs t₂ (.ok srt)) (quiet₂ : Quiet t₂)
    (mp3Removed srtRemoved : Bool) :
    ∃ t actions, (d.dispatch parsed).Runs t (.ok 1) ∧ inputOf t = input ∧ Uncancelled t ∧
      cliActions t = actions ++ .remove mp3 mp3Removed :: (srt.toList.map fun path =>
        .remove path srtRemoved) ∧
      ∀ {F : Type} (file : Bytes → F) (disk : Disk F Bytes), After file actions disk disk := by
  obtain ⟨text, hload⟩ := loads.text
  have quiet₀ : Quiet input := loadPlayback_quiet hload
  obtain ⟨t₃, hfails, huncancelled, hfiles⟩ := saveAndPlay_fails
    (fresh text (configOf parsed.arguments) (optionsOf parsed.arguments)) mp3 srt
  obtain ⟨t₄, hclean, hlibrary, hactions⟩ := cleanUp_runs mp3 srt mp3Removed srtRemoved
  have hplay : (d.playText parsed.arguments text).Runs (t₁ ++ (t₂ ++ (t₃ ++ (t₄ ++ []))))
      (.ok 1) := by
    rw [playText, remove]
    refine runs_bind.mpr ⟨t₁, _, _, rfl, hmp3, runs_bind.mpr ⟨t₂, _, _, rfl, hsrt, ?_⟩⟩
    exact runs_bind.mpr ⟨t₃, _, _, rfl, hfails, runs_bind.mpr ⟨t₄, _, _, rfl, hclean, rfl, rfl⟩⟩
  refine ⟨input ++ (t₁ ++ (t₂ ++ (t₃ ++ (t₄ ++ [])))), cliActions t₃, ?_, ?_, ?_, ?_, hfiles⟩
  · rw [dispatch, loads.action]
    dsimp only
    rw [dispatchPlay, if_neg (by rw [loads.useMpv]; decide)]
    exact runs_bind.mpr ⟨input, _, _, rfl, hload, hplay⟩
  · rw [inputOf_append, inputOf_eq_self ((InputLoader.loadInput_issues _ _ _).of_runs hload),
      inputOf_eq_nil ((playText_issues _ _ quiet).of_runs hplay), List.append_nil]
  · simp only [Uncancelled, libraryEvents_append, quiet₀.library, quiet₁.library, quiet₂.library,
      hlibrary, List.nil_append]
    exact fun hmem => huncancelled ((List.mem_append.mp hmem).resolve_right List.not_mem_nil)
  · simp only [cliActions_append, quiet₀.files, quiet₁.files, quiet₂.files, hactions,
      List.nil_append]
    exact congrArg (cliActions t₃ ++ ·) (List.append_nil _)

end PlaybackCommandDispatcher
end EdgeTts
