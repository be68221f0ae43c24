import EdgeTts.Cli.PlaybackCommandDispatcher
import EdgeTts.Lib.Decimal

/-!
# `apps/edge-playback/main.cpp`

The provider of temporary files takes a path that an environment variable names, and generates
one otherwise.  The dispatcher is not told which, so a named file goes the way of a generated
one: `main_ownFiles_iff` says exactly when it stays.
-/
namespace EdgeTts
namespace EdgePlayback

open Files (Action Disk After after_append step_remove step_not_removed)
open Interaction (Prog)
open Interaction.Prog (perform runs_bind)
open InputLoader (inputOf)
open PlaybackCommandDispatcher (Neutral Loads Quiet Uncancelled cliActions mem_cliActions_remove)

/-- The environment variables: `EDGE_PLAYBACK_MP3_FILE`, `EDGE_PLAYBACK_SRT_FILE`, and whether
`EDGE_PLAYBACK_KEEP_TEMP` and `EDGE_PLAYBACK_DEBUG` are set. -/
structure Env where
  mp3File : Option Bytes := none
  srtFile : Option Bytes := none
  keepTemp : Bool := false
  debug : Bool := false
  deriving DecidableEq, Repr

/-- The path in a variable that is set and not empty. -/
def named (value : Option Bytes) : Option Bytes := value.filter (! ·.isEmpty)

/-- The path that is generated at a tick of the clock. -/
def generatedPath (dir : Bytes) (tick : Int) : Bytes :=
  joinPath dir (lit "edge_playback_" ++ Decimal.ofInt 1 tick ++ lit ".mp3")

/-- `if (debug) std::cout << ...`. -/
def report (debug : Bool) (label path : Bytes) : Prog CliCommand CliReply Unit :=
  if debug then perform (CliCommand.out (label ++ path ++ lit "\n")) else return ()

/-- `temp_provider`. -/
def tempProvider (env : Env) (suffix : Bytes) :
    Prog CliCommand CliReply (Except CliEscape (Option Bytes)) :=
  if suffix = lit ".mp3" then
    match named env.mp3File with
    | some path => return .ok (some path)
    | none => do
        let tick ← perform CliCommand.now
        match ← perform CliCommand.tempDirectoryPath with
        | none => return .error .filesystemError
        | some dir =>
            report env.debug (lit "Media file: ") (generatedPath dir tick)
            return .ok (some (generatedPath dir tick))
  else if suffix = lit ".srt" then
    match named env.srtFile with
    | some path => do
        report env.debug (lit "Subtitle file: ") path
        return .ok (some path)
    | none => return .ok none
  else return .ok none

/-- The dispatcher with the production dependencies. -/
def dispatcher (env : Env) : PlaybackCommandDispatcher where
  synthesizerFactory text config options := ⟨text, config, options, false⟩
  tempProvider := tempProvider env
  keepTemp := env.keepTemp

/-- `main`. -/
def main (env : Env) (tokens : List Bytes) : Prog CliCommand CliReply (Except CliEscape Int) :=
  (dispatcher env).dispatch (PlaybackArgumentParser.parse tokens)

/-! ## What the provider returns -/

/-- A variable names the path. -/
def Names (env : Env) (path : Bytes) : Prop :=
  named env.mp3File = some path ∨ named env.srtFile = some path

/-- The path was generated in the temp directory, in the course of the trace. -/
def Generated (t : CliTrace) (path : Bytes) : Prop :=
  ∃ dir tick, ⟨.now, tick⟩ ∈ t ∧ ⟨.tempDirectoryPath, some dir⟩ ∈ t ∧
    path = generatedPath dir tick

/-- The end of the provider: a path is reported and returned. -/
def reported (debug : Bool) (label path : Bytes) :
    Prog CliCommand CliReply (Except CliEscape (Option Bytes)) := do
  report debug label path
  return .ok (some path)

theorem report_issues (debug : Bool) (label path : Bytes) :
    (report debug label path).Issues Neutral := by
  unfold report
  cases debug with
  | true => exact ⟨⟨nofun, id⟩, fun _ => trivial⟩
  | false => trivial

theorem reported_issues (debug : Bool) (label path : Bytes) :
    (reported debug label path).Issues Neutral :=
  (report_issues debug label path).bind fun _ => trivial

theorem reported_runs {debug : Bool} {label path : Bytes} {t : CliTrace}
    {provided : Except CliEscape (Option Bytes)}
    (run : (reported debug label path).Runs t provided) : provided = .ok (some path) := by
  obtain ⟨t₁, t₂, u, -, -, -, heq⟩ := runs_bind.mp run
  exact heq.symm

theorem tempProvider_issues (env : Env) (suffix : Bytes) :
    (tempProvider env suffix).Issues Neutral := by
  unfold tempProvider
  by_cases hmp3 : suffix = lit ".mp3"
  · rw [if_pos hmp3]
    cases named env.mp3File with
    | some path => trivial
    | none =>
        refine ⟨⟨nofun, id⟩, fun tick => ⟨⟨nofun, id⟩, fun dir => ?_⟩⟩
        cases dir with
        | none => trivial
        | some dir => exact reported_issues _ _ _
  · rw [if_neg hmp3]
    by_cases hsrt : suffix = lit ".srt"
    · rw [if_pos hsrt]
      cases named env.srtFile with
      | some path => exact reported_issues _ _ _
      | none => trivial
    · rw [if_neg hsrt]
      trivial

/-- **A path of the provider** is named by a variable, or has been generated. -/
theorem tempProvider_runs {env : Env} {suffix path : Bytes} {t : CliTrace}
    (run : (tempProvider env suffix).Runs t (.ok (some path))) :
    Names env path ∨ Generated t path := by
  unfold tempProvider at run
  by_cases hmp3 : suffix = lit ".mp3"
  · rw [if_pos hmp3] at run
    cases hnamed : named env.mp3File with
    | some path' =>
        simp only [hnamed] at run
        obtain ⟨-, heq⟩ := run
        cases heq
        exact .inl (.inl hnamed)
    | none =>
        simp only [hnamed] at run
        obtain ⟨tick, t, rfl, dir, t, rfl, run⟩ := run
        cases dir with
        | none =>
            obtain ⟨-, heq⟩ := run
            cases heq
        | some dir =>
            cases reported_runs run
            exact .inr ⟨dir, tick, by simp, by simp, rfl⟩
  · rw [if_neg hmp3] at run
    by_cases hsrt : suffix = lit ".srt"
    · rw [if_pos hsrt] at run
      cases hnamed : named env.srtFile with
      | some path' =>
          simp only [hnamed] at run
          cases reported_runs run
          exact .inl (.inr hnamed)
      | none =>
          simp only [hnamed] at run
          obtain ⟨-, heq⟩ := run
          cases heq
    · rw [if_neg hsrt] at run
      obtain ⟨-, heq⟩ := run
      cases heq

/-! ## What is removed -/

/-- The arguments ask for a playback that is not refused. -/
def Plays (tokens : List Bytes) : Prop :=
  (PlaybackArgumentParser.parse tokens).action = .play ∧
    (PlaybackArgumentParser.parse tokens).arguments.useMpv = false

theorem main_removes {env : Env} {tokens : List Bytes} {t : CliTrace}
    {result : Except CliEscape Int} (run : (main env tokens).Runs t result) {path : Bytes}
    {removed : Bool} (h : ⟨.remove path, removed⟩ ∈ t) :
    Loads (PlaybackArgumentParser.parse tokens) (inputOf t) ∧ env.keepTemp = false ∧
      (Names env path ∨ Generated t path) := by
  obtain ⟨hloads, hkeep, suffix, t₁, hprovided, hsub⟩ :=
    PlaybackCommandDispatcher.dispatch_removes (tempProvider_issues env) run h
  refine ⟨hloads, hkeep, (tempProvider_runs hprovided).imp_right ?_⟩
  rintro ⟨dir, tick, hnow, hdir, heq⟩
  exact ⟨dir, tick, hsub hnow, hsub hdir, heq⟩

/-- Only the program's own files are removed: a named path still exists if it was there or has
been written, and what is removed has been generated and is not to be kept. -/
structure OwnFiles {F : Type} (file : Bytes → F) (env : Env) (t : CliTrace)
    (disk disk' : Disk F Bytes) : Prop where
  kept : ∀ path, Names env path →
    (disk (file path) ≠ none ∨ ∃ contents, .write path contents true ∈ cliActions t) →
    disk' (file path) ≠ none
  removed : ∀ path removed, ⟨.remove path, removed⟩ ∈ t →
    Generated t path ∧ env.keepTemp = false

theorem ownFiles_of_condition {F : Type} {file : Bytes → F} {env : Env} {tokens : List Bytes}
    {t : CliTrace} {result : Except CliEscape Int} {disk disk' : Disk F Bytes}
    (h : env.keepTemp = true ∨ (∀ path, ¬ Names env path) ∨
      ¬ Loads (PlaybackArgumentParser.parse tokens) (inputOf t))
    (run : (main env tokens).Runs t result) (after : After file (cliActions t) disk disk') :
    OwnFiles file env t disk disk' := by
  have hunnamed : ∀ path removed, ⟨.remove path, removed⟩ ∈ t → ∀ path', ¬ Names env path' := by
    intro path removed hmem
    obtain ⟨hloads, hkeep, -⟩ := main_removes run hmem
    rcases h with h | h | h
    · rw [h] at hkeep
      cases hkeep
    · exact h
    · exact absurd hloads h
  constructor
  · intro path hnames hthere
    have hnone : ∀ path' removed, Action.remove path' removed ∈ cliActions t →
        file path' ≠ file path := fun path' removed hmem =>
      absurd hnames (hunnamed path' removed (mem_cliActions_remove.mp hmem) path)
    rcases hthere with hthere | ⟨contents, hwritten⟩
    · exact after.persists hnone hthere
    · exact after.persists_of_written hwritten hnone
  · intro path removed hmem
    obtain ⟨-, hkeep, hpath⟩ := main_removes run hmem
    exact ⟨hpath.resolve_left (hunnamed path removed hmem path), hkeep⟩

/-! ## A named file that is removed -/

theorem exists_reported (debug : Bool) (label path : Bytes) :
    ∃ t, (reported debug label path).Runs t (.ok (some path)) ∧ Quiet t := by
  unfold reported report
  cases debug with
  | true => exact ⟨_, ⟨(), _, rfl, rfl, rfl⟩, rfl, rfl⟩
  | false => exact ⟨[], ⟨rfl, rfl⟩, rfl, rfl⟩

/-- A path for the media: the named one, or one that is generated. -/
theorem tempProvider_mp3 (env : Env) :
    ∃ mp3 t, (tempProvider env (lit ".mp3")).Runs t (.ok (some mp3)) ∧ Quiet t ∧
      ∀ path, named env.mp3File = some path → mp3 = path := by
  unfold tempProvider
  rw [if_pos rfl]
  cases named env.mp3File with
  | some path => exact ⟨path, [], ⟨rfl, rfl⟩, ⟨rfl, rfl⟩, fun _ heq => Option.some.inj heq⟩
  | none =>
      let path := generatedPath (lit "/tmp") 0
      obtain ⟨t, hreported, quiet⟩ := exists_reported env.debug (lit "Media file: ") path
      refine ⟨path, ⟨.now, 0⟩ :: ⟨.tempDirectoryPath, some (lit "/tmp")⟩ :: t, ?_, ?_, nofun⟩
      · exact ⟨0, _, rfl, some (lit "/tmp"), t, rfl, hreported⟩
      · exact ⟨quiet.library, quiet.files⟩

theorem tempProvider_srt (env : Env) :
    ∃ t, (tempProvider env (lit ".srt")).Runs t (.ok (named env.srtFile)) ∧ Quiet t := by
  unfold tempProvider
  rw [if_neg (by decide), if_pos rfl]
  cases named env.srtFile with
  | some path => exact exists_reported env.debug (lit "Subtitle file: ") path
  | none => exact ⟨[], ⟨rfl, rfl⟩, rfl, rfl⟩

/-- **A named file is removed** by a call that fails, where every file was there before. -/
theorem main_removes_named {F : Type} (file : Bytes → F) {env : Env} {tokens : List Bytes}
    {path : Bytes} {input : CliTrace} (remove : env.keepTemp = false) (names : Names env path)
    (loads : Loads (PlaybackArgumentParser.parse tokens) input) :
    ∃ t disk', (main env tokens).Runs t (.ok 1) ∧ inputOf t = input ∧ Uncancelled t ∧
      After file (cliActions t) (fun _ => some []) disk' ∧ disk' (file path) = none := by
  classical
  obtain ⟨mp3, t₁, hmp3, quiet₁, hnamed⟩ := tempProvider_mp3 env
  obtain ⟨t₂, hsrt, quiet₂⟩ := tempProvider_srt env
  let disk : Disk F Bytes := fun _ => some []
  have hthere : ∀ f, disk f ≠ none := fun _ => Option.some_ne_none _
  have hfails := @PlaybackCommandDispatcher.dispatch_fails (dispatcher env) _ _ loads remove
    (tempProvider_issues env) (fun _ _ _ => rfl) _ _ _ _ hmp3 quiet₁ hsrt quiet₂
  rcases names with hmedia | hsubtitles
  · -- the removal of the subtitles may fail
    obtain rfl := hnamed path hmedia
    obtain ⟨t, actions, run, hinput, huncancelled, hactions, hbefore⟩ := hfails true false
    refine ⟨t, Function.update disk (file mp3) none, run, hinput, huncancelled, ?_,
      Function.update_self _ _ _⟩
    rw [hactions]
    refine after_append.mpr ⟨disk, hbefore file disk, .cons (step_remove (hthere (file mp3))) ?_⟩
    cases named env.srtFile with
    | none => exact .nil _
    | some srt => exact .cons (step_not_removed srt) (.nil _)
  · -- the removal of the media may fail
    obtain ⟨t, actions, run, hinput, huncancelled, hactions, hbefore⟩ := hfails false true
    refine ⟨t, Function.update disk (file path) none, run, hinput, huncancelled, ?_,
      Function.update_self _ _ _⟩
    rw [hactions, hsubtitles]
    refine after_append.mpr ⟨disk, hbefore file disk, .cons (step_not_removed mp3) ?_⟩
    exact .cons (step_remove (hthere (file path))) (.nil _)

/-- **When edge-playback removes only its own files**, for each input that it may read: everything
is to be kept, no variable names a path, or no text is loaded. -/
theorem main_ownFiles_iff {F : Type} (file : Bytes → F) (env : Env) (tokens : List Bytes)
    (input : CliTrace) :
    (∀ t code disk disk', (main env tokens).Runs t (.ok code) → inputOf t = input →
      After file (cliActions t) disk disk' → OwnFiles file env t disk disk') ↔
      env.keepTemp = true ∨ (∀ path, ¬ Names env path) ∨
        ¬ Loads (PlaybackArgumentParser.parse tokens) input := by
  constructor
  · intro hown
    by_contra hnot
    rw [not_or, not_or, not_forall, not_not] at hnot
    obtain ⟨hkeep, ⟨path, hnames⟩, hloads⟩ := hnot
    obtain ⟨t, disk', run, hinput, -, after, hgone⟩ := main_removes_named file
      (Bool.eq_false_iff.mpr hkeep) (not_not.mp hnames) hloads
    have hkept := (hown t 1 _ disk' run hinput after).kept path (not_not.mp hnames)
    exact hkept (.inl (Option.some_ne_none _)) hgone
  · rintro hcondition t code disk disk' run rfl after
    exact ownFiles_of_condition hcondition run after

/-- Both files are named. -/
def namedEnv : Env := { mp3File := some (lit "hi.mp3"), srtFile := some (lit "hi.srt") }

/-- The greeting is saved and played, and its files are removed. -/
def playedTrace : CliTrace :=
  (greetingTrace (lit "hi.srt")).map libraryEvent ++
    [⟨.playMp3 (lit "hi.mp3"), .ok ()⟩, ⟨.remove (lit "hi.mp3"), true⟩,
      ⟨.remove (lit "hi.srt"), true⟩]

theorem main_plays : (main namedEnv [lit "--text", lit "Hi"]).Runs playedTrace (.ok 0) := by
  have hparse : PlaybackArgumentParser.parse [lit "--text", lit "Hi"] =
      { action := .play, arguments := { text := some (lit "Hi") }, exitCode := 0 } := by
    decide +kernel
  have hmp3 : (tempProvider namedEnv (lit ".mp3")).Runs [] (.ok (some (lit "hi.mp3"))) := by
    have hnamed : named namedEnv.mp3File = some (lit "hi.mp3") := by decide
    unfold tempProvider
    rw [if_pos rfl, hnamed]
    exact ⟨rfl, rfl⟩
  have hsrt : (tempProvider namedEnv (lit ".srt")).Runs [] (.ok (some (lit "hi.srt"))) := by
    have hnamed : named namedEnv.srtFile = some (lit "hi.srt") := by decide
    unfold tempProvider
    rw [if_neg (by decide), if_pos rfl, hnamed]
    exact ⟨rfl, rfl⟩
  have hplay : (PlaybackCommandDispatcher.saveAndPlay greeting (lit "hi.mp3")
      (some (lit "hi.srt"))).Runs
        ((greetingTrace (lit "hi.srt")).map libraryEvent ++ [⟨.playMp3 (lit "hi.mp3"), .ok ()⟩])
        (.ok 0) :=
    runs_bind.mpr ⟨_, _, _, rfl, runs_callLibrary (greeting_runs (lit "hi.srt")), .ok (), _, rfl,
      rfl, rfl⟩
  have hclean : (PlaybackCommandDispatcher.cleanUp false (lit "hi.mp3") (some (lit "hi.srt"))).Runs
      [⟨.remove (lit "hi.mp3"), true⟩, ⟨.remove (lit "hi.srt"), true⟩] () :=
    ⟨true, _, rfl, true, _, rfl, rfl, rfl⟩
  have htext : ((dispatcher namedEnv).playText { text := some (lit "Hi") } (lit "Hi")).Runs
      playedTrace (.ok 0) :=
    runs_bind.mpr ⟨[], _, _, rfl, hmp3, runs_bind.mpr ⟨[], _, _, rfl, hsrt,
      runs_bind.mpr ⟨_, _, _, rfl, hplay, runs_bind.mpr ⟨_, [], (), rfl, hclean, rfl, rfl⟩⟩⟩⟩
  rw [main, hparse]
  exact runs_bind.mpr ⟨[], _, .ok (.ok (lit "Hi")), rfl, ⟨rfl, rfl⟩, htext⟩

/-- Files that are named for a playback and have been written are gone when it is over. -/
theorem not_main_ownFiles :
    (main namedEnv [lit "--text", lit "Hi"]).Runs playedTrace (.ok 0) ∧
    ∃ disk', After id (cliActions playedTrace) (fun _ => none) disk' ∧
      Names namedEnv (lit "hi.mp3") ∧
      .write (lit "hi.mp3") (lit "mp3") true ∈ cliActions playedTrace ∧
      disk' (lit "hi.mp3") = none := by
  have hne : lit "hi.mp3" ≠ lit "hi.srt" := by decide
  have hactions : cliActions playedTrace = fileActions (greetingTrace (lit "hi.srt")) ++
      [.remove (lit "hi.mp3") true, .remove (lit "hi.srt") true] := by
    rw [playedTrace, PlaybackCommandDispatcher.cliActions_append,
      PlaybackCommandDispatcher.cliActions_map]
    rfl
  let written : Disk Bytes Bytes := Function.update
    (Function.update (fun _ => none) (lit "hi.mp3") (some (lit "mp3"))) (lit "hi.srt")
    (some greetingSrt)
  let halfway : Disk Bytes Bytes := Function.update written (lit "hi.mp3") none
  have hwritten : After id (fileActions (greetingTrace (lit "hi.srt"))) (fun _ => none) written :=
    greeting_after (lit "hi.srt") fun _ => none
  have hmp3 : written (lit "hi.mp3") = some (lit "mp3") := by
    simp only [written]
    rw [Function.update_of_ne hne, Function.update_self]
  have hsrt : halfway (lit "hi.srt") = some greetingSrt := by
    simp only [halfway, written]
    rw [Function.update_of_ne hne.symm, Function.update_self]
  refine ⟨main_plays, Function.update halfway (lit "hi.srt") none, ?_, .inl (by decide), ?_, ?_⟩
  · rw [hactions]
    refine after_append.mpr ⟨written, hwritten, ?_⟩
    refine .cons (step_remove ?_) (.cons (step_remove ?_) (.nil _))
    · exact hmp3.trans_ne (Option.some_ne_none _)
    · exact hsrt.trans_ne (Option.some_ne_none _)
  · rw [hactions]
    exact List.mem_append_left _ List.mem_cons_self
  · rw [Function.update_of_ne hne]
    exact Function.update_self _ _ _

end EdgePlayback
end EdgeTts
