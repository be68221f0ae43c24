import EdgeTts.Api.SavedFiles
import EdgeTts.Cli.CredentialRedaction
import EdgeTts.Cli.InputLoader
import EdgeTts.Cli.VoiceFormatter

/-!
# `cli/EdgeTtsCommandDispatcher.cpp`

`dispatch_synthesize` has its own loop over the chunks and its own two writes.  With both
outputs going to files it is `save`, between the loading of the text and the report of the
result (`synthesizeTo_eq`), so in any environment the two leave the same files
(`dispatchSynthesize_save`).
-/
namespace EdgeTts

open Files (Disk)
open Interaction (Prog Environment)
open Interaction.Prog (perform runIn_bind runIn_preserves runs_runIn)
open StableSort (Sorting)

/-- `EdgeTtsCommandDispatcher`; `ttyCheck` says whether a TTY check was passed in. -/
structure EdgeTtsCommandDispatcher where
  synthesizerFactory : Bytes → TtsConfig → SynthesisOptions → SpeechSynthesizer
  ttyCheck : Bool := false

namespace EdgeTtsCommandDispatcher

/-- `err_ << "error: " << format_error(e) << '\n'; return 1`. -/
def fail (e : Error) : Prog CliCommand CliReply (Except CliEscape Int) := do
  perform (CliCommand.err (lit "error: " ++ formatError e ++ lit "\n"))
  return .ok 1

/-- `out_.flush(); return 0`. -/
def finish : Prog CliCommand CliReply (Except CliEscape Int) := do
  perform CliCommand.flush
  return .ok 0

/-- `dispatch_list_voices`. -/
def dispatchListVoices (std : Sorting) : Prog CliCommand CliReply (Except CliEscape Int) := do
  match ← perform CliCommand.voiceService with
  | .error e => fail e
  | .ok voices =>
      perform (CliCommand.out (VoiceFormatter.format std voices))
      return .ok 0

/-- The configuration of a synthesis. -/
def configOf (args : EdgeTtsArguments) : TtsConfig :=
  { voice := args.voice, rate := args.rate, volume := args.volume, pitch := args.pitch }

/-- The transport options of a synthesis. -/
def optionsOf (args : EdgeTtsArguments) : SynthesisOptions := { proxy := args.proxy }

def mediaToFile (args : EdgeTtsArguments) : Bool := args.writeMedia.any (· ≠ lit "-")

/-- The warning before audio is written to a terminal; the result says whether the user has
cancelled. -/
def warnTerminal (d : EdgeTtsCommandDispatcher) (args : EdgeTtsArguments) :
    Prog CliCommand CliReply Bool :=
  if args.writeMedia.isNone && d.ttyCheck then do
    if ← perform CliCommand.ttyCheck then
      perform (CliCommand.err (lit "Warning: TTS output will be written to the terminal. " ++
        lit "Use --write-media to write to a file.\n" ++
        lit "Press Ctrl+C to cancel the operation. " ++ lit "Press Enter to continue.\n"))
      match ← perform CliCommand.getline with
      | some _ => return false
      | none =>
          perform (CliCommand.err (lit "\nOperation canceled.\n"))
          return true
    else return false
  else return false

/-- The loop over the chunks. -/
def routeChunks (mediaToFile : Bool) (audioBytesForFile : Bytes) (submaker : SubtitleBuilder) :
    List TtsChunk → Prog CliCommand CliReply (Result (Bytes × SubtitleBuilder))
  | [] => return .ok (audioBytesForFile, submaker)
  | .audio ac :: chunks =>
      if mediaToFile then routeChunks mediaToFile (audioBytesForFile ++ ac.data) submaker chunks
      else do
        perform (CliCommand.out ac.data)
        routeChunks mediaToFile audioBytesForFile submaker chunks
  | .boundary bc :: chunks => do
      match ← callLibrary (feedSubtitles submaker bc) with
      | .error e => return .error e
      | .ok submaker => routeChunks mediaToFile audioBytesForFile submaker chunks

/-- The audio file, if one is wanted. -/
def writeMediaFile (writeMedia : Option Bytes) (audioBytesForFile : Bytes) :
    Prog CliCommand CliReply (Result Unit) :=
  match writeMedia with
  | none => return .ok ()
  | some path =>
      if path ≠ lit "-" then perform (CliCommand.api (.writeBinary path audioBytesForFile))
      else return .ok ()

/-- The subtitles, if they are wanted, and the end. -/
def routeSubtitles (writeSubtitles : Option Bytes) (submaker : SubtitleBuilder) :
    Prog CliCommand CliReply (Except CliEscape Int) :=
  match writeSubtitles with
  | none => finish
  | some path =>
      match submaker.toSrt with
      | .error e => fail e
      | .ok srt =>
          if path ≠ lit "-" then do
            match ← perform (CliCommand.api (.writeTextUtf8 path srt)) with
            | .error e => fail e
            | .ok _ => finish
          else do
            perform (CliCommand.err srt)
            finish

/-- Steps 6 to 9 of `dispatch_synthesize`. -/
def synthesizeTo (synthesizer : SpeechSynthesizer) (args : EdgeTtsArguments) :
    Prog CliCommand CliReply (Except CliEscape Int) := do
  let (_, chunks) ← callLibrary synthesizer.synthesize
  match chunks with
  | .escape x => return .error (.library x)
  | .fail e => fail e
  | .ok chunks =>
      match ← routeChunks (mediaToFile args) [] {} chunks with
      | .error e => fail e
      | .ok (audioBytesForFile, submaker) =>
          match ← writeMediaFile args.writeMedia audioBytesForFile with
          | .error e => fail e
          | .ok _ => routeSubtitles args.writeSubtitles submaker

/-- `dispatch_synthesize`. -/
def dispatchSynthesize (d : EdgeTtsCommandDispatcher) (args : EdgeTtsArguments) :
    Prog CliCommand CliReply (Except CliEscape Int) := do
  match ← InputLoader.load args with
  | .error x => return .error x
  | .ok (.error e) => fail e
  | .ok (.ok text) =>
      let synthesizer := d.synthesizerFactory text (configOf args) (optionsOf args)
      if ← d.warnTerminal args then return .ok 0
      else synthesizeTo synthesizer args

/-- `dispatch`. -/
def dispatch (std : Sorting) (d : EdgeTtsCommandDispatcher) (result : ParseResult) :
    Prog CliCommand CliReply (Except CliEscape Int) :=
  match result.action with
  | .help => do
      perform (CliCommand.out result.message)
      return .ok 0
  | .version => do
      perform (CliCommand.out (result.message ++ lit "\n"))
      return .ok 0
  | .error => do
      perform (CliCommand.err (lit "edge-tts: " ++ result.message ++ lit "\n"))
      return .ok 2
  | .listVoices => dispatchListVoices std
  | .synthesize => d.dispatchSynthesize result.arguments

/-! ## The same as `save` -/

/-- `save` is `synthesize`, and then the files. -/
theorem save_eq (s : SpeechSynthesizer) (mediaPath : Bytes) (subtitlesPath : Option Bytes) :
    s.save mediaPath subtitlesPath = (do
      let (s', synthesis) ← s.synthesize
      let saved ← saveFiles mediaPath subtitlesPath synthesis
      return (s', saved)) := by
  unfold SpeechSynthesizer.save SpeechSynthesizer.synthesize SpeechSynthesizer.runOnce
  by_cases hcalled : s.called = true
  · rw [if_pos hcalled, if_pos hcalled]
    rfl
  · rw [if_neg hcalled, if_neg hcalled]
    simp only [bind_assoc, pure_bind]

/-- **The two loops are one**, where the audio goes to a file. -/
theorem routeChunks_eq (audioBytes : Bytes) (submaker : SubtitleBuilder)
    (chunks : List TtsChunk) :
    routeChunks true audioBytes submaker chunks =
      callLibrary (collectChunks audioBytes submaker chunks) := by
  induction chunks generalizing audioBytes submaker with
  | nil => rfl
  | cons chunk chunks ih =>
      cases chunk with
      | audio ac =>
          rw [routeChunks, if_pos rfl, ih, collectChunks]
      | boundary bc =>
          rw [routeChunks, collectChunks, callLibrary_bind]
          apply bind_congr
          intro fed
          cases fed with
          | error e => rfl
          | ok submaker => exact ih audioBytes submaker

/-- What the result of `save` is reported as. -/
def report : Outcome Unit → Prog CliCommand CliReply (Except CliEscape Int)
  | .ok _ => finish
  | .fail e => fail e
  | .escape x => return .error (.library x)

/-- The two writes are those of `save`. -/
theorem writeFiles_report {media : Bytes} {subtitles : Option Bytes} (hdash : media ≠ lit "-")
    (hsubtitles : subtitles ≠ some (lit "-")) (audioBytes : Bytes) (submaker : SubtitleBuilder) :
    (do
      match ← writeMediaFile (some media) audioBytes with
      | .error e => fail e
      | .ok _ => routeSubtitles subtitles submaker) = (do
      let written ← callLibrary (writeFiles media subtitles audioBytes submaker)
      report (.ofResult written)) := by
  unfold writeFiles
  rw [writeMediaFile, if_pos hdash, callLibrary_bind, bind_assoc]
  apply bind_congr
  intro written
  cases written with
  | error e => rfl
  | ok _ =>
      cases subtitles with
      | none => rfl
      | some path =>
          obtain ⟨srt, hsrt⟩ : ∃ srt, submaker.toSrt = .ok srt := ⟨_, rfl⟩
          have hpath : path ≠ lit "-" := fun heq => hsubtitles (congrArg some heq)
          simp only [routeSubtitles, hsrt, if_pos hpath]
          show _ = callLibrary (perform (ApiCommand.writeTextUtf8 path srt)) >>= _
          apply bind_congr
          intro written
          cases written with
          | error e => rfl
          | ok _ => rfl

/-- **With both outputs in files, the steps are `save` and a report.** -/
theorem synthesizeTo_eq (synthesizer : SpeechSynthesizer) {args : EdgeTtsArguments}
    {media : Bytes} (hmedia : args.writeMedia = some media) (hdash : media ≠ lit "-")
    (hsubtitles : args.writeSubtitles ≠ some (lit "-")) :
    synthesizeTo synthesizer args = (do
      let (_, saved) ← callLibrary (synthesizer.save media args.writeSubtitles)
      report saved) := by
  have hfile : mediaToFile args = true := by
    rw [mediaToFile, hmedia]
    simpa using hdash
  rw [save_eq, callLibrary_bind, synthesizeTo, bind_assoc]
  apply bind_congr
  rintro ⟨s', synthesis⟩
  cases synthesis with
  | fail e => rfl
  | escape x => rfl
  | ok chunks =>
      dsimp only
      rw [hfile, routeChunks_eq, saveFiles, callLibrary_bind, callLibrary_bind]
      simp only [bind_assoc]
      apply bind_congr
      intro collected
      cases collected with
      | error e => rfl
      | ok p =>
          obtain ⟨audioBytes, submaker⟩ := p
          dsimp only
          rw [hmedia, writeFiles_report hdash hsubtitles, callLibrary_bind]
          simp only [bind_assoc]
          apply bind_congr
          intro written
          rfl

/-- The commands that write to a stream. -/
def Prints : CliCommand → Prop
  | .out _ => True
  | .err _ => True
  | .flush => True
  | _ => False

theorem Prints.isOwn {c : CliCommand} (h : Prints c) : IsOwn c := by
  rintro command rfl
  exact h

theorem report_issues (saved : Outcome Unit) : (report saved).Issues Prints := by
  cases saved with
  | ok _ => exact ⟨trivial, fun _ => trivial⟩
  | fail e => exact ⟨trivial, fun _ => trivial⟩
  | escape x => trivial

/-- The exit code tells how `save` has ended. -/
theorem runIn_report {σ : Type} (env : Environment CliCommand CliReply σ) (saved : Outcome Unit)
    (s : σ) :
    ((report saved).runIn env s).result =
      match saved with
      | .ok _ => .ok 0
      | .fail _ => .ok 1
      | .escape x => .error (.library x) := by
  cases saved <;> rfl

/-- **The whole command**, with both outputs in files. -/
theorem dispatchSynthesize_eq (d : EdgeTtsCommandDispatcher) {args : EdgeTtsArguments}
    {media : Bytes} (hmedia : args.writeMedia = some media) (hdash : media ≠ lit "-")
    (hsubtitles : args.writeSubtitles ≠ some (lit "-")) :
    d.dispatchSynthesize args = (do
      match ← InputLoader.load args with
      | .error x => return .error x
      | .ok (.error e) => fail e
      | .ok (.ok text) =>
          let synthesizer := d.synthesizerFactory text (configOf args) (optionsOf args)
          let (_, saved) ← callLibrary (synthesizer.save media args.writeSubtitles)
          report saved) := by
  have hquiet : d.warnTerminal args = return false := by
    rw [warnTerminal, hmedia]
    rfl
  rw [dispatchSynthesize]
  apply bind_congr
  intro loaded
  rcases loaded with x | e | text
  · rfl
  · rfl
  · dsimp only
    rw [hquiet, pure_bind, if_neg (by decide), synthesizeTo_eq _ hmedia hdash hsubtitles]

/-- **The CLI and `save` leave the same files.**  On the text that has been loaded, with both
outputs going to files, the same happens in the library in the same order, the same writes with
the same bytes and outcomes; the files are those that `save` leaves, in any environment whose
files printing leaves alone; and the exit code is 1 exactly where `save` returns an error. -/
theorem dispatchSynthesize_save (d : EdgeTtsCommandDispatcher) {args : EdgeTtsArguments}
    {media text : Bytes} {σ : Type} (env : Environment CliCommand CliReply σ) (s : σ)
    (hmedia : args.writeMedia = some media) (hdash : media ≠ lit "-")
    (hsubtitles : args.writeSubtitles ≠ some (lit "-"))
    (loaded : ((InputLoader.load args).runIn env s).result = .ok (.ok text)) :
    let synthesizer := d.synthesizerFactory text (configOf args) (optionsOf args)
    let saved := (synthesizer.save media args.writeSubtitles).runIn (libraryEnvironment env)
      ((InputLoader.load args).runIn env s).state
    let dispatched := (d.dispatchSynthesize args).runIn env s
    libraryEvents dispatched.trace = saved.trace ∧
    (∀ {F : Type} (files : σ → Disk F Bytes),
      (∀ c, Prints c → ∀ s, files (env c s).2 = files s) →
      files dispatched.state = files saved.state) ∧
    (dispatched.result = .ok 1 ↔ ∃ e, saved.result.2 = .fail e) ∧
    (dispatched.result = .ok 0 ↔ saved.result.2 = .ok ()) ∧
    ∀ x, dispatched.result = .error (.library x) ↔ saved.result.2 = .escape x := by
  intro synthesizer saved dispatched
  have hprogram : dispatched =
      ⟨((InputLoader.load args).runIn env s).trace ++ (saved.trace.map libraryEvent ++
        ((report saved.result.2).runIn env saved.state).trace),
        ((report saved.result.2).runIn env saved.state).result,
        ((report saved.result.2).runIn env saved.state).state⟩ := by
    show (d.dispatchSynthesize args).runIn env s = _
    rw [dispatchSynthesize_eq d hmedia hdash hsubtitles, runIn_bind]
    dsimp only
    rw [loaded, runIn_bind, runIn_callLibrary]
  have hreads : libraryEvents ((InputLoader.load args).runIn env s).trace = [] := by
    apply libraryEvents_eq_nil
    intro ev hev
    exact ((InputLoader.loadInput_issues _ _ _).of_runs (runs_runIn env _ s) ev hev).isOwn
  have hprints : libraryEvents ((report saved.result.2).runIn env saved.state).trace = [] := by
    apply libraryEvents_eq_nil
    intro ev hev
    exact ((report_issues _).of_runs (runs_runIn env _ saved.state) ev hev).isOwn
  have hexit := runIn_report env saved.result.2 saved.state
  rw [hprogram]
  refine ⟨?_, fun files hfiles => runIn_preserves hfiles (report_issues _) saved.state, ?_⟩
  · rw [libraryEvents_append, libraryEvents_append, libraryEvents_map, hreads, hprints,
      List.nil_append, List.append_nil]
  · dsimp only
    rw [hexit]
    cases saved.result.2 with
    | ok u => simp
    | fail e => simp
    | escape x => simp [eq_comm]

/-- A service that knows the greeting, and a disk on which every write succeeds. -/
def greetingLibrary : Environment ApiCommand ApiReply (Disk Bytes Bytes)
  | .isCancelled, disk => (false, disk)
  | .cancel, disk => ((), disk)
  | .synthesizer _ _, disk => (.ok greetingChunks, disk)
  | .onAudio _, disk => ((), disk)
  | .onBoundary _, disk => ((), disk)
  | .onComplete, disk => ((), disk)
  | .onError _, disk => ((), disk)
  | .add a b, disk => (Sum64.wrapping a b, disk)
  | .writeBinary path bytes, disk => (.ok (), Function.update disk path (some bytes))
  | .writeTextUtf8 path text, disk => (.ok (), Function.update disk path (some text))

/-- The library, without a terminal and without input files. -/
def greetingEnvironment : Environment CliCommand CliReply (Disk Bytes Bytes)
  | .api command, disk => greetingLibrary command disk
  | .voiceService, disk => (.ok [], disk)
  | .ttyCheck, disk => (false, disk)
  | .getline, disk => (none, disk)
  | .readStdin, disk => ([], disk)
  | .isDirectory _, disk => (some false, disk)
  | .readFile _, disk => (.cannotOpen, disk)
  | .out _, disk => ((), disk)
  | .err _, disk => ((), disk)
  | .flush, disk => ((), disk)
  | .now, disk => (0, disk)
  | .tempDirectoryPath, disk => (none, disk)
  | .playMp3 _, disk => (.ok (), disk)
  | .remove _, disk => (false, disk)

theorem dispatchSynthesize_save_greeting :
    let d : EdgeTtsCommandDispatcher :=
      ⟨fun text config options => ⟨text, config, options, false⟩, true⟩
    let args : EdgeTtsArguments := {
      text := some (lit "Hi")
      writeMedia := some (lit "hi.mp3")
      writeSubtitles := some (lit "hi.srt") }
    let saved := (greeting.save (lit "hi.mp3") (some (lit "hi.srt"))).runIn greetingLibrary
      fun _ => none
    let dispatched := (d.dispatchSynthesize args).runIn greetingEnvironment fun _ => none
    libraryEvents dispatched.trace = saved.trace ∧ dispatched.state = saved.state ∧
      (dispatched.result = .ok 0 ↔ saved.result.2 = .ok ()) := by
  intro d args saved dispatched
  have hprints : ∀ c, Prints c → ∀ disk, (greetingEnvironment c disk).2 = disk := by
    intro c hc disk
    cases c with
    | out bytes => rfl
    | err bytes => rfl
    | flush => rfl
    | _ => exact hc.elim
  have hmedia : args.writeMedia = some (lit "hi.mp3") := rfl
  obtain ⟨hevents, hfiles, -, hok, -⟩ := dispatchSynthesize_save d greetingEnvironment
    (fun _ => none) hmedia (by decide) (by decide) rfl
  exact ⟨hevents, hfiles id hprints, hok⟩

end EdgeTtsCommandDispatcher
end EdgeTts
