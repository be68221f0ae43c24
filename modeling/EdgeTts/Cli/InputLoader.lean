import EdgeTts.Api.SpeechSynthesizer
import EdgeTts.Cli.EdgeTtsArgumentParser
import EdgeTts.Cli.PlaybackArgumentParser

/-!
# `cli/InputLoader.cpp`

The command line programs issue the commands of the library and their own: streams, the
terminal, input files, and what edge-playback does with temporary files.  `load` and
`load_playback` are copies of one function (`loadInput`).
-/
namespace EdgeTts

open Interaction (Prog Trace Event Environment)
open Interaction.Prog (perform mapCommands_bind runs_mapCommands)

/-- What reading a file comes to; a stream buffer throws when a read fails. -/
inductive FileRead where
  | cannotOpen
  | contents (bytes : Bytes)
  | throws

inductive CliCommand where
  | api (command : ApiCommand)
  | voiceService
  | ttyCheck
  | getline
  | readStdin
  | isDirectory (path : Bytes)
  | readFile (path : Bytes)
  | out (bytes : Bytes)
  | err (bytes : Bytes)
  | flush
  | now
  | tempDirectoryPath
  | playMp3 (path : Bytes)
  | remove (path : Bytes)

/-- `none` of a file system command is a `filesystem_error`; that of `getline` is the end. -/
abbrev CliReply : CliCommand → Type
  | .api command => ApiReply command
  | .voiceService => Result (List Voice)
  | .ttyCheck => Bool
  | .getline => Option Bytes
  | .readStdin => Bytes
  | .isDirectory _ => Option Bool
  | .readFile _ => FileRead
  | .out _ => Unit
  | .err _ => Unit
  | .flush => Unit
  | .now => Int
  | .tempDirectoryPath => Option Bytes
  | .playMp3 _ => Result Unit
  | .remove _ => Bool

abbrev CliTrace := Trace CliCommand CliReply

/-- The ways a command line program can end without returning. -/
inductive CliEscape where
  /-- `std::filesystem::filesystem_error`. -/
  | filesystemError
  /-- `std::ios_base::failure`. -/
  | iosFailure
  /-- What escapes the library. -/
  | library (x : Escape)
  deriving DecidableEq, Repr

/-- A call of the library, among the other commands. -/
def callLibrary {α : Type} (p : Prog ApiCommand ApiReply α) : Prog CliCommand CliReply α :=
  p.mapCommands CliCommand.api fun _ => id

theorem callLibrary_bind {α β : Type} (p : Prog ApiCommand ApiReply α)
    (f : α → Prog ApiCommand ApiReply β) :
    callLibrary (p >>= f) = callLibrary p >>= fun a => callLibrary (f a) :=
  mapCommands_bind _ _ p f

/-! ## Calls of the library -/

/-- An event of the library, among the others. -/
def libraryEvent (ev : Event ApiCommand ApiReply) : Event CliCommand CliReply :=
  ⟨.api ev.1, ev.2⟩

/-- What happened in the library. -/
def libraryEvents (t : CliTrace) : ApiTrace :=
  t.filterMap fun
    | ⟨.api command, reply⟩ => some ⟨command, reply⟩
    | _ => none

/-- A command of the program itself. -/
def IsOwn (c : CliCommand) : Prop := ∀ command, c ≠ .api command

@[simp] theorem libraryEvents_append (t t' : CliTrace) :
    libraryEvents (t ++ t') = libraryEvents t ++ libraryEvents t' :=
  List.filterMap_append

@[simp] theorem libraryEvents_map (t : ApiTrace) : libraryEvents (t.map libraryEvent) = t := by
  rw [libraryEvents, List.filterMap_map]
  exact List.filterMap_some

theorem libraryEvents_eq_nil {t : CliTrace} (h : ∀ ev ∈ t, IsOwn ev.1) :
    libraryEvents t = [] := by
  refine List.filterMap_eq_nil_iff.mpr fun ev hev => ?_
  obtain ⟨c, reply⟩ := ev
  cases c with
  | api command => exact absurd rfl (h _ hev command)
  | _ => rfl

/-- The library can do among the other commands what it can do alone. -/
theorem runs_callLibrary {α : Type} {p : Prog ApiCommand ApiReply α} {t : ApiTrace} {a : α}
    (h : p.Runs t a) : (callLibrary p).Runs (t.map libraryEvent) a := by
  induction p generalizing t with
  | ret b =>
      obtain ⟨rfl, rfl⟩ := h
      exact ⟨rfl, rfl⟩
  | call c k ih =>
      obtain ⟨r, t, rfl, h⟩ := h
      exact ⟨r, t.map libraryEvent, rfl, ih r h⟩

/-- What the library does among the other commands, it can do alone. -/
theorem callLibrary_runs {α : Type} {p : Prog ApiCommand ApiReply α} {t : CliTrace} {a : α}
    (h : (callLibrary p).Runs t a) : ∃ u, t = u.map libraryEvent ∧ p.Runs u a := by
  obtain ⟨u, rfl, hrun⟩ := runs_mapCommands.mp h
  exact ⟨u, rfl, List.map_id u ▸ hrun⟩

/-- The environment of the library. -/
def libraryEnvironment {σ : Type} (env : Environment CliCommand CliReply σ) :
    Environment ApiCommand ApiReply σ :=
  fun command => env (.api command)

/-- **A call of the library** runs in the environment of the library. -/
theorem runIn_callLibrary {α σ : Type} (env : Environment CliCommand CliReply σ)
    (p : Prog ApiCommand ApiReply α) (s : σ) :
    (callLibrary p).runIn env s =
      let called := p.runIn (libraryEnvironment env) s
      ⟨called.trace.map libraryEvent, called.result, called.state⟩ := by
  induction p generalizing s with
  | ret a => rfl
  | call c k ih =>
      show (Prog.call (CliCommand.api c) fun r => callLibrary (k r)).runIn env s = _
      rw [Prog.runIn, ih]
      rfl

namespace InputLoader

/-- `std::ifstream file(path)` and all that is read from it; there is no file to an empty path. -/
def readFile (path : Bytes) : Prog CliCommand CliReply FileRead :=
  if path.isEmpty then return .cannotOpen else perform (CliCommand.readFile path)

/-- The body of both functions; `noInput` is the error without an input. -/
def loadInput (text file : Option Bytes) (noInput : Bytes) :
    Prog CliCommand CliReply (Except CliEscape (Result Bytes)) :=
  match text with
  | some text => return .ok (.ok text)
  | none =>
      match file with
      | none => return .ok (.error ⟨.invalidArgument, noInput, []⟩)
      | some path =>
          if path = lit "-" ∨ path = lit "/dev/stdin" then do
            let text ← perform CliCommand.readStdin
            return .ok (.ok text)
          else do
            match ← perform (CliCommand.isDirectory path) with
            | none => return .error .filesystemError
            | some true =>
                return .ok (.error ⟨.ioError, lit "Input path is a directory, not a file", path⟩)
            | some false =>
                match ← readFile path with
                | .cannotOpen => return .ok (.error ⟨.ioError, lit "Cannot open input file", path⟩)
                | .contents text => return .ok (.ok text)
                | .throws => return .error .iosFailure

/-- `InputLoader::load`. -/
def load (args : EdgeTtsArguments) : Prog CliCommand CliReply (Except CliEscape (Result Bytes)) :=
  loadInput args.text args.file (lit "No input: provide --text, --file, or --list-voices")

/-- `InputLoader::load_playback`. -/
def loadPlayback (args : PlaybackArguments) :
    Prog CliCommand CliReply (Except CliEscape (Result Bytes)) :=
  loadInput args.text args.file (lit "No input: provide --text or --file")

/-- The commands that only read. -/
def Reads : CliCommand → Prop
  | .readStdin => True
  | .isDirectory _ => True
  | .readFile _ => True
  | _ => False

instance : DecidablePred Reads
  | .readStdin | .isDirectory _ | .readFile _ => isTrue trivial
  | .api _ | .voiceService | .ttyCheck | .getline | .out _ | .err _ | .flush | .now
  | .tempDirectoryPath | .playMp3 _ | .remove _ => isFalse id

/-- What a program has read of its input. -/
def inputOf (t : CliTrace) : CliTrace := t.filter fun ev => Reads ev.1

theorem inputOf_append (t t' : CliTrace) : inputOf (t ++ t') = inputOf t ++ inputOf t' :=
  List.filter_append ..

theorem inputOf_eq_self {t : CliTrace} (h : ∀ ev ∈ t, Reads ev.1) : inputOf t = t :=
  List.filter_eq_self.mpr fun ev hev => decide_eq_true (h ev hev)

theorem inputOf_eq_nil {t : CliTrace} (h : ∀ ev ∈ t, ¬ Reads ev.1) : inputOf t = [] :=
  List.filter_eq_nil_iff.mpr fun ev hev hreads => h ev hev (of_decide_eq_true hreads)

theorem Reads.isOwn {c : CliCommand} (h : Reads c) : IsOwn c := by
  rintro command rfl
  exact h

theorem readFile_issues (path : Bytes) : (readFile path).Issues Reads := by
  unfold readFile
  by_cases hempty : path.isEmpty = true
  · rw [if_pos hempty]
    trivial
  · rw [if_neg hempty]
    exact ⟨trivial, fun _ => trivial⟩

/-- **Loading only reads.** -/
theorem loadInput_issues (text file : Option Bytes) (noInput : Bytes) :
    (loadInput text file noInput).Issues Reads := by
  unfold loadInput
  cases text with
  | some text => trivial
  | none =>
      cases file with
      | none => trivial
      | some path =>
          dsimp only
          by_cases hstdin : path = lit "-" ∨ path = lit "/dev/stdin"
          · rw [if_pos hstdin]
            exact ⟨trivial, fun _ => trivial⟩
          · rw [if_neg hstdin]
            refine ⟨trivial, fun directory => ?_⟩
            rcases directory with _ | _ | _
            · trivial
            · refine (readFile_issues path).bind fun read => ?_
              cases read with
              | cannotOpen => trivial
              | contents text => trivial
              | throws => trivial
            · trivial

end InputLoader
end EdgeTts
