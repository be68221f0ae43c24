import EdgeTts.Lib.Decimal
import EdgeTts.Lib.Search
import EdgeTts.Media.ProcessRunner

/-!
# `media/ExecutableDiscovery.cpp` and `media/FfmpegAudioConverter.cpp`

`find_on_path` cuts one segment after the other off a view of `PATH`; what it finds is the first
executable file in the segments of the whole (`findOnPath_eq`).  `play_mp3` and `convert` are one
function with two tools: the tool that is found is run once, and nothing else is (`runTool_runs`).
-/
namespace EdgeTts

open Interaction (Prog Trace Event)
open Interaction.Prog (perform runs_bind runs_perform_bind)

/-- The result of `std::filesystem::status`. -/
structure FileStatus where
  isRegular : Bool
  permissions : UInt16
  deriving DecidableEq

inductive MediaCommand where
  | status (path : Bytes)
  | run (cmd : ProcessCommand)

/-- `none` is a status that comes with an error. -/
abbrev MediaReply : MediaCommand → Type
  | .status _ => Option FileStatus
  | .run _ => Result ProcessResult

abbrev MediaTrace := Trace MediaCommand MediaReply

/-! ## Discovery -/

namespace ExecutableDiscovery

/-- A regular file that somebody may execute. -/
def executable : Option FileStatus → Bool
  | none => false
  | some status => status.isRegular && status.permissions &&& 0o111 != 0

/-- `is_executable_file`. -/
def isExecutableFile (path : Bytes) : Prog MediaCommand MediaReply Bool := do
  let status ← perform (MediaCommand.status path)
  return executable status

/-- `probe`. -/
def probe (dir name : Bytes) : Prog MediaCommand MediaReply (Option Bytes) := do
  if ← isExecutableFile (joinPath dir name) then return some (joinPath dir name)
  else return none

/-- The loop of `find_on_path`, over what remains. -/
def findOnPath (name remaining : Bytes) : Prog MediaCommand MediaReply (Option Bytes) :=
  if remaining.isEmpty then return none
  else
    match h : Search.splitFirst (lit ":") remaining with
    | none => probe remaining name
    | some (segment, rest) =>
        have : rest.length < remaining.length := by
          obtain ⟨rfl, -⟩ := Search.splitFirst_sound h
          have hcolon : (lit ":").length = 1 := rfl
          simp only [List.length_append, hcolon]
          omega
        if segment.isEmpty then findOnPath name rest
        else do
          match ← probe segment name with
          | some found => return some found
          | none => findOnPath name rest
  termination_by remaining.length

/-- Where a name is looked for. -/
def candidates (name pathEnv : Bytes) : List Bytes :=
  ((Search.splitOn (lit ":") pathEnv).filter (! ·.isEmpty)).map (joinPath · name)

/-- The first executable file. -/
def firstExecutable : List Bytes → Prog MediaCommand MediaReply (Option Bytes)
  | [] => return none
  | path :: paths => do
      if ← isExecutableFile path then return some path
      else firstExecutable paths

theorem candidates_last {name remaining : Bytes}
    (last : Search.splitFirst (lit ":") remaining = none) :
    candidates name remaining = if remaining.isEmpty then [] else [joinPath remaining name] := by
  have hsplit : Search.splitOn (lit ":") remaining = [remaining] :=
    Search.splitOn_eq_singleton (Search.splitFirst_eq_none_iff.mp last)
  by_cases hempty : remaining.isEmpty = true <;> simp [candidates, hsplit, hempty]

theorem candidates_cons {name remaining segment rest : Bytes}
    (split : Search.splitFirst (lit ":") remaining = some (segment, rest)) :
    candidates name remaining =
      if segment.isEmpty then candidates name rest
      else joinPath segment name :: candidates name rest := by
  have hsplit : Search.splitOn (lit ":") remaining = segment :: Search.splitOn (lit ":") rest :=
    Search.splitOn_of_splitFirst (by decide) split
  by_cases hempty : segment.isEmpty = true <;> simp [candidates, hsplit, hempty]

/-- **The loop comes to the first executable file** in the segments of `PATH`. -/
theorem findOnPath_eq (name pathEnv : Bytes) :
    findOnPath name pathEnv = firstExecutable (candidates name pathEnv) := by
  fun_induction findOnPath name pathEnv with
  | case1 remaining hempty =>
      obtain rfl := List.isEmpty_iff.mp hempty
      rw [candidates_last rfl]
      rfl
  | case2 remaining hne hlast =>
      rw [candidates_last hlast, if_neg hne]
      rfl
  | case3 remaining hne segment rest hsplit hshorter hempty ih =>
      rw [candidates_cons hsplit, if_pos hempty, ih]
  | case4 remaining hne segment rest hsplit hshorter hsegment ih =>
      rw [candidates_cons hsplit, if_neg hsegment, firstExecutable, ← ih]
      refine congrArg (Prog.call (MediaCommand.status (joinPath segment name)))
        (funext fun status => ?_)
      show (if executable status = true then Prog.ret (some (joinPath segment name))
        else Prog.ret none).bind _ = if executable status = true then _ else _
      by_cases hstatus : executable status = true
      · rw [if_pos hstatus, if_pos hstatus]
        rfl
      · rw [if_neg hstatus, if_neg hstatus]
        rfl

/-- The events of files that are looked at. -/
def lookedAt (files : List (Bytes × Option FileStatus)) : MediaTrace :=
  files.map fun file => ⟨.status file.1, file.2⟩

/-- What a search has looked at: none of the files before the one that is found is executable, and
none at all if nothing is found. -/
def Searched (paths : List Bytes) (t : MediaTrace) : Option Bytes → Prop
  | none => ∃ misses, (∀ file ∈ misses, executable file.2 = false) ∧ t = lookedAt misses ∧
      paths = misses.map Prod.fst
  | some path => ∃ misses status rest, (∀ file ∈ misses, executable file.2 = false) ∧
      executable status = true ∧ t = lookedAt (misses ++ [(path, status)]) ∧
      paths = misses.map Prod.fst ++ path :: rest

theorem firstExecutable_runs {paths : List Bytes} {t : MediaTrace} {found : Option Bytes}
    (h : (firstExecutable paths).Runs t found) : Searched paths t found := by
  induction paths generalizing t with
  | nil =>
      obtain ⟨rfl, rfl⟩ := h
      exact ⟨[], nofun, rfl, rfl⟩
  | cons path paths ih =>
      obtain ⟨status, t, rfl, h⟩ := h
      replace h : (if executable status = true then (return some path : Prog MediaCommand
        MediaReply (Option Bytes)) else firstExecutable paths).Runs t found := h
      by_cases hstatus : executable status = true
      · rw [if_pos hstatus] at h
        obtain ⟨rfl, rfl⟩ := h
        exact ⟨[], status, paths, nofun, hstatus, rfl, rfl⟩
      · rw [if_neg hstatus] at h
        rw [Bool.not_eq_true] at hstatus
        have hsearched := ih h
        cases found with
        | none =>
            obtain ⟨misses, hmisses, rfl, rfl⟩ := hsearched
            exact ⟨(path, status) :: misses, List.forall_mem_cons.mpr ⟨hstatus, hmisses⟩, rfl,
              rfl⟩
        | some found =>
            obtain ⟨misses, status', rest, hmisses, hexecutable, rfl, rfl⟩ := hsearched
            exact ⟨(path, status) :: misses, status', rest,
              List.forall_mem_cons.mpr ⟨hstatus, hmisses⟩, hexecutable, rfl, rfl⟩

end ExecutableDiscovery

/-! ## The converter -/

/-- `FfmpegAudioConverter`. -/
structure FfmpegAudioConverter where
  pathEnv : Bytes

namespace FfmpegAudioConverter

open ExecutableDiscovery (findOnPath findOnPath_eq candidates Searched firstExecutable_runs)

/-- What becomes of a process. -/
def finished (name : Bytes) : Result ProcessResult → Result Unit
  | .error e => .error e
  | .ok result =>
      if result.exitCode ≠ 0 then
        .error (processError (name ++ lit " exited with code " ++ Decimal.ofInt 1 result.exitCode)
          result.stderrText)
      else .ok ()

/-- The body of both functions. -/
def runTool (converter : FfmpegAudioConverter) (name : Bytes) (arguments : List Bytes) :
    Prog MediaCommand MediaReply (Result Unit) := do
  match ← findOnPath name converter.pathEnv with
  | none => return .error (processError (name ++ lit " not found on PATH") [])
  | some tool =>
      let result ← perform (MediaCommand.run ⟨tool, arguments⟩)
      return finished name result

/-- `play_mp3`. -/
def playMp3 (converter : FfmpegAudioConverter) (input : Bytes) :
    Prog MediaCommand MediaReply (Result Unit) :=
  converter.runTool (lit "ffplay") [lit "-nodisp", lit "-autoexit", input]

/-- `convert`. -/
def convert (converter : FfmpegAudioConverter) (input output : Bytes) :
    Prog MediaCommand MediaReply (Result Unit) :=
  converter.runTool (lit "ffmpeg") [lit "-y", lit "-i", input, output]

/-- **A tool that is found is run once**, with its arguments as they are, after files have been
looked at; a tool that is not found is not run. -/
theorem runTool_runs {converter : FfmpegAudioConverter} {name : Bytes} {arguments : List Bytes}
    {t : MediaTrace} {result : Result Unit}
    (h : (converter.runTool name arguments).Runs t result) :
    Searched (candidates name converter.pathEnv) t none ∧
      result = .error (processError (name ++ lit " not found on PATH") []) ∨
    ∃ t₁ tool reply, t = t₁ ++ [⟨.run ⟨tool, arguments⟩, reply⟩] ∧
      Searched (candidates name converter.pathEnv) t₁ (some tool) ∧
      result = finished name reply := by
  rw [runTool, findOnPath_eq] at h
  obtain ⟨t₁, t₂, found, rfl, hfound, h⟩ := runs_bind.mp h
  have hsearched := firstExecutable_runs hfound
  cases found with
  | none =>
      obtain ⟨rfl, rfl⟩ := h
      rw [List.append_nil]
      exact .inl ⟨hsearched, rfl⟩
  | some tool =>
      obtain ⟨reply, t, rfl, rfl, rfl⟩ := h
      exact .inr ⟨t₁, tool, reply, rfl, hsearched, rfl⟩

end FfmpegAudioConverter
end EdgeTts
