import EdgeTts.Common.Error
import EdgeTts.Lib.Interaction

/-!
# `media/ProcessRunner.cpp`

`run` starts a process and collects what it writes.  The thread that drains the standard error,
and the child after the `fork`, are programs of their own; what the three do together is in
`ProcessThreads`.  Here is what holds of `run` whatever the system calls return: each descriptor
that it is given is closed, once, on every way out (`run_closes`).
-/
namespace EdgeTts

open Interaction (Prog Trace)
open Interaction.Prog (perform runs_bind runs_perform_bind issues_loop)

/-- `media::ProcessCommand`. -/
structure ProcessCommand where
  executable : Bytes
  arguments : List Bytes
  deriving DecidableEq

/-- `media::ProcessResult`. -/
structure ProcessResult where
  exitCode : Int := 0
  stdoutText : Bytes
  stderrText : Bytes
  deriving DecidableEq

/-- The variables `stdout_fds` and `stderr_fds`. -/
structure PipeFds where
  outRead : Nat
  outWrite : Nat
  errRead : Nat
  errWrite : Nat
  deriving DecidableEq

/-- How a process has ended. -/
inductive WaitStatus where
  | exited (code : UInt8)
  | signaled (signal : Nat)
  deriving DecidableEq

/-- `WIFEXITED(wstatus) ? WEXITSTATUS(wstatus) : -1`. -/
def WaitStatus.exitCode : WaitStatus → Int
  | .exited code => code.toNat
  | .signaled _ => -1

/-- The system calls, and those of `std::thread`.  The child of a `fork` goes on with
`childBranch`. -/
inductive SysCommand where
  | makePipe
  | fork (cmd : ProcessCommand) (fds : PipeFds)
  | close (fd : Nat)
  | dup2 (old new : Nat)
  | execvp (file : Bytes) (argv : List Bytes)
  | write (fd : Nat) (byte : UInt8)
  | exit (status : WaitStatus)
  | read (fd size : Nat)
  | startThread (fd : Nat)
  | threadStarted
  | endThread (text : Bytes)
  | join
  | waitpid

/-- A failed call leaves the text of its `errno`; `none` is the -1 of a `read`, and the `EINTR` of
a `waitpid`. -/
abbrev SysReply : SysCommand → Type
  | .makePipe => Except Bytes (Nat × Nat)
  | .fork _ _ => Except Bytes Unit
  | .close _ => Unit
  | .dup2 _ _ => Bool
  | .execvp _ _ => Bool
  | .write _ _ => Bool
  | .exit _ => Unit
  | .read _ _ => Option Bytes
  | .startThread _ => Unit
  | .threadStarted => Nat
  | .endThread _ => Unit
  | .join => Bytes
  | .waitpid => Except (Option Bytes) WaitStatus

abbrev SysTrace := Trace SysCommand SysReply

/-- `external_process_failed`. -/
def processError (message context : Bytes) : Error := ⟨.externalProcessFailed, message, context⟩

/-- One turn of `drain_fd`. -/
def drainTurn (fd : Nat) (out : Bytes) : Prog SysCommand SysReply (Bytes ⊕ Bytes) := do
  match ← perform (SysCommand.read fd 4096) with
  | some (byte :: bytes) => return .inl (out ++ byte :: bytes)
  -- the end of the file, and an error as well
  | some [] | none => return .inr out

/-- `drain_fd`. -/
def drainFd (fuel fd : Nat) : Prog SysCommand SysReply (Option Bytes) :=
  Prog.loop (drainTurn fd) fuel []

/-- `waitpid`, again after an `EINTR`. -/
def waitTurn : Unit → Prog SysCommand SysReply (Unit ⊕ Except Bytes WaitStatus)
  | () => do
      match ← perform SysCommand.waitpid with
      | .ok status => return .inr (.ok status)
      | .error (some text) => return .inr (.error text)
      | .error none => return .inl ()

/-- The function of `stderr_thread`. -/
def stderrThread (fuel : Nat) : Prog SysCommand SysReply (Option Unit) := do
  let fd ← perform SysCommand.threadStarted
  match ← drainFd fuel fd with
  | none => return none
  | some text =>
      perform (SysCommand.endThread text)
      return some ()

/-- `c_str()`, up to the first NUL. -/
def cStr (text : Bytes) : Bytes := text.takeWhile (· ≠ 0)

/-- `argv`. -/
def ProcessCommand.argv (cmd : ProcessCommand) : List Bytes :=
  (cmd.executable :: cmd.arguments).map cStr

/-- The child; `image` is the program that `execvp` puts in its place. -/
def childBranch (cmd : ProcessCommand) (fds : PipeFds)
    (image : Prog SysCommand SysReply WaitStatus) : Prog SysCommand SysReply WaitStatus := do
  perform (SysCommand.close fds.outRead)
  perform (SysCommand.close fds.errRead)
  if ← perform (SysCommand.dup2 fds.outWrite 1) then
    perform (SysCommand.close fds.outWrite)
    if ← perform (SysCommand.dup2 fds.errWrite 2) then
      perform (SysCommand.close fds.errWrite)
      if ← perform (SysCommand.execvp (cStr cmd.executable) cmd.argv) then image
      else return .exited 127
    else return .exited 126
  else return .exited 126

namespace ProcessRunner

/-- The destructors of the read ends, and the result. -/
def closeReads (fds : PipeFds) (result : Result ProcessResult) :
    Prog SysCommand SysReply (Option (Result ProcessResult)) := do
  perform (SysCommand.close fds.errRead)
  perform (SysCommand.close fds.outRead)
  return some result

/-- What follows the wait for the child. -/
def afterWait (fds : PipeFds) (stdoutText stderrText : Bytes) :
    Option (Except Bytes WaitStatus) → Prog SysCommand SysReply (Option (Result ProcessResult))
  | none => return none
  | some (.error text) => closeReads fds (.error (processError (lit "waitpid() failed") text))
  | some (.ok status) => closeReads fds (.ok ⟨status.exitCode, stdoutText, stderrText⟩)

/-- What follows the draining of the standard output. -/
def afterDrain (fuel : Nat) (fds : PipeFds) :
    Option Bytes → Prog SysCommand SysReply (Option (Result ProcessResult))
  | none => return none
  | some stdoutText => do
      let stderrText ← perform SysCommand.join
      let waited ← Prog.loop waitTurn fuel ()
      afterWait fds stdoutText stderrText waited

/-- The parent, after the `fork`. -/
def parentBranch (fuel : Nat) (fds : PipeFds) :
    Prog SysCommand SysReply (Option (Result ProcessResult)) := do
  perform (SysCommand.close fds.outWrite)
  perform (SysCommand.close fds.errWrite)
  perform (SysCommand.startThread fds.errRead)
  let drained ← drainFd fuel fds.outRead
  afterDrain fuel fds drained

/-- `ProcessRunner::run`. -/
def run (fuel : Nat) (cmd : ProcessCommand) :
    Prog SysCommand SysReply (Option (Result ProcessResult)) := do
  match ← perform SysCommand.makePipe with
  | .error text => return some (.error (processError (lit "pipe() failed for stdout") text))
  | .ok (outRead, outWrite) =>
      match ← perform SysCommand.makePipe with
      | .error text =>
          perform (SysCommand.close outWrite)
          perform (SysCommand.close outRead)
          return some (.error (processError (lit "pipe() failed for stderr") text))
      | .ok (errRead, errWrite) =>
          match ← perform (SysCommand.fork cmd ⟨outRead, outWrite, errRead, errWrite⟩) with
          | .error text =>
              perform (SysCommand.close errWrite)
              perform (SysCommand.close errRead)
              perform (SysCommand.close outWrite)
              perform (SysCommand.close outRead)
              return some (.error (processError (lit "fork() failed") text))
          | .ok _ => parentBranch fuel ⟨outRead, outWrite, errRead, errWrite⟩

/-! ## The descriptors of a run -/

/-- The descriptors that a run is given. -/
def opened (t : SysTrace) : List Nat :=
  t.flatMap fun
    | ⟨.makePipe, .ok (readEnd, writeEnd)⟩ => [readEnd, writeEnd]
    | _ => []

/-- The descriptors that a run closes. -/
def closed (t : SysTrace) : List Nat :=
  t.filterMap fun
    | ⟨.close fd, _⟩ => some fd
    | _ => none

theorem drainFd_issues (fuel fd : Nat) : (drainFd fuel fd).Issues (· = .read fd 4096) := by
  have hturn : ∀ out, (drainTurn fd out).Issues (· = .read fd 4096) := by
    refine fun out => ⟨rfl, fun reply => ?_⟩
    match reply with
    | some (_ :: _) | some [] | none => trivial
  exact issues_loop hturn fuel []

theorem wait_issues (fuel : Nat) : (Prog.loop waitTurn fuel ()).Issues (· = .waitpid) := by
  have hturn : ∀ u, (waitTurn u).Issues (· = .waitpid) := by
    refine fun () => ⟨rfl, fun reply => ?_⟩
    match reply with
    | .ok _ | .error (some _) | .error none => trivial
  exact issues_loop hturn fuel ()

theorem closeReads_runs {fds : PipeFds} {result : Result ProcessResult} {t : SysTrace}
    {r : Option (Result ProcessResult)} (h : (closeReads fds result).Runs t r) :
    t = [⟨.close fds.errRead, ()⟩, ⟨.close fds.outRead, ()⟩] := by
  obtain ⟨_, _, rfl, _, _, rfl, rfl, -⟩ := h
  rfl

/-- **The parent closes the write ends before it reads**, and the read ends at the end, whatever
it has read and however the wait has ended. -/
theorem parentBranch_runs {fuel : Nat} {fds : PipeFds} {t : SysTrace}
    {result : Result ProcessResult} (h : (parentBranch fuel fds).Runs t (some result)) :
    ∃ reads text waits, t = [⟨.close fds.outWrite, ()⟩, ⟨.close fds.errWrite, ()⟩,
        ⟨.startThread fds.errRead, ()⟩] ++ reads ++ [⟨.join, text⟩] ++ waits ++
        [⟨.close fds.errRead, ()⟩, ⟨.close fds.outRead, ()⟩] ∧
      (∀ ev ∈ reads, ev.1 = .read fds.outRead 4096) ∧ ∀ ev ∈ waits, ev.1 = .waitpid := by
  obtain ⟨_, _, rfl, _, _, rfl, _, t, rfl, hrest⟩ := h
  obtain ⟨reads, t, drained, rfl, hdrain, h⟩ := runs_bind.mp
    (show (do
      let drained ← drainFd fuel fds.outRead
      afterDrain fuel fds drained).Runs t (some result) from hrest)
  have hreads := (drainFd_issues fuel fds.outRead).of_runs hdrain
  cases drained with
  | none => cases h.2
  | some stdoutText =>
      obtain ⟨text, t, rfl, hjoined⟩ := h
      obtain ⟨waits, t, waited, rfl, hwait, h⟩ := runs_bind.mp
        (show (do
          let waited ← Prog.loop waitTurn fuel ()
          afterWait fds stdoutText text waited).Runs t (some result) from hjoined)
      have hcloses : t = [⟨.close fds.errRead, ()⟩, ⟨.close fds.outRead, ()⟩] := by
        rcases waited with _ | _ | _
        · cases h.2
        · exact closeReads_runs h
        · exact closeReads_runs h
      refine ⟨reads, text, waits, ?_, hreads, (wait_issues fuel).of_runs hwait⟩
      rw [hcloses]
      simp

theorem opened_eq_nil {t : SysTrace} (h : ∀ ev ∈ t, ev.1 ≠ .makePipe) : opened t = [] := by
  refine List.flatMap_eq_nil_iff.mpr fun ev hev => ?_
  obtain ⟨c, reply⟩ := ev
  cases c with
  | makePipe => exact absurd rfl (h _ hev)
  | _ => rfl

theorem closed_eq_nil {t : SysTrace} (h : ∀ ev ∈ t, ∀ fd, ev.1 ≠ .close fd) : closed t = [] := by
  refine List.filterMap_eq_nil_iff.mpr fun ev hev => ?_
  obtain ⟨c, reply⟩ := ev
  cases c with
  | close fd => exact absurd rfl (h _ hev fd)
  | _ => rfl

theorem opened_append (t t' : SysTrace) : opened (t ++ t') = opened t ++ opened t' :=
  List.flatMap_append

theorem closed_append (t t' : SysTrace) : closed (t ++ t') = closed t ++ closed t' :=
  List.filterMap_append

theorem parentBranch_closes {fuel : Nat} {fds : PipeFds} {t : SysTrace}
    {result : Result ProcessResult} (h : (parentBranch fuel fds).Runs t (some result)) :
    opened t = [] ∧ closed t = [fds.outWrite, fds.errWrite, fds.errRead, fds.outRead] := by
  obtain ⟨reads, text, waits, rfl, hreads, hwaits⟩ := parentBranch_runs h
  have hr : opened reads = [] ∧ closed reads = [] :=
    ⟨opened_eq_nil fun ev hev => by simp [hreads ev hev],
      closed_eq_nil fun ev hev => by simp [hreads ev hev]⟩
  have hw : opened waits = [] ∧ closed waits = [] :=
    ⟨opened_eq_nil fun ev hev => by simp [hwaits ev hev],
      closed_eq_nil fun ev hev => by simp [hwaits ev hev]⟩
  simp only [opened_append, closed_append, hr, hw]
  exact ⟨rfl, rfl⟩

/-- **No descriptor is leaked, and none is closed twice**: on every way out of `run`, whatever the
system calls have returned, what has been closed is what has been opened. -/
theorem run_closes {fuel : Nat} {cmd : ProcessCommand} {t : SysTrace}
    {result : Result ProcessResult} (h : (run fuel cmd).Runs t (some result)) :
    (closed t).Perm (opened t) := by
  obtain ⟨first, t, rfl, h⟩ := h
  cases first with
  | error text =>
      obtain ⟨rfl, -⟩ := h
      exact .nil
  | ok out =>
      obtain ⟨outRead, outWrite⟩ := out
      obtain ⟨second, t, rfl, h⟩ := h
      cases second with
      | error text =>
          obtain ⟨_, _, rfl, _, _, rfl, rfl, -⟩ := h
          exact .swap ..
      | ok err =>
          obtain ⟨errRead, errWrite⟩ := err
          obtain ⟨forked, t, rfl, h⟩ := h
          cases forked with
          | error text =>
              obtain ⟨_, _, rfl, _, _, rfl, _, _, rfl, _, _, rfl, rfl, -⟩ := h
              exact (List.reverse_perm [outRead, outWrite, errRead, errWrite])
          | ok _ =>
              obtain ⟨hopened, hclosed⟩ := parentBranch_closes h
              show (closed t).Perm (outRead :: outWrite :: errRead :: errWrite :: opened t)
              rw [hopened, hclosed]
              have hlast : [outWrite, errWrite, errRead, outRead].Perm
                  [outRead, outWrite, errWrite, errRead] :=
                List.perm_append_singleton outRead [outWrite, errWrite, errRead]
              exact hlast.trans (.cons _ (.cons _ (.swap ..)))

/-- A run whose `fork` fails. -/
def forkFails : SysTrace :=
  [⟨.makePipe, .ok (3, 4)⟩, ⟨.makePipe, .ok (5, 6)⟩,
    ⟨.fork ⟨lit "ffplay", []⟩ ⟨3, 4, 5, 6⟩, .error (lit "Cannot allocate memory")⟩,
    ⟨.close 6, ()⟩, ⟨.close 5, ()⟩, ⟨.close 4, ()⟩, ⟨.close 3, ()⟩]

/-- A run of a child that writes one byte and is waited for twice. -/
def childExits : SysTrace :=
  [⟨.makePipe, .ok (3, 4)⟩, ⟨.makePipe, .ok (5, 6)⟩,
    ⟨.fork ⟨lit "ffplay", []⟩ ⟨3, 4, 5, 6⟩, .ok ()⟩, ⟨.close 4, ()⟩, ⟨.close 6, ()⟩,
    ⟨.startThread 5, ()⟩, ⟨.read 3 4096, some [0x2E]⟩, ⟨.read 3 4096, some []⟩, ⟨.join, []⟩,
    ⟨.waitpid, .error none⟩, ⟨.waitpid, .ok (.exited 0)⟩, ⟨.close 5, ()⟩, ⟨.close 3, ()⟩]

theorem run_closes_sample : (closed forkFails).Perm (opened forkFails) ∧
    (closed childExits).Perm (opened childExits) := by
  constructor
  · exact @run_closes 2 ⟨lit "ffplay", []⟩ forkFails
      (.error (processError (lit "fork() failed") (lit "Cannot allocate memory")))
      ⟨_, _, rfl, _, _, rfl, _, _, rfl, _, _, rfl, _, _, rfl, _, _, rfl, _, _, rfl, rfl, rfl⟩
  · refine @run_closes 2 ⟨lit "ffplay", []⟩ childExits (.ok ⟨0, [0x2E], []⟩) ?_
    exact ⟨_, _, rfl, _, _, rfl, _, _, rfl, _, _, rfl, _, _, rfl, _, _, rfl, _, _, rfl, _, _, rfl,
      _, _, rfl, _, _, rfl, _, _, rfl, _, _, rfl, _, _, rfl, rfl, rfl⟩

end ProcessRunner
end EdgeTts
