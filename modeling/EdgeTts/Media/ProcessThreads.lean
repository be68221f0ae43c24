import EdgeTts.Lib.Threads
import EdgeTts.Media.ProcessRunner
import Mathlib.Data.Fintype.Defs

/-!
# The parent and the child of `ProcessRunner::run`, side by side

After a `fork` three programs run at once: the parent, its thread that drains the standard error,
and the child, which becomes the program that is run.  They meet in two pipes of a bounded size.
A write waits for room, a read for a byte or for the closing of the last write end, and the order
of their steps is anyone's.

`ThreadsInv` is what all orders keep: where each of the three is, which descriptors are open, and
that what has been drained from a pipe and what is still in it are all that was written to it.
-/
namespace EdgeTts
namespace ProcessRunner

open Interaction (Prog Threads Event)
open Interaction.Prog (perform)

/-! ## The system -/

/-- The two threads of the parent, and the child. -/
inductive Thread where
  | main
  | stderr
  | child
  deriving DecidableEq

instance : Fintype Thread where
  elems := {.main, .stderr, .child}
  complete i := by cases i <;> simp

/-- What a thread ends with. -/
abbrev Thread.Result : Thread → Type
  | .main => Option (EdgeTts.Result ProcessResult)
  | .stderr => Option Unit
  | .child => Unit

/-- The pipes. -/
inductive Stream where
  | out
  | err
  deriving DecidableEq

/-- The descriptor under which a program writes to a stream. -/
def Stream.fd : Stream → Nat
  | .out => 1
  | .err => 2

/-- What a descriptor stands for. -/
inductive End where
  | read (pipe : Stream)
  | write (pipe : Stream)
  | other
  deriving DecidableEq

/-- The open descriptors of a process. -/
abbrev Table := List (Nat × End)

def Table.close (table : Table) (fd : Nat) : Table := table.filter (·.1 ≠ fd)

/-- The state that the threads share; `log` is what the program has written, descriptor by
descriptor, and `signals` how many calls are still interrupted. -/
structure System where
  parent : Table
  child : Table
  buffer : Stream → Bytes := fun _ => []
  log : List (Nat × UInt8) := []
  started : Option Nat := none
  text : Option Bytes := none
  exited : Option WaitStatus := none
  signals : Nat

/-- What the program has written to a descriptor. -/
def System.written (s : System) (fd : Nat) : Bytes :=
  s.log.filterMap fun x => if x.1 = fd then some x.2 else none

/-- Nobody can write to the pipe any more. -/
def System.Closed (s : System) (pipe : Stream) : Prop :=
  ∀ fd, (fd, End.write pipe) ∉ s.parent ∧ (fd, End.write pipe) ∉ s.child

/-- **The system calls**, with pipes that hold so many bytes. -/
inductive Answers (capacity : Nat) :
    Thread → System → (c : SysCommand) → SysReply c → System → Prop
  | closeParent (s fd) :
      Answers capacity .main s (.close fd) () { s with parent := s.parent.close fd }
  | closeChild (s fd) :
      Answers capacity .child s (.close fd) () { s with child := s.child.close fd }
  | dup2 {s old new e} (found : s.child.lookup old = some e) :
      Answers capacity .child s (.dup2 old new) true
        { s with child := (new, e) :: s.child.close new }
  | dup2Failed (s old new) : Answers capacity .child s (.dup2 old new) false s
  | execvp (s file argv replaced) : Answers capacity .child s (.execvp file argv) replaced s
  | write {s fd pipe} (byte) (found : s.child.lookup fd = some (.write pipe))
      (room : (s.buffer pipe).length < capacity) :
      Answers capacity .child s (.write fd byte) true
        { s with
          buffer := Function.update s.buffer pipe (s.buffer pipe ++ [byte])
          log := s.log ++ [(fd, byte)] }
  | writeOther {s fd} (byte) (found : ∀ pipe, s.child.lookup fd ≠ some (.write pipe)) (written) :
      Answers capacity .child s (.write fd byte) written s
  | exit (s status) :
      Answers capacity .child s (.exit status) () { s with child := [], exited := some status }
  | read {i s fd size pipe bytes rest} (own : i ≠ .child)
      (found : s.parent.lookup fd = some (.read pipe)) (there : s.buffer pipe = bytes ++ rest)
      (nonempty : bytes ≠ []) (fits : bytes.length ≤ size) :
      Answers capacity i s (.read fd size) (some bytes)
        { s with buffer := Function.update s.buffer pipe rest }
  | readEnd {i s fd size pipe} (own : i ≠ .child)
      (found : s.parent.lookup fd = some (.read pipe)) (empty : s.buffer pipe = [])
      (closed : s.Closed pipe) : Answers capacity i s (.read fd size) (some []) s
  | readInterrupted {i s fd size} (own : i ≠ .child) (signal : 0 < s.signals) :
      Answers capacity i s (.read fd size) none { s with signals := s.signals - 1 }
  | startThread (s fd) :
      Answers capacity .main s (.startThread fd) () { s with started := some fd }
  | threadStarted {s fd} (started : s.started = some fd) :
      Answers capacity .stderr s .threadStarted fd s
  | endThread (s text) :
      Answers capacity .stderr s (.endThread text) () { s with text := some text }
  | join {s text} (ended : s.text = some text) : Answers capacity .main s .join text s
  | waitpid {s status} (exited : s.exited = some status) :
      Answers capacity .main s .waitpid (.ok status) s
  | waitInterrupted {s} (signal : 0 < s.signals) :
      Answers capacity .main s .waitpid (.error none) { s with signals := s.signals - 1 }

/-- The child, to its end. -/
def thenExit (p : Prog SysCommand SysReply WaitStatus) : Prog SysCommand SysReply Unit := do
  let status ← p
  perform (SysCommand.exit status)

/-- What a run of the three is about. -/
structure Setting where
  fuel : Nat
  cmd : ProcessCommand
  fds : PipeFds
  /-- The other descriptors of the parent. -/
  base : Table
  /-- The program that is run. -/
  image : Prog SysCommand SysReply WaitStatus
  signals : Nat

namespace Setting
variable (x : Setting)

/-- Both pipes, with both ends. -/
def table : Table :=
  (x.fds.outRead, .read .out) :: (x.fds.outWrite, .write .out) :: (x.fds.errRead, .read .err) ::
    (x.fds.errWrite, .write .err) :: x.base

/-- Right after the `fork`. -/
def start : Threads SysCommand SysReply Thread.Result System where
  code
    | .main => parentBranch x.fuel x.fds
    | .stderr => stderrThread x.fuel
    | .child => thenExit (childBranch x.cmd x.fds x.image)
  state := { parent := x.table, child := x.table, signals := x.signals }

/-- The pipes are new, under four descriptors that are not those of the standard streams. -/
structure Fresh : Prop where
  distinct : [x.fds.outRead, x.fds.outWrite, x.fds.errRead, x.fds.errWrite].Nodup
  standard : ∀ fd ∈ [x.fds.outRead, x.fds.outWrite, x.fds.errRead, x.fds.errWrite], 2 < fd
  unused : ∀ entry ∈ x.base,
    entry.1 ∉ [x.fds.outRead, x.fds.outWrite, x.fds.errRead, x.fds.errWrite] ∧ entry.2 = .other

end Setting

/-! ## Where the threads are -/

/-- Where the parent is; `left` counts the turns that its loop may still make. -/
inductive MainStage where
  | closeOut
  | closeErr
  | start
  | drain (left : Nat) (out : Bytes)
  | join (out : Bytes)
  | wait (left : Nat) (out err : Bytes)
  | closeErrRead (status : WaitStatus) (out err : Bytes)
  | closeOutRead (status : WaitStatus) (out err : Bytes)
  | returned (status : WaitStatus) (out err : Bytes)

/-- Where the thread of the standard error is. -/
inductive StderrStage where
  | waiting
  | drain (left : Nat) (err : Bytes)
  | done (err : Bytes)
  | ended (err : Bytes)

/-- Where the child is. -/
inductive ChildStage where
  | closeOutRead
  | closeErrRead
  | dupOut
  | closeOut
  | dupErr
  | closeErr
  | exec
  | image (p : Prog SysCommand SysReply WaitStatus)
  | exit (status : WaitStatus) (table : Table)
  | gone (status : WaitStatus)

section
variable (x : Setting)

namespace MainStage

/-- The result, once it is there. -/
def result (status : WaitStatus) (out err : Bytes) : Result ProcessResult :=
  .ok ⟨status.exitCode, out, err⟩

/-- What is left of the parent. -/
def code : MainStage → Prog SysCommand SysReply (Option (Result ProcessResult))
  | closeOut => parentBranch x.fuel x.fds
  | closeErr => do
      perform (SysCommand.close x.fds.errWrite)
      perform (SysCommand.startThread x.fds.errRead)
      let drained ← drainFd x.fuel x.fds.outRead
      afterDrain x.fuel x.fds drained
  | start => do
      perform (SysCommand.startThread x.fds.errRead)
      let drained ← drainFd x.fuel x.fds.outRead
      afterDrain x.fuel x.fds drained
  | drain left out => do
      let drained ← Prog.loop (drainTurn x.fds.outRead) left out
      afterDrain x.fuel x.fds drained
  | join out => afterDrain x.fuel x.fds (some out)
  | wait left out err => do
      let waited ← Prog.loop waitTurn left ()
      afterWait x.fds out err waited
  | closeErrRead status out err => closeReads x.fds (result status out err)
  | closeOutRead status out err => do
      perform (SysCommand.close x.fds.outRead)
      return some (result status out err)
  | returned status out err => return some (result status out err)

/-- The open descriptors of the parent. -/
def table : MainStage → Table
  | closeOut => x.table
  | closeErr =>
      (x.fds.outRead, .read .out) :: (x.fds.errRead, .read .err) ::
        (x.fds.errWrite, .write .err) :: x.base
  | start | drain _ _ | join _ | wait _ _ _ | closeErrRead _ _ _ =>
      (x.fds.outRead, .read .out) :: (x.fds.errRead, .read .err) :: x.base
  | closeOutRead _ _ _ => (x.fds.outRead, .read .out) :: x.base
  | returned _ _ _ => x.base

/-- The descriptor that the other thread was started with. -/
def started : MainStage → Option Nat
  | closeOut | closeErr | start => none
  | _ => some x.fds.errRead

/-- What has been drained. -/
def out : MainStage → Bytes
  | closeOut | closeErr | start => []
  | drain _ out | join out | wait _ out _ => out
  | closeErrRead _ out _ | closeOutRead _ out _ | returned _ out _ => out

/-- The turns left to drain the standard output. -/
def drainLeft : MainStage → Option Nat
  | closeOut | closeErr | start => some x.fuel
  | drain left _ => some left
  | _ => none

/-- What the other thread has left behind. -/
def joined : MainStage → Option Bytes
  | wait _ _ err | closeErrRead _ _ err | closeOutRead _ _ err | returned _ _ err => some err
  | _ => none

/-- The turns left to wait for the child. -/
def waitLeft : MainStage → Option Nat
  | closeOut | closeErr | start | drain _ _ | join _ => some x.fuel
  | wait left _ _ => some left
  | _ => none

/-- How the child has ended. -/
def status : MainStage → Option WaitStatus
  | closeErrRead status _ _ | closeOutRead status _ _ | returned status _ _ => some status
  | _ => none

end MainStage

namespace StderrStage

def code : StderrStage → Prog SysCommand SysReply (Option Unit)
  | waiting => stderrThread x.fuel
  | drain left err => do
      match ← Prog.loop (drainTurn x.fds.errRead) left err with
      | none => return none
      | some text =>
          perform (SysCommand.endThread text)
          return some ()
  | done err => do
      perform (SysCommand.endThread err)
      return some ()
  | ended _ => return some ()

/-- What has been drained. -/
def err : StderrStage → Bytes
  | waiting => []
  | drain _ err | done err | ended err => err

/-- The turns left to drain the standard error. -/
def drainLeft : StderrStage → Option Nat
  | waiting => some x.fuel
  | drain left _ => some left
  | _ => none

/-- The variable `stderr_text`. -/
def text : StderrStage → Option Bytes
  | ended err => some err
  | _ => none

end StderrStage

namespace ChildStage

/-- `execvp`, and what follows. -/
def afterClose : Prog SysCommand SysReply WaitStatus := do
  if ← perform (SysCommand.execvp (cStr x.cmd.executable) x.cmd.argv) then x.image
  else return .exited 127

/-- The second `dup2`, and what follows. -/
def afterOut : Prog SysCommand SysReply WaitStatus := do
  if ← perform (SysCommand.dup2 x.fds.errWrite 2) then
    perform (SysCommand.close x.fds.errWrite)
    afterClose x
  else return .exited 126

/-- The first `dup2`, and what follows. -/
def afterReads : Prog SysCommand SysReply WaitStatus := do
  if ← perform (SysCommand.dup2 x.fds.outWrite 1) then
    perform (SysCommand.close x.fds.outWrite)
    afterOut x
  else return .exited 126

/-- What is left of the child until it exits. -/
def rest : ChildStage → Prog SysCommand SysReply WaitStatus
  | closeOutRead => childBranch x.cmd x.fds x.image
  | closeErrRead => do
      perform (SysCommand.close x.fds.errRead)
      afterReads x
  | dupOut => afterReads x
  | closeOut => do
      perform (SysCommand.close x.fds.outWrite)
      afterOut x
  | dupErr => afterOut x
  | closeErr => do
      perform (SysCommand.close x.fds.errWrite)
      afterClose x
  | exec => afterClose x
  | image p => p
  | exit status _ | gone status => return status

def code : ChildStage → Prog SysCommand SysReply Unit
  | gone _ => return ()
  | stage => thenExit (stage.rest x)

/-- The open descriptors of the child; the standard streams are replaced. -/
def table : ChildStage → Table
  | closeOutRead => x.table
  | closeErrRead =>
      (x.fds.outWrite, .write .out) :: (x.fds.errRead, .read .err) ::
        (x.fds.errWrite, .write .err) :: x.base
  | dupOut => (x.fds.outWrite, .write .out) :: (x.fds.errWrite, .write .err) :: x.base
  | closeOut =>
      (1, .write .out) :: (x.fds.outWrite, .write .out) :: (x.fds.errWrite, .write .err) ::
        x.base.close 1
  | dupErr => (1, .write .out) :: (x.fds.errWrite, .write .err) :: x.base.close 1
  | closeErr =>
      (2, .write .err) :: (1, .write .out) :: (x.fds.errWrite, .write .err) ::
        (x.base.close 1).close 2
  | exec | image _ => (2, .write .err) :: (1, .write .out) :: (x.base.close 1).close 2
  | exit _ table => table
  | gone _ => []

def exited : ChildStage → Option WaitStatus
  | gone status => some status
  | _ => none

/-- The child does as it is told, and the program writes and does no more than `n` times so. -/
def Ready (n : Nat) : ChildStage → Prop
  | image p => p.Within n ∧ p.Issues fun c => ∃ fd byte, c = .write fd byte
  | exit _ table => ∀ pipe, ∃ fd, (fd, End.write pipe) ∈ table
  | gone _ => True
  | _ => x.image.Within n ∧ x.image.Issues fun c => ∃ fd byte, c = .write fd byte

end ChildStage

/-- **What every order of steps keeps**; the program may still write `n` bytes. -/
structure ThreadsInv (m : MainStage) (d : StderrStage) (c : ChildStage) (n : Nat) (s : System) :
    Prop where
  parent : s.parent = m.table x
  child : s.child = c.table x
  started : s.started = m.started x
  text : s.text = d.text
  exited : s.exited = c.exited
  ready : c.Ready x n
  out : s.written 1 = m.out ++ s.buffer .out
  err : s.written 2 = d.err ++ s.buffer .err
  outDone : m.drainLeft x = none → s.buffer .out = [] ∧ c.exited.isSome
  errDone : d.drainLeft x = none → s.buffer .err = [] ∧ c.exited.isSome
  waiting : m.started x = none → d = .waiting
  joined : ∀ err, m.joined = some err → d = .ended err
  status : ∀ status, m.status = some status → c.exited = some status
  outLeft : ∀ left, m.drainLeft x = some left → (s.buffer .out).length + n < left
  errLeft : ∀ left, d.drainLeft x = some left → (s.buffer .err).length + n < left
  waitLeft : ∀ left, m.waitLeft x = some left → s.signals < left

end

end ProcessRunner
end EdgeTts
