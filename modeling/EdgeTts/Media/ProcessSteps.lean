import EdgeTts.Media.ProcessThreads

/-!
# A step of one of the three threads

Each of `child_step`, `stderr_step` and `main_step` takes a stage of its thread to the next one,
and `ThreadsInv` with it.
-/
namespace EdgeTts
namespace ProcessRunner

open Interaction (Prog Event)

variable {x : Setting}

/-! ## The descriptors -/

/-- None of the four descriptors is in use otherwise. -/
theorem Setting.Fresh.close_base (fresh : x.Fresh) {fd : Nat}
    (hfd : fd ∈ [x.fds.outRead, x.fds.outWrite, x.fds.errRead, x.fds.errWrite]) {table : Table}
    (sub : ∀ entry ∈ table, entry ∈ x.base) : table.close fd = table := by
  refine List.filter_eq_self.mpr fun entry hentry => ?_
  have hne : entry.1 ≠ fd := by
    rintro rfl
    exact (fresh.unused entry (sub entry hentry)).1 hfd
  simpa using hne

theorem Setting.Fresh.close_fds (fresh : x.Fresh) {table : Table}
    (sub : ∀ entry ∈ table, entry ∈ x.base) :
    table.close x.fds.outRead = table ∧ table.close x.fds.outWrite = table ∧
      table.close x.fds.errRead = table ∧ table.close x.fds.errWrite = table :=
  ⟨fresh.close_base (by simp) sub, fresh.close_base (by simp) sub,
    fresh.close_base (by simp) sub, fresh.close_base (by simp) sub⟩

theorem Table.close_cons (fd : Nat) (entry : Nat × End) (table : Table) :
    Table.close (entry :: table) fd =
      if entry.1 = fd then table.close fd else entry :: table.close fd := by
  by_cases h : entry.1 = fd <;> simp [Table.close, h]

theorem Table.close_sub {table base : Table} (sub : ∀ entry ∈ table, entry ∈ base) (fd : Nat) :
    ∀ entry ∈ table.close fd, entry ∈ base :=
  fun entry hentry => sub entry (List.mem_filter.mp hentry).1

theorem Table.lookup_cons (fd : Nat) (entry : Nat × End) (table : Table) :
    List.lookup fd (entry :: table) = if fd = entry.1 then some entry.2 else table.lookup fd := by
  obtain ⟨fd', e⟩ := entry
  rw [List.lookup_cons]
  by_cases h : fd = fd'
  · simp [h]
  · simp [h, beq_false_of_ne h]

theorem Setting.Fresh.lookup_base (fresh : x.Fresh) {table : Table}
    (sub : ∀ entry ∈ table, entry ∈ x.base) {fd : Nat} {e : End}
    (h : table.lookup fd = some e) : e = .other := by
  obtain ⟨l₁, l₂, rfl, -⟩ := List.lookup_eq_some_iff.mp h
  exact (fresh.unused _ (sub (fd, e) (by simp))).2

/-- The six different descriptors that matter. -/
theorem Setting.Fresh.ne (fresh : x.Fresh) :
    (x.fds.outRead ≠ x.fds.outWrite ∧ x.fds.outRead ≠ x.fds.errRead ∧
      x.fds.outRead ≠ x.fds.errWrite ∧ x.fds.outWrite ≠ x.fds.errRead ∧
      x.fds.outWrite ≠ x.fds.errWrite ∧ x.fds.errRead ≠ x.fds.errWrite) ∧
    2 < x.fds.outRead ∧ 2 < x.fds.outWrite ∧ 2 < x.fds.errRead ∧ 2 < x.fds.errWrite := by
  have h := fresh.distinct
  have hstandard := fresh.standard
  simp only [List.nodup_cons, List.mem_cons, List.not_mem_nil, or_false, not_or] at h
  simp only [List.forall_mem_cons] at hstandard
  tauto

/-- Every child that is still there can write to both pipes. -/
theorem ChildStage.holds {c : ChildStage} {n : Nat} (ready : c.Ready x n) (there : c.exited = none)
    (pipe : Stream) : ∃ fd, (fd, End.write pipe) ∈ c.table x := by
  cases c with
  | exit status table => exact ready pipe
  | gone status => cases there
  | _ =>
      cases pipe
      · exact ⟨_, by simp [table, Setting.table]; tauto⟩
      · exact ⟨_, by simp [table, Setting.table]; tauto⟩

/-! ## The steps of the child -/

variable {m : MainStage} {d : StderrStage} {c : ChildStage} {n : Nat} {s s' : System}
  {capacity : Nat}

/-- The child goes on, and nothing but its descriptors changes. -/
theorem ThreadsInv.setChild (h : ThreadsInv x m d c n s) {c' : ChildStage} {table : Table}
    (there : c.exited = none) (ready : c'.Ready x n) (there' : c'.exited = none)
    (htable : table = c'.table x) : ThreadsInv x m d c' n { s with child := table } where
  parent := h.parent
  child := htable
  started := h.started
  text := h.text
  exited := by rw [there', ← there, ← h.exited]
  ready := ready
  out := h.out
  err := h.err
  outDone := fun hm => by rw [there', ← there]; exact h.outDone hm
  errDone := fun hd => by rw [there', ← there]; exact h.errDone hd
  waiting := h.waiting
  joined := h.joined
  status := fun status hs => by rw [there', ← there]; exact h.status status hs
  outLeft := h.outLeft
  errLeft := h.errLeft
  waitLeft := h.waitLeft

/-- The program can write to its standard streams, and to nothing else that is a pipe. -/
theorem Setting.Fresh.lookup_image (fresh : x.Fresh) (p : Prog SysCommand SysReply WaitStatus)
    (fd : Nat) (pipe : Stream) :
    ((ChildStage.image p).table x).lookup fd = some (.write pipe) ↔ fd = pipe.fd := by
  rw [ChildStage.table, Table.lookup_cons, Table.lookup_cons]
  have hbase : ((x.base.close 1).close 2).lookup fd ≠ some (.write pipe) := fun h =>
    End.noConfusion (fresh.lookup_base
      (Table.close_sub (Table.close_sub (fun _ => id) 1) 2) h)
  by_cases h2 : fd = 2
  · subst h2
    cases pipe <;> simp [Stream.fd]
  · by_cases h1 : fd = 1
    · subst h1
      cases pipe <;> simp [Stream.fd]
    · rw [if_neg h2, if_neg h1]
      refine iff_of_false hbase ?_
      cases pipe
      · exact h1
      · exact h2

theorem System.written_snoc {s s' : System} {fd : Nat} {byte : UInt8}
    (h : s'.log = s.log ++ [(fd, byte)]) (fd' : Nat) :
    s'.written fd' = s.written fd' ++ if fd = fd' then [byte] else [] := by
  by_cases hfd : fd = fd' <;> simp [System.written, h, hfd]

/-- The child has gone. -/
theorem ThreadsInv.exits (h : ThreadsInv x m d c n s) (there : c.exited = none)
    (status : WaitStatus) :
    ThreadsInv x m d (.gone status) n { s with child := [], exited := some status } where
  parent := h.parent
  child := rfl
  started := h.started
  text := h.text
  exited := rfl
  ready := trivial
  out := h.out
  err := h.err
  outDone := fun hm => ⟨(h.outDone hm).1, rfl⟩
  errDone := fun hd => ⟨(h.errDone hd).1, rfl⟩
  waiting := h.waiting
  joined := h.joined
  status := fun status' hs => by
    rw [h.status status' hs] at there
    cases there
  outLeft := h.outLeft
  errLeft := h.errLeft
  waitLeft := h.waitLeft

/-- The program has written, or tried to. -/
theorem ThreadsInv.writes (fresh : x.Fresh) {p p' : Prog SysCommand SysReply WaitStatus}
    {fd : Nat} {byte : UInt8} {r : Bool} (h : ThreadsInv x m d (.image p) (n + 1) s)
    (ready : (ChildStage.image p').Ready x n)
    (answered : Answers capacity .child s (.write fd byte) r s') :
    ThreadsInv x m d (.image p') n s' := by
  -- while the child is there, nobody has drained a pipe to its end
  have hout : m.drainLeft x ≠ none := fun hm => Bool.noConfusion (h.outDone hm).2
  have herr : d.drainLeft x ≠ none := fun hd => Bool.noConfusion (h.errDone hd).2
  have houtLeft := h.outLeft
  have herrLeft := h.errLeft
  cases answered with
  | @write _ _ pipe _ found room =>
      rw [h.child, fresh.lookup_image] at found
      subst found
      refine ⟨h.parent, h.child, h.started, h.text, h.exited, ready, ?_, ?_,
        fun hm => absurd hm hout, fun hd => absurd hd herr, h.waiting, h.joined, h.status, ?_, ?_,
        h.waitLeft⟩
      · rw [System.written_snoc (s := s) rfl, h.out]
        cases pipe <;> simp [Stream.fd]
      · rw [System.written_snoc (s := s) rfl, h.err]
        cases pipe <;> simp [Stream.fd]
      · intro left hleft
        have hlt := houtLeft left hleft
        cases pipe
        · simp
          omega
        · simp
          omega
      · intro left hleft
        have hlt := herrLeft left hleft
        cases pipe
        · simp
          omega
        · simp
          omega
  | writeOther =>
      refine ⟨h.parent, h.child, h.started, h.text, h.exited, ready, h.out, h.err,
        fun hm => absurd hm hout, fun hd => absurd hd herr, h.waiting, h.joined, h.status, ?_, ?_,
        h.waitLeft⟩
      · intro left hleft
        have hlt := houtLeft left hleft
        omega
      · intro left hleft
        have hlt := herrLeft left hleft
        omega

section
variable {cmd : SysCommand} {k : SysReply cmd → Prog SysCommand SysReply Unit} {r : SysReply cmd}

theorem ThreadsInv.dupOut_step (fresh : x.Fresh) (h : ThreadsInv x m d .dupOut n s)
    (next : ChildStage.code x .dupOut = .call cmd k)
    (answered : Answers capacity .child s cmd r s') :
    ∃ c' n', k r = c'.code x ∧ ThreadsInv x m d c' n' s' := by
  obtain ⟨-, h₇, h₈, h₉, h₁₀⟩ := fresh.ne
  have hchild := h.child
  change Prog.call (.dup2 x.fds.outWrite 1) (fun r => thenExit (if r then
    ChildStage.rest x .closeOut else return .exited 126)) = _ at next
  cases next
  cases answered with
  | dup2 found =>
      rw [hchild, ChildStage.table, Table.lookup_cons, if_pos rfl] at found
      cases found
      refine ⟨.closeOut, n, rfl, h.setChild rfl h.ready rfl ?_⟩
      rw [hchild]
      simp [ChildStage.table, Table.close_cons, show x.fds.outWrite ≠ 1 by omega,
        show x.fds.errWrite ≠ 1 by omega]
  | dup2Failed =>
      exact ⟨.exit (.exited 126) (ChildStage.dupOut.table x), n, rfl,
        h.setChild rfl (ChildStage.holds h.ready rfl) rfl hchild⟩

theorem ThreadsInv.dupErr_step (fresh : x.Fresh) (h : ThreadsInv x m d .dupErr n s)
    (next : ChildStage.code x .dupErr = .call cmd k)
    (answered : Answers capacity .child s cmd r s') :
    ∃ c' n', k r = c'.code x ∧ ThreadsInv x m d c' n' s' := by
  obtain ⟨-, h₇, h₈, h₉, h₁₀⟩ := fresh.ne
  have hchild := h.child
  change Prog.call (.dup2 x.fds.errWrite 2) (fun r => thenExit (if r then
    ChildStage.rest x .closeErr else return .exited 126)) = _ at next
  cases next
  cases answered with
  | dup2 found =>
      have hne : ¬ x.fds.errWrite = 1 := by omega
      rw [hchild, ChildStage.table, Table.lookup_cons, if_neg hne, Table.lookup_cons,
        if_pos rfl] at found
      cases found
      refine ⟨.closeErr, n, rfl, h.setChild rfl h.ready rfl ?_⟩
      rw [hchild]
      simp [ChildStage.table, Table.close_cons, show x.fds.errWrite ≠ 2 by omega]
  | dup2Failed =>
      exact ⟨.exit (.exited 126) (ChildStage.dupErr.table x), n, rfl,
        h.setChild rfl (ChildStage.holds h.ready rfl) rfl hchild⟩

/-- The program takes the place of the child, or the child exits with 127. -/
theorem ThreadsInv.exec_step (h : ThreadsInv x m d .exec n s)
    (next : ChildStage.code x .exec = .call cmd k) (answered : Answers capacity .child s cmd r s') :
    ∃ c' n', k r = c'.code x ∧ ThreadsInv x m d c' n' s' := by
  change Prog.call (.execvp (cStr x.cmd.executable) x.cmd.argv) (fun r => thenExit (if r then
    x.image else return .exited 127)) = _ at next
  cases next
  cases answered with
  | execvp =>
      cases r with
      | true => exact ⟨.image x.image, n, rfl, h.setChild rfl h.ready rfl h.child⟩
      | false =>
          exact ⟨.exit (.exited 127) (ChildStage.exec.table x), n, rfl,
            h.setChild rfl (ChildStage.holds h.ready rfl) rfl h.child⟩

/-- The program writes, or exits. -/
theorem ThreadsInv.image_step (fresh : x.Fresh) {p : Prog SysCommand SysReply WaitStatus}
    (h : ThreadsInv x m d (.image p) n s) (next : ChildStage.code x (.image p) = .call cmd k)
    (answered : Answers capacity .child s cmd r s') :
    ∃ c' n', k r = c'.code x ∧ ThreadsInv x m d c' n' s' := by
  cases p with
  | ret status =>
      change Prog.call (.exit status) (fun _ => ChildStage.code x (.gone status)) = _ at next
      cases next
      cases answered
      exact ⟨.gone status, n, rfl, h.exits rfl status⟩
  | call cmd' k' =>
      obtain ⟨⟨n', rfl, hwithin⟩, ⟨fd, byte, rfl⟩, hissues⟩ := h.ready
      change Prog.call (.write fd byte) (fun r => thenExit (k' r)) = _ at next
      cases next
      exact ⟨.image (k' r), n', rfl, h.writes fresh ⟨hwithin r, hissues r⟩ answered⟩

/-- **A step of the child.** -/
theorem ThreadsInv.child_step (fresh : x.Fresh) (h : ThreadsInv x m d c n s)
    (next : c.code x = .call cmd k) (answered : Answers capacity .child s cmd r s') :
    ∃ c' n', k r = c'.code x ∧ ThreadsInv x m d c' n' s' := by
  obtain ⟨⟨h₁, h₂, h₃, h₄, h₅, h₆⟩, h₇, h₈, h₉, h₁₀⟩ := fresh.ne
  have hchild := h.child
  have hb := fresh.close_fds (fun _ => id)
  have hb₁ := fresh.close_fds (Table.close_sub (fun _ => id) 1)
  have hb₂ := fresh.close_fds (Table.close_sub (Table.close_sub (fun _ => id) 1) 2)
  cases c with
  | closeOutRead =>
      change Prog.call (.close x.fds.outRead) (fun _ => ChildStage.code x .closeErrRead) = _ at next
      cases next
      cases answered
      refine ⟨.closeErrRead, n, rfl, h.setChild rfl h.ready rfl ?_⟩
      rw [hchild]
      simp [ChildStage.table, Setting.table, Table.close_cons, hb, h₁.symm, h₂.symm, h₃.symm]
  | closeErrRead =>
      change Prog.call (.close x.fds.errRead) (fun _ => ChildStage.code x .dupOut) = _ at next
      cases next
      cases answered
      refine ⟨.dupOut, n, rfl, h.setChild rfl h.ready rfl ?_⟩
      rw [hchild]
      simp [ChildStage.table, Table.close_cons, hb, h₄, h₆.symm]
  | dupOut => exact h.dupOut_step fresh next answered
  | closeOut =>
      change Prog.call (.close x.fds.outWrite) (fun _ => ChildStage.code x .dupErr) = _ at next
      cases next
      cases answered
      refine ⟨.dupErr, n, rfl, h.setChild rfl h.ready rfl ?_⟩
      rw [hchild]
      simp [ChildStage.table, Table.close_cons, hb₁, h₅.symm, show 1 ≠ x.fds.outWrite by omega]
  | dupErr => exact h.dupErr_step fresh next answered
  | closeErr =>
      change Prog.call (.close x.fds.errWrite) (fun _ => ChildStage.code x .exec) = _ at next
      cases next
      cases answered
      refine ⟨.exec, n, rfl, h.setChild rfl h.ready rfl ?_⟩
      rw [hchild]
      simp [ChildStage.table, Table.close_cons, hb₂, show 1 ≠ x.fds.errWrite by omega,
        show 2 ≠ x.fds.errWrite by omega]
  | exec => exact h.exec_step next answered
  | image p => exact h.image_step fresh next answered
  | exit status table =>
      change Prog.call (.exit status) (fun _ => ChildStage.code x (.gone status)) = _ at next
      cases next
      cases answered
      exact ⟨.gone status, n, rfl, h.exits rfl status⟩
  | gone status => cases next

end

/-! ## The steps of the parent -/

/-- No read has failed. -/
def Uninterrupted (ev : Event SysCommand SysReply) : Prop := ∀ fd size, ev ≠ ⟨.read fd size, none⟩

/-- At the end of a pipe the child has gone. -/
theorem ThreadsInv.gone (h : ThreadsInv x m d c n s) {pipe : Stream} (closed : s.Closed pipe) :
    c.exited.isSome := by
  cases hc : c.exited with
  | some status => rfl
  | none =>
      obtain ⟨fd, hfd⟩ := ChildStage.holds h.ready hc pipe
      exact absurd (h.child ▸ hfd) (closed fd).2

theorem MainStage.lookup_errRead (fresh : x.Fresh) {pipe : Stream}
    (h : (m.table x).lookup x.fds.errRead = some (.read pipe)) : pipe = .err := by
  obtain ⟨⟨h₁, h₂, h₃, h₄, h₅, h₆⟩, -⟩ := fresh.ne
  have hbase : x.base.lookup x.fds.errRead ≠ some (.read pipe) := fun h =>
    End.noConfusion (fresh.lookup_base (fun _ => id) h)
  cases m <;> simp_all [table, Setting.table, Table.lookup_cons, h₂.symm, h₄.symm]

theorem MainStage.lookup_outRead (fresh : x.Fresh) {pipe : Stream}
    (h : (m.table x).lookup x.fds.outRead = some (.read pipe)) : pipe = .out := by
  have hbase : x.base.lookup x.fds.outRead ≠ some (.read pipe) := fun h =>
    End.noConfusion (fresh.lookup_base (fun _ => id) h)
  cases m <;> simp_all [table, Setting.table]

theorem MainStage.started_eq {fd : Nat} (h : m.started x = some fd) : fd = x.fds.errRead := by
  cases m <;> simp_all [started]

/-- **A step of the thread that drains the standard error.** -/
theorem ThreadsInv.stderr_step (fresh : x.Fresh) (h : ThreadsInv x m d c n s) {cmd : SysCommand}
    {k : SysReply cmd → Prog SysCommand SysReply (Option Unit)} {r : SysReply cmd}
    (next : d.code x = .call cmd k) (answered : Answers capacity .stderr s cmd r s')
    (uninterrupted : Uninterrupted ⟨cmd, r⟩) :
    ∃ d', k r = d'.code x ∧ ThreadsInv x m d' c n s' := by
  have hjoined : ∀ d' : StderrStage, (∀ err, d ≠ .ended err) →
      ∀ err, m.joined = some err → d' = .ended err :=
    fun d' hd err he => absurd (h.joined err he) (hd err)
  have hwaiting : ∀ d' : StderrStage, d ≠ .waiting → m.started x = none → d' = .waiting :=
    fun d' hd hnone => absurd (h.waiting hnone) hd
  cases d with
  | waiting =>
      change Prog.call SysCommand.threadStarted _ = _ at next
      cases next
      cases answered with
      | threadStarted started =>
          have hm : m.started x = some r := h.started ▸ started
          obtain rfl := MainStage.started_eq hm
          refine ⟨.drain x.fuel [], rfl, h.parent, h.child, h.started, h.text, h.exited, h.ready,
            h.out, h.err, h.outDone, nofun, fun hnone => ?_, hjoined _ nofun, h.status, h.outLeft,
            h.errLeft, h.waitLeft⟩
          rw [hm] at hnone
          cases hnone
  | drain left err =>
      have hleft := h.errLeft left rfl
      cases left with
      | zero => omega
      | succ left =>
          change Prog.call (SysCommand.read x.fds.errRead 4096) _ = _ at next
          cases next
          cases answered with
          | @read _ _ _ _ _ bytes rest own found there nonempty fits =>
              rw [h.parent] at found
              obtain rfl := MainStage.lookup_errRead fresh found
              obtain ⟨byte, bytes, rfl⟩ := List.exists_cons_of_ne_nil nonempty
              refine ⟨.drain left (err ++ byte :: bytes), rfl, h.parent, h.child, h.started, h.text,
                h.exited, h.ready, h.out, ?_, h.outDone, nofun, hwaiting _ nofun, hjoined _ nofun,
                h.status, h.outLeft, ?_, h.waitLeft⟩
              · show s.written 2 = (err ++ byte :: bytes) ++ Function.update s.buffer .err rest .err
                rw [h.err, there, Function.update_self]
                exact (List.append_assoc err (byte :: bytes) rest).symm
              · rintro _ ⟨⟩
                rw [there] at hleft
                simp at hleft ⊢
                omega
          | @readEnd _ _ _ _ _ own found empty closed =>
              rw [h.parent] at found
              obtain rfl := MainStage.lookup_errRead fresh found
              exact ⟨.done err, rfl, h.parent, h.child, h.started, h.text, h.exited, h.ready, h.out,
                h.err, h.outDone, fun _ => ⟨empty, h.gone closed⟩, hwaiting _ nofun,
                hjoined _ nofun, h.status, h.outLeft, nofun, h.waitLeft⟩
          | readInterrupted own signal => exact absurd rfl (uninterrupted _ _)
  | done err =>
      change Prog.call (SysCommand.endThread err) _ = _ at next
      cases next
      cases answered
      exact ⟨.ended err, rfl, h.parent, h.child, h.started, rfl, h.exited, h.ready, h.out, h.err,
        h.outDone, fun _ => h.errDone rfl, hwaiting _ nofun, hjoined _ nofun, h.status, h.outLeft,
        nofun, h.waitLeft⟩
  | ended err => cases next

/-- The parent goes on, and nothing but its descriptors changes. -/
theorem ThreadsInv.setParent (h : ThreadsInv x m d c n s) {m' : MainStage} {table : Table}
    (htable : table = m'.table x) (hstarted : m'.started x = m.started x) (hout : m'.out = m.out)
    (hdrain : m'.drainLeft x = m.drainLeft x) (hjoined : m'.joined = m.joined)
    (hwait : m'.waitLeft x = m.waitLeft x) (hstatus : m'.status = m.status) :
    ThreadsInv x m' d c n { s with parent := table } where
  parent := htable
  child := h.child
  started := hstarted ▸ h.started
  text := h.text
  exited := h.exited
  ready := h.ready
  out := hout ▸ h.out
  err := h.err
  outDone := hdrain ▸ h.outDone
  errDone := h.errDone
  waiting := hstarted ▸ h.waiting
  joined := hjoined ▸ h.joined
  status := hstatus ▸ h.status
  outLeft := hdrain ▸ h.outLeft
  errLeft := h.errLeft
  waitLeft := hwait ▸ h.waitLeft

section
variable {cmd : SysCommand} {r : SysReply cmd}
  {k : SysReply cmd → Prog SysCommand SysReply (Option (Result ProcessResult))}

/-- The parent reads some of the standard output, or its end. -/
theorem ThreadsInv.drain_step (fresh : x.Fresh) {left : Nat} {out : Bytes}
    (h : ThreadsInv x (.drain left out) d c n s)
    (next : MainStage.code x (.drain left out) = .call cmd k)
    (answered : Answers capacity .main s cmd r s') (uninterrupted : Uninterrupted ⟨cmd, r⟩) :
    ∃ m', k r = m'.code x ∧ ThreadsInv x m' d c n s' := by
  have hleft := h.outLeft left rfl
  cases left with
  | zero => omega
  | succ left =>
      change Prog.call (SysCommand.read x.fds.outRead 4096) _ = _ at next
      cases next
      cases answered with
      | @read _ _ _ _ _ bytes rest own found there nonempty fits =>
          rw [h.parent] at found
          obtain rfl := MainStage.lookup_outRead fresh found
          obtain ⟨byte, bytes, rfl⟩ := List.exists_cons_of_ne_nil nonempty
          refine ⟨.drain left (out ++ byte :: bytes), rfl, h.parent, h.child, h.started, h.text,
            h.exited, h.ready, ?_, h.err, nofun, h.errDone, nofun, nofun, nofun, ?_, h.errLeft,
            h.waitLeft⟩
          · show s.written 1 = (out ++ byte :: bytes) ++ Function.update s.buffer .out rest .out
            rw [h.out, there, Function.update_self]
            exact (List.append_assoc out (byte :: bytes) rest).symm
          · rintro _ ⟨⟩
            rw [there] at hleft
            simp at hleft ⊢
            omega
      | @readEnd _ _ _ _ _ own found empty closed =>
          rw [h.parent] at found
          obtain rfl := MainStage.lookup_outRead fresh found
          exact ⟨.join out, rfl, h.parent, h.child, h.started, h.text, h.exited, h.ready, h.out,
            h.err, fun _ => ⟨empty, h.gone closed⟩, h.errDone, nofun, nofun, nofun, nofun,
            h.errLeft, h.waitLeft⟩
      | readInterrupted own signal => exact absurd rfl (uninterrupted _ _)

/-- The other thread has ended, and left its text. -/
theorem ThreadsInv.join_step {out : Bytes} (h : ThreadsInv x (.join out) d c n s)
    (next : MainStage.code x (.join out) = .call cmd k)
    (answered : Answers capacity .main s cmd r s') :
    ∃ m', k r = m'.code x ∧ ThreadsInv x m' d c n s' := by
  change Prog.call SysCommand.join _ = _ at next
  cases next
  cases answered with
  | join ended =>
      have hd : d = .ended r := by
        have htext : d.text = some r := h.text ▸ ended
        cases d <;> simp_all [StderrStage.text]
      refine ⟨.wait x.fuel out r, rfl, h.parent, h.child, h.started, h.text, h.exited, h.ready,
        h.out, h.err, h.outDone, h.errDone, nofun, ?_, nofun, nofun, h.errLeft, h.waitLeft⟩
      rintro _ ⟨⟩
      exact hd

/-- The child has been waited for, or a signal came first. -/
theorem ThreadsInv.wait_step {left : Nat} {out err : Bytes}
    (h : ThreadsInv x (.wait left out err) d c n s)
    (next : MainStage.code x (.wait left out err) = .call cmd k)
    (answered : Answers capacity .main s cmd r s') :
    ∃ m', k r = m'.code x ∧ ThreadsInv x m' d c n s' := by
  have hleft := h.waitLeft left rfl
  cases left with
  | zero => omega
  | succ left =>
      change Prog.call SysCommand.waitpid _ = _ at next
      cases next
      cases answered with
      | @waitpid _ status exited =>
          refine ⟨.closeErrRead status out err, rfl, h.parent, h.child, h.started, h.text,
            h.exited, h.ready, h.out, h.err, h.outDone, h.errDone, nofun, h.joined, ?_, nofun,
            h.errLeft, nofun⟩
          rintro _ ⟨⟩
          exact h.exited ▸ exited
      | waitInterrupted signal =>
          refine ⟨.wait left out err, rfl, h.parent, h.child, h.started, h.text, h.exited,
            h.ready, h.out, h.err, h.outDone, h.errDone, nofun, h.joined, nofun, nofun,
            h.errLeft, ?_⟩
          rintro _ ⟨⟩
          show s.signals - 1 < left
          omega

/-- **A step of the parent.** -/
theorem ThreadsInv.main_step (fresh : x.Fresh) (h : ThreadsInv x m d c n s)
    (next : m.code x = .call cmd k) (answered : Answers capacity .main s cmd r s')
    (uninterrupted : Uninterrupted ⟨cmd, r⟩) :
    ∃ m', k r = m'.code x ∧ ThreadsInv x m' d c n s' := by
  obtain ⟨⟨h₁, h₂, h₃, h₄, h₅, h₆⟩, -⟩ := fresh.ne
  have hb := fresh.close_fds (fun _ => id)
  have hparent := h.parent
  cases m with
  | closeOut =>
      change Prog.call (SysCommand.close x.fds.outWrite) _ = _ at next
      cases next
      cases answered
      refine ⟨.closeErr, rfl, h.setParent ?_ rfl rfl rfl rfl rfl rfl⟩
      rw [hparent]
      simp [MainStage.table, Setting.table, Table.close_cons, hb, h₁, h₄.symm, h₅.symm]
  | closeErr =>
      change Prog.call (SysCommand.close x.fds.errWrite) _ = _ at next
      cases next
      cases answered
      refine ⟨.start, rfl, h.setParent ?_ rfl rfl rfl rfl rfl rfl⟩
      rw [hparent]
      simp [MainStage.table, Table.close_cons, hb, h₃, h₆]
  | start =>
      change Prog.call (SysCommand.startThread x.fds.errRead) _ = _ at next
      cases next
      cases answered
      exact ⟨.drain x.fuel [], rfl, hparent, h.child, rfl, h.text, h.exited, h.ready, h.out, h.err,
        nofun, h.errDone, nofun, nofun, nofun, h.outLeft, h.errLeft, h.waitLeft⟩
  | drain left out => exact h.drain_step fresh next answered uninterrupted
  | join out => exact h.join_step next answered
  | wait left out err => exact h.wait_step next answered
  | closeErrRead status out err =>
      change Prog.call (SysCommand.close x.fds.errRead) _ = _ at next
      cases next
      cases answered
      refine ⟨.closeOutRead status out err, rfl, h.setParent ?_ rfl rfl rfl rfl rfl rfl⟩
      rw [hparent]
      simp [MainStage.table, Table.close_cons, hb, h₂]
  | closeOutRead status out err =>
      change Prog.call (SysCommand.close x.fds.outRead) _ = _ at next
      cases next
      cases answered
      refine ⟨.returned status out err, rfl, h.setParent ?_ rfl rfl rfl rfl rfl rfl⟩
      rw [hparent]
      simp [MainStage.table, Table.close_cons, hb]
  | returned status out err => cases next

end

end ProcessRunner
end EdgeTts
