/-
  ParaTos/PexecRun.lean
  =====================
  **Running a program** (`Pexec` in `gemdos/pexec.c`).

  In mode 200 `Pexec` replaces the process, in mode 0 it forks a child that does the
  same and waits for it.  Two things go through all of this.

  The first is the reason why a program could not be started.  Mode 200 has no `break`
  behind its error code, and `ENOSYS` takes its place; the child of mode 0 ends with the
  low byte of that, which the parent cannot tell from the exit code of a program
  (`outcome_reported_iff`).  A path that could not be resolved is not noticed at all.

  The second are the signals.  The parent ignores two of them while it waits and has them
  restored on every way out, but the child is forked in between, and nothing empties the
  set of signals that are blocked (`signals_iff`).
-/
import ParaTos.Pexec
import ParaTos.Proc
import ParaTos.Signals

namespace ParaTos.Pexec

open CString Memory Signals

/-! ### Processes of the host -/

/-- `sa_handler` -/
inductive Handler where
  | sigDfl
  | sigIgn
  | function (address : UInt64)
deriving DecidableEq, Repr

/-- `struct sigaction` -/
structure Sigaction where
  handler : Handler
  mask : Sigset
  flags : UInt32

/-- What a process does with its signals, and the ones that it has blocked. -/
structure Process where
  actions : HostSignal → Sigaction
  blocked : Sigset

/-- `sigaction(signum, act, NULL)`, which does not fail for the signals here. -/
def Process.sigaction (signum : HostSignal) (act : Sigaction) (p : Process) : Process :=
  { p with actions := Function.update p.actions signum act }

/-- A program starts with handled signals reset, ignored ones ignored, and the set of blocked
    signals as it is. -/
def Process.exec (p : Process) : Process where
  actions := fun signum =>
    { handler := if (p.actions signum).handler = .sigIgn then .sigIgn else .sigDfl
      mask := sigemptyset
      flags := 0 }
  blocked := p.blocked

/-- The answers of the host.  `execve` yields the error that it fails with, and `ended` is the
    status with which the program ends that is started otherwise.  When `waitpid` fails it
    leaves what `status` held. -/
structure Kernel where
  paratosExe : List UInt8
  magic : List UInt8 → Option UInt16
  fork : Except Errno Int32
  execve : Option (List UInt8) → Args → Option Errno
  ended : UInt32
  waitpid : Except UInt32 Unit

/-- What is done to have something run. -/
inductive Attempt where
  | fork
  | execve (path : Option (List UInt8))
deriving DecidableEq, Repr

/-- What a call comes to: its result unless the process was replaced, the process afterwards,
    the one that a program was started in, and what was tried. -/
structure Outcome where
  retval : Option Int32
  process : Process
  program : Option Process
  tried : List Attempt

/-! ### The call -/

/-- `prepare_args` for a path that may be null.  In that case `argv[0]` is null too, and there
    is no file to look into. -/
def preparePath (kernel : Kernel) (path : Option (List UInt8)) (cmdline env : UInt32)
    (m : Memory) : Run Args :=
  match path with
  | some path => prepareArgs ⟨path, kernel.paratosExe, kernel.magic path⟩ cmdline env m
  | none => do
    let a ← prepareArgs ⟨[], kernel.paratosExe, none⟩ cmdline env m
    return { a with slots := a.slots.map fun s => if s = .ptr .path then .null else s }

/-- The path to execute. -/
def execPath (kernel : Kernel) (path : Option (List UInt8)) (a : Args) : Option (List UInt8) :=
  if a.path = .paratosExe then some kernel.paratosExe else path

/-- Mode 200.  Where `execve` fails, `retval = MapErrno()` falls through to the default. -/
def pexecReplace (kernel : Kernel) (path : Option (List UInt8)) (arg2 arg3 : UInt32)
    (m : Memory) (p : Process) : Run Outcome := do
  let a ← preparePath kernel path arg2 arg3 m
  let tried := [Attempt.execve (execPath kernel path a)]
  match kernel.execve (execPath kernel path a) a with
  | none => return { retval := none, process := p.exec, program := some p.exec, tried := tried }
  | some _ => return { retval := some tosEnosys, process := p, program := none, tried := tried }

/-- `_exit(retval)`, as the parent sees it. -/
def exitStatus (retval : Int32) : UInt32 := (retval.toUInt32 &&& 0xff) <<< 8

/-- The status of a child that an invalid access kills: `SIGSEGV`. -/
def killedStatus : UInt32 := 11

/-- What the child of mode 0 comes to: the status that it ends with, the process of a program
    that was started, and what was tried. -/
def child (kernel : Kernel) (path : Option (List UInt8)) (arg2 arg3 : UInt32) (m : Memory)
    (p : Process) : UInt32 × Option Process × List Attempt :=
  match pexecReplace kernel path arg2 arg3 m p with
  | .error _ => (killedStatus, none, [])
  | .ok o =>
    match o.retval with
    | none => (kernel.ended, o.program, o.tried)
    | some retval => (exitStatus retval, none, o.tried)

/-- `status` behind `waitpid(pid, &status, 0)`, for a child that ends with a status. -/
def Kernel.status (kernel : Kernel) (ended : UInt32) : UInt32 :=
  match kernel.waitpid with
  | .ok () => ended
  | .error garbage => garbage

/-- What the parent returns for a status. -/
def exitCode (status : UInt32) : Int32 :=
  if Proc.wifexited status then (Proc.wexitstatus status).toInt32 else -1

/-- Mode 0.  `newAct` is what the variable held before. -/
def pexecGo (kernel : Kernel) (newAct : Sigaction) (path : Option (List UInt8))
    (arg2 arg3 : UInt32) (m : Memory) (p : Process) : Outcome :=
  let newAct := { newAct with handler := .sigIgn }
  let intAct := p.actions .sigint
  let p := p.sigaction .sigint newAct
  let quitAct := p.actions .sigquit
  let p := p.sigaction .sigquit newAct
  match kernel.fork with
  | .error errno =>
    let ret := mapErrno errno
    let p := p.sigaction .sigint intAct
    let p := p.sigaction .sigquit quitAct
    { retval := some ret, process := p, program := none, tried := [.fork] }
  | .ok _ =>
    let (ended, program, tried) := child kernel path arg2 arg3 m p
    let status := kernel.status ended
    let p := p.sigaction .sigint intAct
    let p := p.sigaction .sigquit quitAct
    { retval := some (exitCode status), process := p, program := program, tried := .fork :: tried }

/-- `Pexec(mode, arg1, arg2, arg3)`; `path` is what `read_path` makes of `arg1`, and null for a
    null pointer. -/
def pexec (kernel : Kernel) (newAct : Sigaction) (mode : UInt16) (path : Option (List UInt8))
    (arg2 arg3 : UInt32) (m : Memory) (p : Process) : Run Outcome :=
  if mode &&& 0x7fff = 0 then Except.ok (pexecGo kernel newAct path arg2 arg3 m p)
  else if mode &&& 0x7fff = 200 then pexecReplace kernel path arg2 arg3 m p
  else Except.ok { retval := some tosEnosys, process := p, program := none, tried := [] }

/-! ### Errors -/

/-- The two modes that run a program. -/
inductive Mode where
  | go
  | replace
deriving DecidableEq, Repr

def Mode.number : Mode → UInt16
  | .go => 0
  | .replace => 200

section Calls

variable {kernel : Kernel} {newAct : Sigaction} {path : Option (List UInt8)} {arg2 arg3 : UInt32}
  {m : Memory} {p : Process}

theorem pexec_go : pexec kernel newAct Mode.go.number path arg2 arg3 m p =
    Except.ok (pexecGo kernel newAct path arg2 arg3 m p) := rfl

theorem pexec_replace : pexec kernel newAct Mode.replace.number path arg2 arg3 m p =
    pexecReplace kernel path arg2 arg3 m p := rfl

/-! What becomes of the process that is to be replaced, and of the child that does it. -/

theorem pexecReplace_fault {f : Fault}
    (ha : preparePath kernel path arg2 arg3 m = Except.error f) :
    pexecReplace kernel path arg2 arg3 m p = Except.error f := by
  rw [pexecReplace, ha]
  rfl

theorem pexecReplace_started {a : Args}
    (ha : preparePath kernel path arg2 arg3 m = Except.ok a)
    (hexec : kernel.execve (execPath kernel path a) a = none) :
    pexecReplace kernel path arg2 arg3 m p = Except.ok
      { retval := none
        process := p.exec
        program := some p.exec
        tried := [.execve (execPath kernel path a)] } := by
  rw [pexecReplace, ha, Run.ok_bind]
  simp only [hexec]
  rfl

theorem pexecReplace_failed {a : Args} {e : Errno}
    (ha : preparePath kernel path arg2 arg3 m = Except.ok a)
    (hexec : kernel.execve (execPath kernel path a) a = some e) :
    pexecReplace kernel path arg2 arg3 m p = Except.ok
      { retval := some tosEnosys
        process := p
        program := none
        tried := [.execve (execPath kernel path a)] } := by
  rw [pexecReplace, ha, Run.ok_bind]
  simp only [hexec]
  rfl

theorem child_fault {f : Fault} (ha : preparePath kernel path arg2 arg3 m = Except.error f) :
    child kernel path arg2 arg3 m p = (killedStatus, none, []) := by
  rw [child, pexecReplace_fault ha]

theorem child_started {a : Args} (ha : preparePath kernel path arg2 arg3 m = Except.ok a)
    (hexec : kernel.execve (execPath kernel path a) a = none) :
    child kernel path arg2 arg3 m p =
      (kernel.ended, some p.exec, [.execve (execPath kernel path a)]) := by
  rw [child, pexecReplace_started ha hexec]

theorem child_failed {a : Args} {e : Errno}
    (ha : preparePath kernel path arg2 arg3 m = Except.ok a)
    (hexec : kernel.execve (execPath kernel path a) a = some e) :
    child kernel path arg2 arg3 m p =
      (exitStatus tosEnosys, none, [.execve (execPath kernel path a)]) := by
  rw [child, pexecReplace_failed ha hexec]

/-- Whatever happens, mode 0 tries to fork first. -/
theorem pexecGo_tried : (pexecGo kernel newAct path arg2 arg3 m p).tried ≠ [] := by
  unfold pexecGo
  cases kernel.fork with
  | error e => simp
  | ok pid => simp

end Calls

/-- The host refuses to execute the program, with this error. -/
def ExecFails (kernel : Kernel) (mode : Mode) (path : Option (List UInt8)) (arg2 arg3 : UInt32)
    (m : Memory) (e : Errno) : Prop :=
  path ≠ none ∧ (mode = .go → ∃ pid, kernel.fork = .ok pid) ∧
    ∃ a, preparePath kernel path arg2 arg3 m = Except.ok a ∧
      kernel.execve (execPath kernel path a) a = some e

/-- The result that tells of an error: in mode 0 it is enough that it is no exit code. -/
def Mode.Told : Mode → Errno → Int32 → Prop
  | .replace, e, retval => retval = mapErrno e
  | .go, _, retval => retval < 0

/-- A caller is told why its program did not run: a path that could not be resolved is an error,
    and nothing is tried; when `execve` fails, mode 200 returns its error, and mode 0 a negative
    number, which is no exit code. -/
structure Reports (kernel : Kernel) (newAct : Sigaction) (mode : Mode)
    (path : Option (List UInt8)) (arg2 arg3 : UInt32) (m : Memory) (p : Process) : Prop where
  unresolved : path = none → ∃ o retval, pexec kernel newAct mode.number path arg2 arg3 m p =
    Except.ok o ∧ o.retval = some retval ∧ retval < 0 ∧ o.tried = []
  failed : ∀ e, ExecFails kernel mode path arg2 arg3 m e →
    ∃ o retval, pexec kernel newAct mode.number path arg2 arg3 m p = Except.ok o ∧
      o.retval = some retval ∧ mode.Told e retval

/-- What the mode comes to tells of the error by chance: mode 200 always says `ENOSYS`, and in
    mode 0 `waitpid` may leave a status that is none of an exit. -/
def Kernel.Chance (kernel : Kernel) : Mode → Errno → Prop
  | .replace, e => e = .enosys
  | .go, _ => ∃ garbage, kernel.waitpid = .error garbage ∧ Proc.wifexited garbage = false

/-- There is no error to tell, or chance has it told. -/
def Tells (kernel : Kernel) (mode : Mode) (path : Option (List UInt8)) (arg2 arg3 : UInt32)
    (m : Memory) : Prop :=
  path ≠ none ∧ ∀ e, ExecFails kernel mode path arg2 arg3 m e → kernel.Chance mode e

theorem mapErrno_eq_enosys {e : Errno} : mapErrno e = tosEnosys ↔ e = .enosys := by
  cases e with
  | other n => simp [mapErrno, tosEnosys]
  | _ => decide

/-- An exit code is not negative. -/
theorem exitCode_neg_iff (status : UInt32) :
    exitCode status < 0 ↔ Proc.wifexited status = false := by
  have hall : ∀ n < 256, ¬ (UInt32.ofNat n).toInt32 < 0 := by decide +kernel
  have hbyte : Proc.wexitstatus status = status >>> 8 &&& 0xff := by
    rw [Proc.wexitstatus, UInt32.shiftRight_and]
    rfl
  have hlt : (Proc.wexitstatus status).toNat < 256 := by
    have hand : (status >>> 8 &&& 0xff).toNat = (status >>> 8).toNat % 2 ^ 8 := by
      rw [UInt32.toNat_and]
      exact Nat.and_two_pow_sub_one_eq_mod (status >>> 8).toNat 8
    rw [hbyte]
    omega
  have hcode := hall _ hlt
  rw [UInt32.ofNat_toNat] at hcode
  unfold exitCode
  cases Proc.wifexited status with
  | true => simp [hcode]
  | false =>
    rw [if_neg Bool.false_ne_true]
    exact iff_of_true (by decide) rfl

/-- The child of mode 0 passes for a program that returned 224. -/
theorem pexecGo_failed {kernel : Kernel} {newAct : Sigaction} {path : Option (List UInt8)}
    {arg2 arg3 : UInt32} {m : Memory} {p : Process} {a : Args} {e : Errno} {pid : Int32}
    (hfork : kernel.fork = .ok pid) (ha : preparePath kernel path arg2 arg3 m = Except.ok a)
    (hexec : kernel.execve (execPath kernel path a) a = some e) :
    (pexecGo kernel newAct path arg2 arg3 m p).retval =
      some (exitCode (kernel.status (exitStatus tosEnosys))) := by
  unfold pexecGo
  simp only [hfork, child_failed ha hexec]

theorem status_exited_iff (kernel : Kernel) :
    Proc.wifexited (kernel.status (exitStatus tosEnosys)) = false ↔
      ∃ garbage, kernel.waitpid = .error garbage ∧ Proc.wifexited garbage = false := by
  unfold Kernel.status
  cases kernel.waitpid with
  | ok u =>
    have hexited : Proc.wifexited (exitStatus tosEnosys) = true := by decide
    simp [hexited]
  | error garbage => simp

/-- What either mode returns when `execve` fails. -/
def Kernel.afterFailure (kernel : Kernel) : Mode → Int32
  | .replace => tosEnosys
  | .go => exitCode (kernel.status (exitStatus tosEnosys))

section Reports

variable {kernel : Kernel} {newAct : Sigaction} {mode : Mode} {path : Option (List UInt8)}
  {arg2 arg3 : UInt32} {m : Memory} {p : Process} {e : Errno}

theorem told_iff : mode.Told e (kernel.afterFailure mode) ↔ kernel.Chance mode e := by
  cases mode with
  | go => exact (exitCode_neg_iff _).trans (status_exited_iff kernel)
  | replace => exact eq_comm.trans mapErrno_eq_enosys

/-- Neither mode returns without an attempt to have something run. -/
theorem pexec_tries {o : Outcome}
    (hrun : pexec kernel newAct mode.number path arg2 arg3 m p = Except.ok o) : o.tried ≠ [] := by
  cases mode with
  | go =>
    rw [pexec_go] at hrun
    cases hrun
    exact pexecGo_tried
  | replace =>
    rw [pexec_replace] at hrun
    cases ha : preparePath kernel path arg2 arg3 m with
    | error f =>
      rw [pexecReplace_fault ha] at hrun
      cases hrun
    | ok a =>
      cases hexec : kernel.execve (execPath kernel path a) a with
      | none =>
        rw [pexecReplace_started ha hexec] at hrun
        cases hrun
        simp
      | some e =>
        rw [pexecReplace_failed ha hexec] at hrun
        cases hrun
        simp

/-- The error itself plays no part in what the call returns. -/
theorem pexec_failed (newAct : Sigaction) (p : Process)
    (hfails : ExecFails kernel mode path arg2 arg3 m e) :
    ∃ o, pexec kernel newAct mode.number path arg2 arg3 m p = Except.ok o ∧
      o.retval = some (kernel.afterFailure mode) := by
  obtain ⟨-, hfork, a, ha, hexec⟩ := hfails
  cases mode with
  | go =>
    obtain ⟨pid, hfork⟩ := hfork rfl
    exact ⟨_, pexec_go, pexecGo_failed hfork ha hexec⟩
  | replace => exact ⟨_, pexec_replace.trans (pexecReplace_failed ha hexec), rfl⟩

theorem Reports.chance (h : Reports kernel newAct mode path arg2 arg3 m p)
    (hfails : ExecFails kernel mode path arg2 arg3 m e) : kernel.Chance mode e := by
  obtain ⟨o, retval, hrun, hretval, htold⟩ := h.failed e hfails
  obtain ⟨o', hrun', hretval'⟩ := pexec_failed newAct p hfails
  rw [hrun] at hrun'
  cases hrun'
  rw [hretval] at hretval'
  cases hretval'
  exact told_iff.mp htold

theorem Reports.resolved (h : Reports kernel newAct mode path arg2 arg3 m p) : path ≠ none := by
  intro hpath
  obtain ⟨o, retval, hrun, -, -, htried⟩ := h.unresolved hpath
  exact pexec_tries hrun htried

end Reports

/-- Whether the caller learns why its program did not run. -/
theorem outcome_reported_iff (kernel : Kernel) (newAct : Sigaction) (mode : Mode)
    (path : Option (List UInt8)) (arg2 arg3 : UInt32) (m : Memory) (p : Process) :
    Reports kernel newAct mode path arg2 arg3 m p ↔ Tells kernel mode path arg2 arg3 m := by
  constructor
  · intro h
    exact ⟨h.resolved, fun e hfails => h.chance hfails⟩
  · rintro ⟨hpath, htells⟩
    refine ⟨fun hnone => absurd hnone hpath, fun e hfails => ?_⟩
    obtain ⟨o, hrun, hretval⟩ := pexec_failed newAct p hfails
    exact ⟨o, _, hrun, hretval, told_iff.mpr (htells e hfails)⟩

/-- A host on which nothing fails but `execve`. -/
def sampleKernel (execve : Option (List UInt8) → Args → Option Errno) : Kernel where
  paratosExe := ascii "/paratos"
  magic := fun _ => none
  fork := .ok 100
  execve := execve
  ended := 0
  waitpid := .ok ()

/-- A process that handles and blocks nothing. -/
def plainProcess : Process := ⟨fun _ => ⟨.sigDfl, sigemptyset, 0⟩, sigemptyset⟩

theorem sampleKernel_prepares (execve : Option (List UInt8) → Args → Option Errno) :
    ∃ a, preparePath (sampleKernel execve) (some (ascii "/p")) 0x10000 0x20000 initM68KMemory =
      Except.ok a := by
  have hsome : (prepareArgs ⟨ascii "/p", ascii "/paratos", none⟩ 0x10000 0x20000
      initM68KMemory).toOption.isSome = true := by
    decide +kernel
  cases hprepare : prepareArgs ⟨ascii "/p", ascii "/paratos", none⟩ 0x10000 0x20000
      initM68KMemory with
  | error f =>
    rw [hprepare] at hsome
    cases hsome
  | ok a => exact ⟨a, hprepare⟩

/-- The host knows no program, and every `execve` fails with `ENOENT`.  Mode 200 returns -32
    instead of -33 and mode 0 returns 224, and for a path that could not be resolved mode 0
    forks. -/
theorem reports_enoent :
    ¬ Reports (sampleKernel fun _ _ => some .enoent) ⟨.sigDfl, sigemptyset, 0⟩ .replace
        (some (ascii "/p")) 0x10000 0x20000 initM68KMemory plainProcess ∧
      ¬ Reports (sampleKernel fun _ _ => some .enoent) ⟨.sigDfl, sigemptyset, 0⟩ .go
        (some (ascii "/p")) 0x10000 0x20000 initM68KMemory plainProcess ∧
      ¬ Reports (sampleKernel fun _ _ => some .enoent) ⟨.sigDfl, sigemptyset, 0⟩ .go
        none 0x10000 0x20000 initM68KMemory plainProcess := by
  obtain ⟨a, ha⟩ := sampleKernel_prepares fun _ _ => some .enoent
  refine ⟨fun h => ?_, fun h => ?_, fun h => ?_⟩
  · have hchance : Errno.enoent = .enosys := h.chance ⟨by simp, by simp, a, ha, rfl⟩
    cases hchance
  · obtain ⟨garbage, hwait, -⟩ := h.chance ⟨by simp, fun _ => ⟨100, rfl⟩, a, ha, rfl⟩
    cases hwait
  · exact h.resolved rfl

/-! ### Signals -/

section Signals

variable {kernel : Kernel} {newAct : Sigaction} {path : Option (List UInt8)} {arg2 arg3 : UInt32}
  {m : Memory} {p : Process}

/-- Both dispositions go back to what they were. -/
theorem sigaction_restored (a b : Sigaction) (p : Process) :
    (((p.sigaction .sigint a).sigaction .sigquit b).sigaction .sigint
        (p.actions .sigint)).sigaction .sigquit ((p.sigaction .sigint a).actions .sigquit) = p := by
  obtain ⟨actions, blocked⟩ := p
  simp only [Process.sigaction, Process.mk.injEq, and_true]
  funext signum
  by_cases hquit : signum = .sigquit
  · simp [hquit]
  by_cases hint : signum = .sigint
  · simp [hint]
  · simp [hquit, hint]

/-- The process that called is the same afterwards. -/
theorem pexecGo_process : (pexecGo kernel newAct path arg2 arg3 m p).process = p := by
  unfold pexecGo
  cases kernel.fork with
  | error e => exact sigaction_restored _ _ p
  | ok pid => exact sigaction_restored _ _ p

/-- The process in which mode 0 runs a program. -/
theorem pexecGo_program (q : Process) :
    (pexecGo kernel newAct path arg2 arg3 m p).program = some q ↔
      (∃ pid, kernel.fork = .ok pid) ∧
        (∃ a, preparePath kernel path arg2 arg3 m = Except.ok a ∧
          kernel.execve (execPath kernel path a) a = none) ∧
        q = ((p.sigaction .sigint { newAct with handler := .sigIgn }).sigaction .sigquit
          { newAct with handler := .sigIgn }).exec := by
  unfold pexecGo
  cases kernel.fork with
  | error e => simp
  | ok pid =>
    cases ha : preparePath kernel path arg2 arg3 m with
    | error f => simp [child_fault ha]
    | ok a =>
      cases hexec : kernel.execve (execPath kernel path a) a with
      | none => simp [child_started ha hexec, hexec, eq_comm]
      | some e => simp [child_failed ha hexec, hexec]

end Signals

/-- The caller's dispositions are restored, and the program begins with the two signals ignored
    only if they were, and with no signal blocked. -/
structure KeepsSignals (kernel : Kernel) (newAct : Sigaction) (path : Option (List UInt8))
    (arg2 arg3 : UInt32) (m : Memory) (p : Process) : Prop where
  restored : ∃ o, pexec kernel newAct Mode.go.number path arg2 arg3 m p = Except.ok o ∧
    o.process.actions .sigint = p.actions .sigint ∧
    o.process.actions .sigquit = p.actions .sigquit
  program : ∀ o q, pexec kernel newAct Mode.go.number path arg2 arg3 m p = Except.ok o →
    o.program = some q →
      ((q.actions .sigint).handler = .sigIgn → (p.actions .sigint).handler = .sigIgn) ∧
      ((q.actions .sigquit).handler = .sigIgn → (p.actions .sigquit).handler = .sigIgn) ∧
      q.blocked = sigemptyset

/-- A program is started. -/
def Starts (kernel : Kernel) (path : Option (List UInt8)) (arg2 arg3 : UInt32) (m : Memory) :
    Prop :=
  (∃ pid, kernel.fork = .ok pid) ∧ ∃ a, preparePath kernel path arg2 arg3 m = Except.ok a ∧
    kernel.execve (execPath kernel path a) a = none

/-- What the caller has to do itself for a program to begin as it should: ignore both signals,
    and block none. -/
theorem signals_iff (kernel : Kernel) (newAct : Sigaction) (path : Option (List UInt8))
    (arg2 arg3 : UInt32) (m : Memory) (p : Process) :
    KeepsSignals kernel newAct path arg2 arg3 m p ↔
      (Starts kernel path arg2 arg3 m → (p.actions .sigint).handler = .sigIgn ∧
        (p.actions .sigquit).handler = .sigIgn ∧ p.blocked = sigemptyset) := by
  constructor
  · rintro ⟨-, hprogram⟩ ⟨hfork, hstarts⟩
    obtain ⟨hint, hquit, hblocked⟩ := hprogram _ _ pexec_go
      ((pexecGo_program _).mpr ⟨hfork, hstarts, rfl⟩)
    exact ⟨hint (by simp [Process.exec, Process.sigaction]),
      hquit (by simp [Process.exec, Process.sigaction]), hblocked⟩
  · intro h
    constructor
    · exact ⟨_, pexec_go, by rw [pexecGo_process], by rw [pexecGo_process]⟩
    · intro o q hrun hq
      rw [pexec_go] at hrun
      cases hrun
      obtain ⟨hfork, hstarts, rfl⟩ := (pexecGo_program q).mp hq
      obtain ⟨hint, hquit, hblocked⟩ := h ⟨hfork, hstarts⟩
      exact ⟨fun _ => hint, fun _ => hquit, hblocked⟩

/-- A process that handles its signals by default starts a program that ignores two of them, and
    one that has blocked `SIGTERM` with `Psigblock` starts a program with `SIGTERM` blocked. -/
theorem signals_inherited :
    ¬ KeepsSignals (sampleKernel fun _ _ => none) ⟨.sigDfl, sigemptyset, 0⟩ (some (ascii "/p"))
        0x10000 0x20000 initM68KMemory plainProcess ∧
      ¬ KeepsSignals (sampleKernel fun _ _ => none) ⟨.sigDfl, sigemptyset, 0⟩ (some (ascii "/p"))
        0x10000 0x20000 initM68KMemory
        ⟨fun _ => ⟨.sigIgn, sigemptyset, 0⟩, (psigblock 0x8000 sigemptyset).2⟩ := by
  obtain ⟨a, ha⟩ := sampleKernel_prepares fun _ _ => none
  have hstarts := fun p newAct => (@pexecGo_program (sampleKernel fun _ _ => none) newAct
    (some (ascii "/p")) 0x10000 0x20000 initM68KMemory p _).mpr ⟨⟨100, rfl⟩, ⟨a, ha, rfl⟩, rfl⟩
  constructor
  · intro h
    have hint := (h.program _ _ pexec_go (hstarts _ _)).1
    exact absurd (hint (by decide)) (by decide)
  · intro h
    have hblocked := (h.program _ _ pexec_go (hstarts _ _)).2.2
    have hterm := congrFun hblocked .sigterm
    exact absurd hterm (by decide)

end ParaTos.Pexec
