/-
  ParaTos/Proc.lean
  =================
  **Forking and waiting** (`Pfork` and `Pwaitpid` in `gemdos/proc.c`).

  GEMDOS knows its processes by 16-bit numbers, the host by 32-bit ones.  `Pfork`
  hands out the low half of the host's number and remembers the pair on a list, and
  `Pwaitpid` looks numbers up in both directions.

  What the host answers is an argument of each function: the result of `fork`,
  whether `malloc` found room, and what `wait4` reported.
-/
import ParaTos.Errno
import ParaTos.Memory

namespace ParaTos.Proc

/-! ### The pid map -/

/-- `pid_map_t`; the list stands for the chain of its `next` pointers. -/
structure PidMap where
  tosPid : Int16
  hostPid : Int32
deriving DecidableEq, Repr

/-- `remember_pid(host_pid)`; `allocated` says whether `malloc` returned a block. -/
def rememberPid (hostPid : Int32) (allocated : Bool) (head : List PidMap) : List PidMap :=
  if allocated then ⟨hostPid.toInt16, hostPid⟩ :: head else head

/-- `map_tos_pid_to_host(tos_pid)` -/
def mapTosPidToHost (tosPid : Int16) : List PidMap → Int32
  | [] => tosPid.toInt32
  | entry :: rest => if entry.tosPid = tosPid then entry.hostPid else mapTosPidToHost tosPid rest

/-- `map_host_pid_to_tos(host_pid)` -/
def mapHostPidToTos (hostPid : Int32) : List PidMap → Int16
  | [] => hostPid.toInt16
  | entry :: rest => if entry.hostPid = hostPid then entry.tosPid else mapHostPidToTos hostPid rest

/-- `forget_pid_by_host(host_pid)` -/
def forgetPidByHost (hostPid : Int32) : List PidMap → List PidMap
  | [] => []
  | entry :: rest =>
    if entry.hostPid = hostPid then rest else entry :: forgetPidByHost hostPid rest

/-! ### Pfork -/

/-- `Pfork()`, when `fork` returns `pid`. -/
def pfork (pid : Int32) (allocated : Bool) (head : List PidMap) : Int16 × List PidMap :=
  (pid.toInt16, if 0 < pid then rememberPid pid allocated head else head)

/-! ### Pwaitpid -/

/-- The macros of `sys/wait.h`. -/
def wtermsig (status : UInt32) : UInt32 := status &&& 0x7f
def wexitstatus (status : UInt32) : UInt32 := (status &&& 0xff00) >>> 8
def wstopsig (status : UInt32) : UInt32 := wexitstatus status
def wifexited (status : UInt32) : Bool := wtermsig status == 0
def wifsignaled (status : UInt32) : Bool := wtermsig status != 0 && wtermsig status != 0x7f
def wifstopped (status : UInt32) : Bool := status &&& 0xff == 0x7f
def wcoredump (status : UInt32) : Bool := status &&& 0x80 != 0

/-- `struct timeval` and `struct rusage`, as far as they are used. -/
structure Timeval where
  sec : Int64
  usec : Int64
deriving DecidableEq, Repr

structure Rusage where
  utime : Timeval
  stime : Timeval
deriving DecidableEq, Repr

/-- What `wait4` comes back with.  When no child has anything to report, `childpid` is 0
    and the rest is what the variables held before. -/
inductive Wait4 where
  | failed (errno : Errno)
  | reported (childpid : Int32) (status : UInt32) (usage : Rusage)
deriving DecidableEq, Repr

/-- The first argument of `wait4`. -/
def waitTarget (pid : Int16) (head : List PidMap) : Int32 :=
  if pid ≠ -1 then mapTosPidToHost pid head else -1

def wnohang : UInt32 := 1
def wuntraced : UInt32 := 2

/-- The `options` of `wait4`. -/
def waitOptions (flag : Int16) : UInt32 :=
  (if flag &&& 1 ≠ 0 then wnohang else 0) ||| (if flag &&& 2 ≠ 0 then wuntraced else 0)

/-- `(uint32_t)(tv.tv_sec*1000 + tv.tv_usec)` -/
def Timeval.word (tv : Timeval) : UInt32 := (tv.sec * 1000 + tv.usec).toUInt64.toUInt32

/-- The two times, stored at `rusagep` and `rusagep+1`. -/
def writeUsage (rusagep : UInt32) (usage : Rusage) (m : Memory) : Run Memory := do
  if rusagep = 0 then return m
  let m ← Memory.writeMemory32 rusagep usage.utime.word m
  Memory.writeMemory32 (rusagep + 1) usage.stime.word m

/-- The result of `Pwaitpid` for a child: its number, the core flag, the signal and the
    exit code. -/
def waitResult (tosChildpid : Int16) (status : UInt32) : Int32 :=
  let retval := tosChildpid.toUInt16.toUInt32 <<< 16
  let (retval, signum, code) :=
    if wifexited status then (retval, 0, wexitstatus status)
    else if wifsignaled status then
      (if wcoredump status then retval ||| 0x8000 else retval, wtermsig status, 0)
    else if wifstopped status then (retval, wstopsig status, 0x1f)
    else (retval, 0, 0)
  (retval ||| ((signum <<< 8) &&& 0x7f00) ||| (code &&& 0xff)).toInt32

/-- `Pwaitpid` behind its call of `wait4(waitTarget pid, &status, waitOptions flag, …)`. -/
def pwaitpid (rusagep : UInt32) (reply : Wait4) (head : List PidMap) (m : Memory) :
    Run (Int32 × List PidMap × Memory) :=
  match reply with
  | .failed errno => Except.ok (mapErrno errno, head, m)
  | .reported childpid status usage => do
    let m ← writeUsage rusagep usage m
    let tosChildpid := mapHostPidToTos childpid head
    let head :=
      if wifexited status || wifsignaled status then forgetPidByHost childpid head else head
    return (waitResult tosChildpid status, head, m)

/-! ### Looking up -/

theorem mapTosPidToHost_of_mem {tosPid : Int16} {hostPid : Int32} {head : List PidMap}
    (hmem : ⟨tosPid, hostPid⟩ ∈ head)
    (hunique : ∀ entry ∈ head, entry.tosPid = tosPid → entry.hostPid = hostPid) :
    mapTosPidToHost tosPid head = hostPid := by
  induction head with
  | nil => cases hmem
  | cons entry head ih =>
    unfold mapTosPidToHost
    split
    · rename_i heq
      exact hunique entry (by simp) heq
    · rename_i hne
      rcases List.mem_cons.mp hmem with rfl | hmem
      · exact absurd rfl hne
      · exact ih hmem fun e he => hunique e (by simp [he])

theorem mapTosPidToHost_of_absent {tosPid : Int16} {head : List PidMap}
    (h : ∀ entry ∈ head, entry.tosPid ≠ tosPid) :
    mapTosPidToHost tosPid head = tosPid.toInt32 := by
  induction head with
  | nil => rfl
  | cons entry head ih =>
    unfold mapTosPidToHost
    rw [if_neg (h entry (by simp))]
    exact ih fun e he => h e (by simp [he])

/-- Every entry holds the low half of its host pid, so that looking up the low half of a
    host pid needs no entry. -/
theorem mapHostPidToTos_eq {hostPid : Int32} {head : List PidMap}
    (h : ∀ entry ∈ head, entry.tosPid = entry.hostPid.toInt16) :
    mapHostPidToTos hostPid head = hostPid.toInt16 := by
  induction head with
  | nil => rfl
  | cons entry head ih =>
    unfold mapHostPidToTos
    split
    · rename_i heq
      rw [h entry (by simp), heq]
    · exact ih fun e he => h e (by simp [he])

theorem forgetPidByHost_sublist {hostPid : Int32} {head : List PidMap} :
    (forgetPidByHost hostPid head).Sublist head := by
  induction head with
  | nil => exact List.Sublist.refl _
  | cons entry head ih =>
    unfold forgetPidByHost
    split
    · exact List.sublist_cons_self entry head
    · exact ih.cons_cons entry

theorem mem_forgetPidByHost {hostPid : Int32} {head : List PidMap} {entry : PidMap}
    (hmem : entry ∈ head) (hne : entry.hostPid ≠ hostPid) :
    entry ∈ forgetPidByHost hostPid head := by
  induction head with
  | nil => cases hmem
  | cons e head ih =>
    unfold forgetPidByHost
    rcases List.mem_cons.mp hmem with rfl | hmem
    · rw [if_neg hne]
      simp
    · split
      · exact hmem
      · exact List.mem_cons_of_mem _ (ih hmem)

/-- With one entry for each host pid, none is left of the one that is forgotten. -/
theorem forgetPidByHost_ne {hostPid : Int32} {head : List PidMap}
    (hnodup : (head.map PidMap.hostPid).Nodup) :
    ∀ entry ∈ forgetPidByHost hostPid head, entry.hostPid ≠ hostPid := by
  induction head with
  | nil => simp [forgetPidByHost]
  | cons e head ih =>
    obtain ⟨hnot, hrest⟩ := List.nodup_cons.mp hnodup
    unfold forgetPidByHost
    split
    · rename_i heq
      intro entry he heq'
      apply hnot
      rw [heq, ← heq']
      exact List.mem_map_of_mem he
    · rename_i hne
      intro entry he
      rcases List.mem_cons.mp he with rfl | he
      · exact hne
      · exact ih hrest entry he

/-! ### The result -/

/-- The process number in the high word of a result of `Pwaitpid`. -/
def highWord (r : Int32) : Int16 := (r.toUInt32 >>> 16).toUInt16.toInt16

/-- Bits of the low word do not show in the high word. -/
theorem highWord_or {t : Int16} {x y z : UInt32} (hx : x >>> 16 = 0) (hy : y >>> 16 = 0)
    (hz : z >>> 16 = 0) :
    highWord ((t.toUInt16.toUInt32 <<< 16 ||| x ||| y ||| z).toInt32) = t := by
  have hword : (t.toUInt16.toUInt32 <<< 16) >>> 16 = t.toUInt16.toUInt32 := by
    have hlt := t.toUInt16.toNat_lt
    have h16 : (16 : UInt32).toNat % 32 = 16 := by decide
    apply UInt32.toNat_inj.mp
    rw [UInt32.toNat_shiftRight, UInt32.toNat_shiftLeft, UInt16.toNat_toUInt32, h16,
      Nat.shiftLeft_eq, Nat.shiftRight_eq_div_pow]
    omega
  unfold highWord
  rw [UInt32.toUInt32_toInt32, UInt32.shiftRight_or, UInt32.shiftRight_or, UInt32.shiftRight_or,
    hx, hy, hz, hword]
  simp

theorem highWord_waitResult (tosChildpid : Int16) (status : UInt32) :
    highWord (waitResult tosChildpid status) = tosChildpid := by
  have hmask : ∀ a b : UInt32, b >>> 16 = 0 → (a &&& b) >>> 16 = 0 := by
    intro a b hb
    rw [UInt32.shiftRight_and, hb]
    simp
  have hresult : ∀ x signum code : UInt32, x >>> 16 = 0 →
      highWord ((tosChildpid.toUInt16.toUInt32 <<< 16 ||| x ||| ((signum <<< 8) &&& 0x7f00) |||
        (code &&& 0xff)).toInt32) = tosChildpid :=
    fun x signum code hx => highWord_or hx (hmask _ _ (by decide)) (hmask _ _ (by decide))
  have hplain : ∀ signum code : UInt32, highWord ((tosChildpid.toUInt16.toUInt32 <<< 16 |||
      ((signum <<< 8) &&& 0x7f00) ||| (code &&& 0xff)).toInt32) = tosChildpid := by
    intro signum code
    have h := hresult 0 signum code (by decide)
    rwa [UInt32.or_zero] at h
  unfold waitResult
  split
  · exact hplain _ _
  · split
    · split
      · exact hresult 0x8000 _ _ (by decide)
      · exact hplain _ _
    · split <;> exact hplain _ _

end ParaTos.Proc
