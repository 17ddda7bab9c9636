/-
  ParaTos/ProcUsage.lean
  ======================
  **What `Pwaitpid` makes of the host's answer** (`gemdos/proc.c`).

  `wait4` fills in a status and, where the guest asked for them, the times that the child
  has used.  `Pwaitpid` adds seconds in milliseconds to microseconds, and it stores the
  second sum one byte behind the first instead of four (`storesTimes_iff`).

  When no child has anything to report, `wait4` returns 0 and fills in nothing.  `Pwaitpid`
  does not ask for that case, and what it returns and stores is made of what the two
  variables held before (`nothing_reported_iff`).
-/
import ParaTos.ProcRuns

namespace ParaTos.Proc

open Bytes Memory Words

/-! ### The calls -/

/-- `Pwaitpid(pid, flag, rusagep)` with its call of `wait4`. -/
def pwaitpidCall (wait4 : Int32 → UInt32 → Wait4) (pid flag : Int16) (rusagep : UInt32)
    (head : List PidMap) (m : Memory) : Run (Int32 × List PidMap × Memory) :=
  pwaitpid rusagep (wait4 (waitTarget pid head) (waitOptions flag)) head m

/-- `Pwait3(flag, rusage)` -/
def pwait3 (wait4 : Int32 → UInt32 → Wait4) (flag : Int16) (rusage : UInt32)
    (head : List PidMap) (m : Memory) : Run (Int32 × List PidMap × Memory) :=
  pwaitpidCall wait4 (-1) flag rusage head m

/-! ### The times -/

/-- A time in milliseconds. -/
def Timeval.ms (tv : Timeval) : UInt32 :=
  UInt32.ofNat ((tv.sec.toInt * 1000 + tv.usec.toInt / 1000) % 2 ^ 32).toNat

/-- The bytes that two stores at `rusagep` and `rusagep+1` leave. -/
def usageBytes (usage : Rusage) : List UInt8 :=
  UInt8.ofNat (usage.utime.word.toNat / 256 ^ 3) :: bigEndian 4 usage.stime.word.toNat

section Times

variable {rusagep : UInt32} {usage : Rusage} {m m' : Memory}

theorem writeUsage_iff (hp : rusagep ≠ 0) :
    writeUsage rusagep usage m = Except.ok m' ↔
      (∀ i < 5, Mapped (rusagep.toNat + i)) ∧ m' = write m rusagep.toNat (usageBytes usage) := by
  have hsecond : (∀ i < 4, Mapped (rusagep.toNat + i)) →
      (rusagep + 1).toNat = rusagep.toNat + 1 := by
    intro hmap
    have hlast := mapped_lt (hmap 3 (by omega))
    have hone : (1 : UInt32).toNat = 1 := rfl
    rw [uint32_add (by omega), hone]
  have hover : write (write m rusagep.toNat (bigEndian 4 usage.utime.word.toNat))
      (rusagep.toNat + 1) (bigEndian 4 usage.stime.word.toNat) =
      write m rusagep.toNat (usageBytes usage) :=
    write_over m rusagep.toNat [UInt8.ofNat (usage.utime.word.toNat / 256 ^ 3)]
      (k := bigEndian 3 usage.utime.word.toNat) (by simp)
  unfold writeUsage
  rw [if_neg hp]
  simp only [Run.bind_eq_ok, writeMemory32_eq_ok]
  constructor
  · rintro ⟨_, ⟨hmap, rfl⟩, hmap', rfl⟩
    rw [hsecond hmap] at hmap' ⊢
    exact ⟨(mapped_append _ 1 4).mpr ⟨fun i hi => hmap i (by omega), hmap'⟩, hover⟩
  · rintro ⟨hmap, rfl⟩
    have hfirst := ((mapped_append _ 4 1).mp hmap).1
    refine ⟨_, ⟨hfirst, rfl⟩, ?_⟩
    rw [hsecond hfirst, hover]
    exact ⟨((mapped_append _ 1 4).mp hmap).2, rfl⟩

/-- The two longwords that the stores leave. -/
theorem longAt_usage (m : Memory) (a : Nat) (usage : Rusage) :
    (longAt (write m a (usageBytes usage)) a).toNat =
        usage.utime.word.toNat / 2 ^ 24 * 2 ^ 24 + usage.stime.word.toNat / 2 ^ 8 ∧
      (longAt (write m a (usageBytes usage)) (a + 4)).toNat =
        usage.stime.word.toNat % 2 ^ 8 * 2 ^ 24 + (longAt m (a + 4)).toNat % 2 ^ 24 := by
  have hlen : (usageBytes usage).length = 5 := by
    rw [usageBytes, List.length_cons, bigEndian_length]
  have hat : ∀ i, (h : i < 5) → write m a (usageBytes usage) (a + i) = (usageBytes usage)[i] :=
    fun i h => write_inside m a (by omega)
  have hbehind : ∀ i, 1 ≤ i → write m a (usageBytes usage) (a + 4 + i) = m (a + 4 + i) :=
    fun i hi => write_outside m (by omega)
  have hu := usage.utime.word.toNat_lt
  have hw := usage.stime.word.toNat_lt
  have h0 := hat 0 (by omega)
  have h1 := hat 1 (by omega)
  have h2 := hat 2 (by omega)
  have h3 := hat 3 (by omega)
  have h4 := hat 4 (by omega)
  have hb1 := (m (a + 4 + 1)).toNat_lt
  have hb2 := (m (a + 4 + 2)).toNat_lt
  have hb3 := (m (a + 4 + 3)).toNat_lt
  rw [Nat.add_zero] at h0
  rw [longAt_toNat, longAt_toNat, longAt_toNat m, h0, h1, h2, h3, h4, hbehind 1 (by omega),
    hbehind 2 (by omega), hbehind 3 (by omega)]
  simp only [usageBytes, bigEndian, List.getElem_cons_zero, List.getElem_cons_succ,
    UInt8.toNat_ofNat']
  clear hat hbehind hlen h0 h1 h2 h3 h4
  constructor
  · omega
  · omega

/-- The times in milliseconds stand in the two longwords, and nothing else is changed. -/
structure TimesStored (rusagep : UInt32) (usage : Rusage) (m m' : Memory) : Prop where
  utime : readMemory32 rusagep m' = Except.ok usage.utime.ms
  stime : readMemory32 (rusagep + 4) m' = Except.ok usage.stime.ms
  kept : ∀ x, x < rusagep.toNat ∨ rusagep.toNat + 8 ≤ x → m' x = m x

/-- What the times, with the microseconds undivided, and the three bytes behind the stores have
    to agree on for the longwords to be right. -/
structure Coincide (rusagep : UInt32) (usage : Rusage) (m : Memory) : Prop where
  mapped : ∀ i < 8, Mapped (rusagep.toNat + i)
  first : usage.utime.word.toNat / 2 ^ 24 = usage.utime.ms.toNat / 2 ^ 24
  rest : usage.stime.word.toNat / 2 ^ 8 = usage.utime.ms.toNat % 2 ^ 24
  next : usage.stime.word.toNat % 2 ^ 8 = usage.stime.ms.toNat / 2 ^ 24
  behind : (longAt m (rusagep.toNat + 4)).toNat % 2 ^ 24 = usage.stime.ms.toNat % 2 ^ 24

instance (rusagep : UInt32) (usage : Rusage) (m : Memory) :
    Decidable (Coincide rusagep usage m) :=
  decidable_of_iff ((∀ i < 8, Mapped (rusagep.toNat + i)) ∧
      usage.utime.word.toNat / 2 ^ 24 = usage.utime.ms.toNat / 2 ^ 24 ∧
      usage.stime.word.toNat / 2 ^ 8 = usage.utime.ms.toNat % 2 ^ 24 ∧
      usage.stime.word.toNat % 2 ^ 8 = usage.stime.ms.toNat / 2 ^ 24 ∧
      (longAt m (rusagep.toNat + 4)).toNat % 2 ^ 24 = usage.stime.ms.toNat % 2 ^ 24)
    ⟨fun ⟨h0, h1, h2, h3, h4⟩ => ⟨h0, h1, h2, h3, h4⟩,
      fun ⟨h0, h1, h2, h3, h4⟩ => ⟨h0, h1, h2, h3, h4⟩⟩

theorem timesStored_iff (hmap : ∀ i < 5, Mapped (rusagep.toNat + i)) :
    TimesStored rusagep usage m (write m rusagep.toNat (usageBytes usage)) ↔
      Coincide rusagep usage m := by
  have hnext : (rusagep + 4).toNat = rusagep.toNat + 4 := by
    have hfour : (4 : UInt32).toNat = 4 := rfl
    have hlast := mapped_lt (hmap 4 (by omega))
    rw [uint32_add (by omega), hfour]
  obtain ⟨hfirst, hsecond⟩ := longAt_usage m rusagep.toNat usage
  have hu := usage.utime.ms.toNat_lt
  have hs := usage.stime.ms.toNat_lt
  have hword := usage.stime.word.toNat_lt
  constructor
  · rintro ⟨hutime, hstime, -⟩
    obtain ⟨-, hutime⟩ := readMemory32_eq_ok.mp hutime
    obtain ⟨hpages, hstime⟩ := readMemory32_eq_ok.mp hstime
    rw [hnext] at hpages hstime
    rw [← hutime] at hfirst
    rw [← hstime] at hsecond
    have hlongs := (mapped_append _ 4 4).mpr ⟨((mapped_append _ 4 1).mp hmap).1, hpages⟩
    exact ⟨hlongs, by omega, by omega, by omega, by omega⟩
  · rintro ⟨hpages, h1, h2, h3, h4⟩
    obtain ⟨hlong, hlong'⟩ := (mapped_append _ 4 4).mp hpages
    refine ⟨?_, ?_, ?_⟩
    · rw [readMemory32_eq_ok]
      refine ⟨hlong, UInt32.toNat_inj.mp ?_⟩
      omega
    · rw [readMemory32_eq_ok, hnext]
      refine ⟨hlong', UInt32.toNat_inj.mp ?_⟩
      omega
    · intro x hx
      apply write_outside
      rw [usageBytes, List.length_cons, bigEndian_length]
      omega

end Times

/-- A call that reports a child, and returns, stores its times. -/
def StoresTimes (wait4 : Int32 → UInt32 → Wait4) (pid flag : Int16) (rusagep : UInt32)
    (head : List PidMap) (m : Memory) : Prop :=
  ∀ childpid status usage,
    wait4 (waitTarget pid head) (waitOptions flag) = .reported childpid status usage →
    childpid ≠ 0 → rusagep ≠ 0 → ∀ ret head' m',
      (pwaitpidCall wait4 pid flag rusagep head m = Except.ok (ret, head', m') ∨
        pid = -1 ∧ pwait3 wait4 flag rusagep head m = Except.ok (ret, head', m')) →
      TimesStored rusagep usage m m'

theorem pwaitpidCall_reported {wait4 : Int32 → UInt32 → Wait4} {pid flag : Int16}
    {rusagep : UInt32} {head : List PidMap} {m : Memory} {childpid : Int32} {status : UInt32}
    {usage : Rusage}
    (hreply : wait4 (waitTarget pid head) (waitOptions flag) = .reported childpid status usage)
    (hp : rusagep ≠ 0) (hmap : ∀ i < 5, Mapped (rusagep.toNat + i)) :
    ∃ ret head', pwaitpidCall wait4 pid flag rusagep head m =
      Except.ok (ret, head', write m rusagep.toNat (usageBytes usage)) := by
  have hrun := (@writeUsage_iff rusagep usage m _ hp).mpr ⟨hmap, rfl⟩
  rw [pwaitpidCall, hreply, pwaitpid, hrun]
  exact ⟨_, _, rfl⟩

/-- `Pwaitpid` stores the times exactly where they coincide with what it does store. -/
theorem storesTimes_iff (wait4 : Int32 → UInt32 → Wait4) (pid flag : Int16) (rusagep : UInt32)
    (head : List PidMap) (m : Memory) :
    StoresTimes wait4 pid flag rusagep head m ↔ ∀ childpid status usage,
      wait4 (waitTarget pid head) (waitOptions flag) = .reported childpid status usage →
      childpid ≠ 0 → rusagep ≠ 0 → (∀ i < 5, Mapped (rusagep.toNat + i)) →
        Coincide rusagep usage m := by
  constructor
  · intro h childpid status usage hreply hchild hp hmap
    obtain ⟨ret, head', hrun⟩ := pwaitpidCall_reported (m := m) hreply hp hmap
    rw [← timesStored_iff hmap]
    exact h childpid status usage hreply hchild hp ret head' _ (Or.inl hrun)
  · intro h childpid status usage hreply hchild hp ret head' m' hcall
    have hrun : pwaitpidCall wait4 pid flag rusagep head m = Except.ok (ret, head', m') := by
      rcases hcall with hrun | ⟨rfl, hrun⟩
      · exact hrun
      · exact hrun
    rw [pwaitpidCall, hreply] at hrun
    obtain ⟨m₁, husage, hret⟩ := Run.bind_eq_ok.mp hrun
    obtain ⟨hmap, rfl⟩ := (writeUsage_iff hp).mp husage
    cases hret
    exact (timesStored_iff hmap).mpr (h childpid status usage hreply hchild hp hmap)

/-- A child that used two seconds and one second: the first longword is 3. -/
theorem storesTimes_seconds :
    ¬ StoresTimes (fun _ _ => .reported 100 0 ⟨⟨2, 0⟩, ⟨1, 0⟩⟩) 100 0 0x10000 []
      initM68KMemory := by
  intro h
  have hmap : ∀ i < 5, Mapped ((0x10000 : UInt32).toNat + i) := by decide
  obtain ⟨ret, head', hrun⟩ := @pwaitpidCall_reported
    (fun _ _ => .reported 100 0 ⟨⟨2, 0⟩, ⟨1, 0⟩⟩) 100 0 0x10000 [] initM68KMemory 100 0 _ rfl
    (by decide) hmap
  have hstored := h 100 0 _ rfl (by decide) (by decide) ret head' _ (Or.inl hrun)
  exact absurd ((timesStored_iff hmap).mp hstored) (by decide)

/-! ### No child has anything to report -/

/-- The host's numbers on the list are those of children. -/
def HostPids (s : System) : Prop := ∀ e ∈ s.head, e.hostPid ≠ 0

theorem HostPids.step {s s' : System} {call : Call} {r : Int32} (h : HostPids s)
    (hstep : Proc.step call s = Except.ok (r, s')) : HostPids s' := by
  cases call with
  | fork pid allocated =>
    by_cases hpid : 0 < pid
    · rw [step_fork hpid hstep]
      intro e he
      rcases mem_rememberPid.mp he with ⟨-, rfl⟩ | he
      · rintro rfl
        exact absurd hpid (by decide)
      · exact h e he
    · simp only [Proc.step, pfork, if_neg hpid] at hstep
      cases hstep
      exact h
  | waitpid pid flag rusagep reply =>
    obtain ⟨memory, hafter⟩ := step_waitpid hstep
    cases reply with
    | failed errno =>
      rw [hafter]
      exact h
    | reported childpid status usage =>
      obtain ⟨-, rfl⟩ := hafter
      intro e he
      apply h e
      simp only [System.report] at he
      split at he
      · exact forgetPidByHost_sublist.subset he
      · exact he

/-- No run puts anything else on it. -/
theorem hostPids_run {calls : List Call} {memory : Memory} {s : System}
    (hrun : Machine.run step calls (System.init memory) = Except.ok s) : HostPids s := by
  refine @Machine.run_keeps System Call Int32 step HostPids (fun _ _ => True) (fun _ => True) ?_
    calls (System.init memory) s ?_ (fun _ _ => trivial) (Machine.Meets.of_forall (by simp) _) hrun
  · intro s c r s' h _ _ hstep
    exact h.step hstep
  · simp [HostPids, System.init]

theorem mapHostPidToTos_of_absent {hostPid : Int32} {head : List PidMap}
    (h : ∀ e ∈ head, e.hostPid ≠ hostPid) : mapHostPidToTos hostPid head = hostPid.toInt16 := by
  induction head with
  | nil => rfl
  | cons e head ih =>
    rw [mapHostPidToTos, if_neg (h e (by simp))]
    exact ih fun e he => h e (by simp [he])

theorem forgetPidByHost_of_absent {hostPid : Int32} {head : List PidMap}
    (h : ∀ e ∈ head, e.hostPid ≠ hostPid) : forgetPidByHost hostPid head = head := by
  induction head with
  | nil => rfl
  | cons e head ih =>
    rw [forgetPidByHost, if_neg (h e (by simp)), ih fun e he => h e (by simp [he])]

/-- A status that passes for the one of a child that exited with 0, or for no status at all. -/
def Unremarkable (status : UInt32) : Prop :=
  if wifexited status then wexitstatus status = 0
  else wifsignaled status = false ∧ wifstopped status = false

instance (status : UInt32) : Decidable (Unremarkable status) :=
  inferInstanceAs (Decidable (if wifexited status then _ else _))

theorem wexitstatus_byte (status : UInt32) : wexitstatus status &&& 0xff = wexitstatus status := by
  have hmask : (0xff00 : UInt32) >>> 8 = 0xff := by decide
  rw [wexitstatus, UInt32.shiftRight_and, hmask, UInt32.and_assoc, UInt32.and_self]

/-- A signal shows in the result. -/
theorem signum_ne_zero {status : UInt32} (h : wtermsig status ≠ 0) :
    (wtermsig status <<< 8) &&& 0x7f00 ≠ 0 := by
  have hall : ∀ n < 128, n ≠ 0 → (UInt32.ofNat n <<< 8) &&& 0x7f00 ≠ 0 := by decide +kernel
  have hlt : (wtermsig status).toNat < 128 := by
    have hand : (wtermsig status).toNat = status.toNat % 2 ^ 7 := by
      rw [wtermsig, UInt32.toNat_and]
      exact Nat.and_two_pow_sub_one_eq_mod status.toNat 7
    omega
  have hbit := hall _ hlt fun hzero => h (UInt32.toNat_inj.mp hzero)
  rwa [UInt32.ofNat_toNat] at hbit

theorem waitResult_zero_iff (status : UInt32) : waitResult 0 status = 0 ↔ Unremarkable status := by
  have hword : ∀ a : UInt32, a.toInt32 = 0 ↔ a = 0 := by
    intro a
    constructor
    · intro h
      have hback := congrArg Int32.toUInt32 h
      rwa [UInt32.toUInt32_toInt32] at hback
    · rintro rfl
      rfl
  have hpid : (0 : Int16).toUInt16.toUInt32 <<< 16 = 0 := by decide
  unfold waitResult Unremarkable
  rw [hpid]
  cases hexited : wifexited status with
  | true =>
    have hmask : ((0 : UInt32) <<< 8) &&& 0x7f00 = 0 := by decide
    simp only [if_true, hword, UInt32.or_eq_zero_iff, wexitstatus_byte, hmask, true_and]
  | false =>
    have hsignal : wtermsig status ≠ 0 := by simpa [wifexited] using hexited
    have hresult := signum_ne_zero hsignal
    cases hsignaled : wifsignaled status with
    | true =>
      simp only [if_true, Bool.false_eq_true, if_false, hword, UInt32.or_eq_zero_iff, hresult,
        and_false, false_and, Bool.true_eq_false]
    | false =>
      have hmask : ((0 : UInt32) <<< 8) &&& 0x7f00 = 0 := by decide
      have hcode : (0x1f : UInt32) &&& 0xff ≠ 0 := by decide
      have hnone : (0 : UInt32) &&& 0xff = 0 := by decide
      cases hstopped : wifstopped status with
      | true =>
        simp only [if_true, Bool.false_eq_true, if_false, hword, UInt32.or_eq_zero_iff, hcode,
          and_false, Bool.true_eq_false]
      | false =>
        simp only [Bool.false_eq_true, if_false, hword, UInt32.or_eq_zero_iff, hmask, hnone,
          and_self]

/-- What a call does to which `wait4` reports nothing. -/
theorem nothing_reported_iff {calls : List Call} {memory : Memory} {s : System}
    (hrun : Machine.run step calls (System.init memory) = Except.ok s) (pid flag : Int16)
    (rusagep status : UInt32) (usage : Rusage) :
    pwaitpidCall (fun _ _ => .reported 0 status usage) pid flag rusagep s.head s.memory =
        Except.ok (0, s.head, s.memory) ↔
      Unremarkable status ∧ (rusagep ≠ 0 → (∀ i < 5, Mapped (rusagep.toNat + i)) ∧
        Shows s.memory rusagep.toNat (usageBytes usage)) := by
  have habsent := hostPids_run hrun
  have hpid : mapHostPidToTos 0 s.head = 0 := mapHostPidToTos_of_absent habsent
  have hforget := forgetPidByHost_of_absent habsent
  have husage : writeUsage rusagep usage s.memory = Except.ok s.memory ↔
      (rusagep ≠ 0 → (∀ i < 5, Mapped (rusagep.toNat + i)) ∧
        Shows s.memory rusagep.toNat (usageBytes usage)) := by
    by_cases hp : rusagep = 0
    · simp [writeUsage, hp]
    · rw [writeUsage_iff hp, eq_comm, write_eq_self_iff]
      exact ⟨fun h _ => h, fun h => h hp⟩
  rw [← waitResult_zero_iff, ← husage, pwaitpidCall, pwaitpid]
  simp only [hpid, hforget, ite_self]
  constructor
  · intro h
    obtain ⟨m, hm, hret⟩ := Run.bind_eq_ok.mp h
    have hret := Run.ok_inj.mp hret
    have hresult : waitResult 0 status = 0 := congrArg Prod.fst hret
    have hmemory : m = s.memory := congrArg (fun r => r.2.2) hret
    rw [hmemory] at hm
    exact ⟨hresult, hm⟩
  · rintro ⟨hresult, hm⟩
    rw [hm, Run.ok_bind, hresult]
    rfl

theorem nothing_reported_zero :
    pwaitpidCall (fun _ _ => .reported 0 0 ⟨⟨0, 0⟩, ⟨0, 0⟩⟩) (-1) 1 0x10000 [⟨100, 100⟩]
        initM68KMemory = Except.ok (0, [⟨100, 100⟩], initM68KMemory) ↔
      Unremarkable 0 ∧ ((0x10000 : UInt32) ≠ 0 → (∀ i < 5, Mapped ((0x10000 : UInt32).toNat + i)) ∧
        Shows initM68KMemory (0x10000 : UInt32).toNat (usageBytes ⟨⟨0, 0⟩, ⟨0, 0⟩⟩)) :=
  @nothing_reported_iff [.fork 100 true] initM68KMemory
    ⟨[⟨100, 100⟩], initM68KMemory, [⟨100, 100⟩], []⟩ rfl (-1) 1 0x10000 0 ⟨⟨0, 0⟩, ⟨0, 0⟩⟩

/-- Where the variable holds the status of a child that exited with 1, the result says so; where
    it holds zero, the result is zero. -/
theorem nothing_reported_stale :
    pwaitpidCall (fun _ _ => .reported 0 0x100 ⟨⟨0, 0⟩, ⟨0, 0⟩⟩) (-1) 1 0 [] initM68KMemory =
        Except.ok (1, [], initM68KMemory) ∧
      pwaitpidCall (fun _ _ => .reported 0 0 ⟨⟨0, 0⟩, ⟨0, 0⟩⟩) (-1) 1 0 [] initM68KMemory =
        Except.ok (0, [], initM68KMemory) :=
  ⟨rfl, rfl⟩

end ParaTos.Proc
