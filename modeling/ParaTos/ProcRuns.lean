/-
  ParaTos/ProcRuns.lean
  =====================
  **A parent and its children.**

  The system is the state of `gemdos/proc.c` beside what the host knows: the children
  that nobody has reaped.  For the statements it also remembers which number `Pfork`
  returned for each of them, and what `Pwaitpid` returned when it reported one.

  The host promises that `fork` gives no number twice while the first child is not
  reaped, and that `wait4` reports a child, the one it was asked for if it was asked
  for one.  Whether the numbers of GEMDOS identify the children then depends on the
  low halves of the host's numbers alone.
-/
import ParaTos.Machine
import ParaTos.Proc

namespace ParaTos.Proc

/-! ### The system -/

/-- A child, and the number that `Pfork` returned for it. -/
structure Child where
  host : Int32
  returned : Int16
deriving DecidableEq, Repr

structure System where
  head : List PidMap
  memory : Memory
  children : List Child
  reports : List (Child × Int32)

/-- A call of the parent, with the host's answer to it. -/
inductive Call where
  | fork (pid : Int32) (allocated : Bool)
  | waitpid (pid flag : Int16) (rusagep : UInt32) (reply : Wait4)
deriving DecidableEq, Repr

/-- No call has been made yet. -/
def System.init (memory : Memory) : System := ⟨[], memory, [], []⟩

/-- A child that `wait4` reported with this status is gone. -/
def reaped (status : UInt32) : Bool := wifexited status || wifsignaled status

/-- `wait4` reported `childpid`, and `Pwaitpid` returned `ret`. -/
def System.report (childpid : Int32) (status : UInt32) (ret : Int32) (s : System) : System :=
  { s with
    children :=
      if reaped status then s.children.filter fun c => c.host ≠ childpid else s.children
    reports := (s.children.filter fun c => c.host = childpid).map (fun c => (c, ret)) ++ s.reports }

def step : Call → System → Run (Int32 × System)
  | .fork pid allocated, s =>
    let (ret, head) := pfork pid allocated s.head
    let children := if 0 < pid then ⟨pid, ret⟩ :: s.children else s.children
    Except.ok (ret.toInt32, { s with head, children })
  | .waitpid _ _ rusagep reply, s => do
    let (ret, head, memory) ← pwaitpid rusagep reply s.head s.memory
    match reply with
    | .failed _ => return (ret, { s with head, memory })
    | .reported childpid status _ =>
      return (ret, { s with head, memory }.report childpid status ret)

/-- What the host promises. -/
def Promised (s : System) : Call → Prop
  | .fork pid _ => pid = -1 ∨ 0 < pid ∧ ∀ c ∈ s.children, c.host ≠ pid
  | .waitpid _ _ _ (.failed _) => True
  | .waitpid pid flag _ (.reported childpid _ _) =>
    childpid = 0 ∧ waitOptions flag &&& wnohang ≠ 0 ∨
      (∃ c ∈ s.children, c.host = childpid) ∧
        (0 < waitTarget pid s.head → childpid = waitTarget pid s.head)

/-- The numbers of GEMDOS identify the children. -/
structure Identifies (s : System) : Prop where
  positive : ∀ c ∈ s.children, 0 < c.returned
  distinct : (s.children.map Child.returned).Nodup
  waits : ∀ c ∈ s.children, waitTarget c.returned s.head = c.host
  reports : ∀ r ∈ s.reports, highWord r.2 = r.1.returned

/-- The low half of the child's number is positive and taken by no other child, and it is
    the whole number or the pair can be remembered. -/
def Fits (s : System) : Call → Prop
  | .fork pid allocated => 0 < pid → 0 < pid.toInt16 ∧
      (∀ c ∈ s.children, c.host.toInt16 ≠ pid.toInt16) ∧
      (allocated = true ∨ pid.toInt16.toInt32 = pid)
  | .waitpid .. => True

/-! ### The invariant -/

/-- The list remembers children only, each once, and those it does not remember have
    numbers that need no entry. -/
structure Remembers (s : System) : Prop where
  returned : ∀ c ∈ s.children, c.returned = c.host.toInt16
  hosts : (s.children.map Child.host).Nodup
  hostPositive : ∀ c ∈ s.children, 0 < c.host
  low : ∀ e ∈ s.head, e.tosPid = e.hostPid.toInt16
  children : ∀ e ∈ s.head, ∃ c ∈ s.children, c.host = e.hostPid
  once : (s.head.map PidMap.hostPid).Nodup
  known : ∀ c ∈ s.children, ⟨c.returned, c.host⟩ ∈ s.head ∨ c.returned.toInt32 = c.host
  positive : ∀ c ∈ s.children, 0 < c.returned
  distinct : (s.children.map Child.returned).Nodup
  reports : ∀ r ∈ s.reports, highWord r.2 = r.1.returned

/-- A number that no child has is on no entry. -/
theorem entry_absent {s : System} (hlow : ∀ e ∈ s.head, e.tosPid = e.hostPid.toInt16)
    (hchildren : ∀ e ∈ s.head, ∃ c ∈ s.children, c.host = e.hostPid) {t : Int16}
    (ht : ∀ c ∈ s.children, c.host.toInt16 ≠ t) : ∀ e ∈ s.head, e.tosPid ≠ t := by
  intro e he heq
  obtain ⟨c, hc, hhost⟩ := hchildren e he
  rw [hlow e he, ← hhost] at heq
  exact ht c hc heq

theorem Remembers.waits {s : System} (h : Remembers s) {c : Child} (hc : c ∈ s.children) :
    waitTarget c.returned s.head = c.host := by
  have hpos := h.positive c hc
  have hne : c.returned ≠ -1 := by
    intro heq
    rw [heq] at hpos
    exact absurd hpos (by decide)
  -- an entry with the number of the child is the entry of the child
  have hunique : ∀ e ∈ s.head, e.tosPid = c.returned → e.hostPid = c.host := by
    intro e he heq
    obtain ⟨d, hd, hhost⟩ := h.children e he
    have hsame : d.returned = c.returned := by
      rw [h.returned d hd, hhost, ← h.low e he, heq]
    rw [← hhost, List.inj_on_of_nodup_map h.distinct hd hc hsame]
  unfold waitTarget
  rw [if_pos hne]
  by_cases hentry : ∃ e ∈ s.head, e.tosPid = c.returned
  · obtain ⟨e, he, heq⟩ := hentry
    have hhost := hunique e he heq
    apply mapTosPidToHost_of_mem _ hunique
    rw [← heq, ← hhost]
    exact he
  · have habsent : ∀ e ∈ s.head, e.tosPid ≠ c.returned := fun e he heq => hentry ⟨e, he, heq⟩
    rw [mapTosPidToHost_of_absent habsent]
    rcases h.known c hc with hmem | hwhole
    · exact absurd rfl (habsent _ hmem)
    · exact hwhole

theorem Remembers.identifies {s : System} (h : Remembers s) : Identifies s where
  positive := h.positive
  distinct := h.distinct
  waits := fun _ hc => h.waits hc
  reports := h.reports

theorem init_remembers (memory : Memory) : Remembers (System.init memory) := by
  constructor <;> simp [System.init]

/-! ### Pfork -/

/-- A call of `fork` that fails changes nothing. -/
theorem step_fork_failed {s s' : System} {allocated : Bool} {r : Int32}
    (h : step (.fork (-1) allocated) s = Except.ok (r, s')) : s' = s := by
  have hneg : ¬ (0 : Int32) < -1 := by decide
  simp only [step, pfork, if_neg hneg] at h
  cases h
  rfl

theorem step_fork {s s' : System} {pid r : Int32} {allocated : Bool} (hpid : 0 < pid)
    (h : step (.fork pid allocated) s = Except.ok (r, s')) :
    s' = { s with
      head := rememberPid pid allocated s.head
      children := ⟨pid, pid.toInt16⟩ :: s.children } := by
  simp only [step, pfork, if_pos hpid] at h
  cases h
  rfl

theorem mem_rememberPid {pid : Int32} {allocated : Bool} {head : List PidMap} {e : PidMap} :
    e ∈ rememberPid pid allocated head ↔
      allocated = true ∧ e = ⟨pid.toInt16, pid⟩ ∨ e ∈ head := by
  unfold rememberPid
  cases allocated <;> simp

theorem Remembers.fork {s : System} (h : Remembers s) {pid : Int32} {allocated : Bool}
    (hpid : 0 < pid) (hfresh : ∀ c ∈ s.children, c.host ≠ pid)
    (hfits : Fits s (.fork pid allocated)) :
    Remembers { s with
      head := rememberPid pid allocated s.head
      children := ⟨pid, pid.toInt16⟩ :: s.children } := by
  obtain ⟨hlow, hother, hknown⟩ := hfits hpid
  constructor
  · exact List.forall_mem_cons.mpr ⟨rfl, h.returned⟩
  · rw [List.map_cons, List.nodup_cons]
    refine ⟨?_, h.hosts⟩
    intro hmem
    obtain ⟨c, hc, heq⟩ := List.mem_map.mp hmem
    exact hfresh c hc heq
  · exact List.forall_mem_cons.mpr ⟨hpid, h.hostPositive⟩
  · intro e he
    rcases mem_rememberPid.mp he with ⟨-, rfl⟩ | he
    · rfl
    · exact h.low e he
  · intro e he
    rcases mem_rememberPid.mp he with ⟨-, rfl⟩ | he
    · exact ⟨⟨pid, pid.toInt16⟩, by simp, rfl⟩
    · obtain ⟨c, hc, heq⟩ := h.children e he
      exact ⟨c, List.mem_cons_of_mem _ hc, heq⟩
  · unfold rememberPid
    cases allocated with
    | false => exact h.once
    | true =>
      refine List.nodup_cons.mpr ⟨?_, h.once⟩
      intro hmem
      obtain ⟨e, he, heq⟩ := List.mem_map.mp hmem
      obtain ⟨c, hc, hhost⟩ := h.children e he
      exact hfresh c hc (hhost.trans heq)
  · intro c hc
    rcases List.mem_cons.mp hc with rfl | hc
    · rcases hknown with hallocated | hwhole
      · exact Or.inl (mem_rememberPid.mpr (Or.inl ⟨hallocated, rfl⟩))
      · exact Or.inr hwhole
    · exact (h.known c hc).imp_left fun hmem => mem_rememberPid.mpr (Or.inr hmem)
  · exact List.forall_mem_cons.mpr ⟨hlow, h.positive⟩
  · rw [List.map_cons, List.nodup_cons]
    refine ⟨?_, h.distinct⟩
    intro hmem
    obtain ⟨c, hc, heq⟩ := List.mem_map.mp hmem
    rw [h.returned c hc] at heq
    exact hother c hc heq
  · exact h.reports

/-- A child that does not fit is not identified. -/
theorem Remembers.fork_fits {s : System} (h : Remembers s) {pid : Int32} {allocated : Bool}
    (hafter : Identifies { s with
      head := rememberPid pid allocated s.head
      children := ⟨pid, pid.toInt16⟩ :: s.children }) : Fits s (.fork pid allocated) := by
  intro hpid
  have hpositive : 0 < pid.toInt16 := hafter.positive ⟨pid, pid.toInt16⟩ (by simp)
  have hother : ∀ c ∈ s.children, c.host.toInt16 ≠ pid.toInt16 := by
    intro c hc heq
    have hmem : c.returned ∈ s.children.map Child.returned := List.mem_map_of_mem hc
    rw [h.returned c hc, heq] at hmem
    exact (List.nodup_cons.mp hafter.distinct).1 hmem
  refine ⟨hpositive, hother, ?_⟩
  cases allocated with
  | true => exact Or.inl rfl
  | false =>
    right
    have hwaits := hafter.waits ⟨pid, pid.toInt16⟩ (by simp)
    have hne : pid.toInt16 ≠ -1 := by
      intro heq
      rw [heq] at hpositive
      exact absurd hpositive (by decide)
    have habsent := entry_absent h.low h.children hother
    unfold waitTarget at hwaits
    rw [if_pos hne] at hwaits
    exact (mapTosPidToHost_of_absent habsent).symm.trans hwaits

/-! ### Pwaitpid -/

/-- Memory and the pid map after a call that returns. -/
theorem step_waitpid {s s' : System} {pid flag : Int16} {rusagep : UInt32} {reply : Wait4}
    {r : Int32} (h : step (.waitpid pid flag rusagep reply) s = Except.ok (r, s')) :
    ∃ memory, match reply with
      | .failed _ => s' = { s with memory }
      | .reported childpid status _ =>
        r = waitResult (mapHostPidToTos childpid s.head) status ∧
        s' = System.report childpid status r { s with
          memory
          head := if reaped status then forgetPidByHost childpid s.head else s.head } := by
  cases reply with
  | failed errno =>
    cases h
    exact ⟨s.memory, rfl⟩
  | reported childpid status usage =>
    obtain ⟨⟨ret, head, memory⟩, hcall, hreport⟩ := Run.bind_eq_ok.mp h
    obtain ⟨m, -, hret⟩ := Run.bind_eq_ok.mp hcall
    cases hret
    cases hreport
    exact ⟨memory, rfl, rfl⟩

/-- The children that are left after a report, and their entries. -/
theorem Remembers.left {s : System} (h : Remembers s) {childpid : Int32} {status : UInt32} :
    (if reaped status then s.children.filter fun c => c.host ≠ childpid else s.children).Sublist
        s.children ∧
      (if reaped status then forgetPidByHost childpid s.head else s.head).Sublist s.head ∧
      ∀ c ∈ s.children, ∀ e ∈ s.head, c.host = e.hostPid →
        (c ∈ (if reaped status then s.children.filter fun c => c.host ≠ childpid
            else s.children) ↔
          e ∈ (if reaped status then forgetPidByHost childpid s.head else s.head)) := by
  by_cases hreaped : reaped status = true
  · rw [if_pos hreaped, if_pos hreaped]
    refine ⟨List.filter_sublist, forgetPidByHost_sublist, ?_⟩
    intro c hc e he heq
    rw [List.mem_filter]
    constructor
    · rintro ⟨-, hne⟩
      rw [decide_eq_true_iff, heq] at hne
      exact mem_forgetPidByHost he hne
    · intro hmem
      have hne := forgetPidByHost_ne h.once e hmem
      rw [← heq] at hne
      exact ⟨hc, decide_eq_true hne⟩
  · rw [if_neg hreaped, if_neg hreaped]
    exact ⟨List.Sublist.refl _, List.Sublist.refl _, fun c hc e he _ => ⟨fun _ => he, fun _ => hc⟩⟩

theorem Remembers.report {s : System} (h : Remembers s) {childpid : Int32} {status : UInt32}
    (memory : Memory) :
    Remembers (System.report childpid status
      (waitResult (mapHostPidToTos childpid s.head) status) { s with
        memory
        head := if reaped status then forgetPidByHost childpid s.head else s.head }) := by
  obtain ⟨hchildren, hhead, hboth⟩ := @Remembers.left s h childpid status
  unfold System.report
  dsimp only
  generalize (if reaped status then s.children.filter fun c => c.host ≠ childpid
    else s.children) = children at hchildren hboth ⊢
  generalize (if reaped status then forgetPidByHost childpid s.head else s.head) = head
    at hhead hboth ⊢
  constructor
  · exact fun c hc => h.returned c (hchildren.subset hc)
  · exact h.hosts.sublist (hchildren.map _)
  · exact fun c hc => h.hostPositive c (hchildren.subset hc)
  · exact fun e he => h.low e (hhead.subset he)
  · intro e he
    obtain ⟨c, hc, heq⟩ := h.children e (hhead.subset he)
    exact ⟨c, (hboth c hc e (hhead.subset he) heq).mpr he, heq⟩
  · exact h.once.sublist (hhead.map _)
  · intro c hc
    rcases h.known c (hchildren.subset hc) with hmem | hwhole
    · exact Or.inl ((hboth c (hchildren.subset hc) _ hmem rfl).mp hc)
    · exact Or.inr hwhole
  · exact fun c hc => h.positive c (hchildren.subset hc)
  · exact h.distinct.sublist (hchildren.map _)
  · intro r hr
    rcases List.mem_append.mp hr with hr | hr
    · obtain ⟨c, hc, rfl⟩ := List.mem_map.mp hr
      obtain ⟨hc, hhost⟩ := List.mem_filter.mp hc
      rw [decide_eq_true_iff] at hhost
      rw [highWord_waitResult, mapHostPidToTos_eq h.low, ← hhost, h.returned c hc]
    · exact h.reports r hr

/-! ### Runs -/

theorem Remembers.step {s s' : System} {call : Call} {r : Int32} (h : Remembers s)
    (hpromised : Promised s call) (hfits : Fits s call)
    (hstep : Proc.step call s = Except.ok (r, s')) : Remembers s' := by
  cases call with
  | fork pid allocated =>
    rcases hpromised with rfl | ⟨hpid, hfresh⟩
    · rw [step_fork_failed hstep]
      exact h
    · rw [step_fork hpid hstep]
      exact h.fork hpid hfresh hfits
  | waitpid pid flag rusagep reply =>
    obtain ⟨memory, hafter⟩ := step_waitpid hstep
    cases reply with
    | failed errno =>
      rw [hafter]
      obtain ⟨h1, h2, h3, h4, h5, h6, h7, h8, h9, h10⟩ := h
      exact ⟨h1, h2, h3, h4, h5, h6, h7, h8, h9, h10⟩
    | reported childpid status usage =>
      obtain ⟨rfl, rfl⟩ := hafter
      exact h.report memory

/-- **The numbers of GEMDOS identify the children all along a run exactly when every
    child fits.** -/
theorem pids_identify_iff (memory : Memory) (calls : List Call) {t : System}
    (hrun : Machine.run step calls (System.init memory) = Except.ok t)
    (hpromised : Machine.Meets step Promised calls (System.init memory)) :
    Machine.Holds step Identifies calls (System.init memory) ↔
      Machine.Meets step Fits calls (System.init memory) := by
  apply Machine.holds_iff_meets (fun _ h => h.identifies) _ _ calls (init_remembers memory) hrun
    hpromised
  · intro s call r s' h hpromised hfits hstep
    exact h.step hpromised hfits hstep
  · intro s call r s' h hpromised hfits hstep hafter
    apply hfits
    cases call with
    | fork pid allocated =>
      intro hpid
      rw [step_fork hpid hstep] at hafter
      exact h.fork_fits hafter hpid
    | waitpid pid flag rusagep reply => trivial

/-- Two children with small numbers, one of which exits with 7. -/
def sampleCalls : List Call :=
  [.fork 100 true, .fork 200 true,
    .waitpid 100 0 0 (.reported 100 0x700 ⟨⟨0, 0⟩, ⟨0, 0⟩⟩)]

theorem pids_identify_small :
    Machine.Holds step Identifies sampleCalls (System.init Memory.initM68KMemory) := by
  refine (pids_identify_iff Memory.initM68KMemory sampleCalls (t := _) rfl ?_).mpr ?_
  · refine ⟨Or.inr ⟨by decide, by simp [System.init]⟩, ?_⟩
    intro r s' h
    cases h
    refine ⟨Or.inr ⟨by decide, by decide⟩, ?_⟩
    intro r s' h
    cases h
    exact ⟨Or.inr ⟨⟨⟨100, 100⟩, by decide, by decide⟩, by decide⟩, fun _ _ _ => trivial⟩
  · refine ⟨by intro _; simp [System.init], ?_⟩
    intro r s' h
    cases h
    refine ⟨by intro _; decide, ?_⟩
    intro r s' h
    cases h
    exact ⟨trivial, fun _ _ _ => trivial⟩

/-- A child whose number is 40000 is returned as a negative number. -/
theorem pid_negative :
    Machine.Meets step Promised [.fork 40000 true] (System.init Memory.initM68KMemory) ∧
      ¬ Machine.Holds step Identifies [.fork 40000 true]
        (System.init Memory.initM68KMemory) := by
  constructor
  · exact ⟨Or.inr ⟨by decide, by simp [System.init]⟩, fun _ _ _ => trivial⟩
  · rintro ⟨-, r, s', h, hafter⟩
    cases h
    have hpositive := hafter.start.positive ⟨40000, -25536⟩ (by decide)
    exact absurd hpositive (by decide)

end ParaTos.Proc
