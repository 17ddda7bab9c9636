/-
  ParaTos/MemNames.lean
  =====================
  **The addresses a guest holds.**

  A guest keeps the address that `Malloc` gave it and names the block by it ever
  after.  Beside the memory manager, the machine of this module keeps what each
  address was returned for: the node that `Malloc` put on the used list.  `Mfree`
  and an `Mshrink` to nothing end an address.

  Runs start at `InitMemory`, where the rover is the header of the free list.  A
  `Malloc` that finds no block there searches for ever, since the search never
  comes back to the header, and no state is reached.
-/
import ParaTos.MemStarts

namespace ParaTos.Mem

open LinkedList Words Tiling

/-! ### The guest -/

/-- The memory manager, and the addresses the guest holds, each with the node of the
    block it was returned for, the latest first. -/
structure Guest where
  mem : State
  held : List (UInt32 × Ptr)

/-- The address that a call gives back when it succeeds. -/
def Call.givesBack : Call → Option UInt32
  | .malloc _ => none
  | .mfree block => some block
  | .mshrink block newsiz => if newsiz = 0 then some block else none

/-- The node in front of the used list. -/
def State.newest (s : State) : Option Ptr := (s.heap .usedMem).bind fun header => header.next

/-- What the guest holds after a call that left the state `s`. -/
def remember (c : Call) (r : Reply) (s : State) (held : List (UInt32 × Ptr)) :
    List (UInt32 × Ptr) :=
  match r with
  | .address a => if a = 0 then held else (s.newest.map fun p => (a, p)).toList ++ held
  | .status r =>
    match c.givesBack with
    | some block => if r = tosEOk then held.filter (fun h => h.1 ≠ block) else held
    | none => held

/-- One call of the guest. -/
def Guest.call (c : Call) (g : Guest) : Run (Reply × Guest) := do
  let (r, s) ← step c g.mem
  return (r, ⟨s, remember c r s g.held⟩)

/-- Before the first call. -/
def Guest.start : Guest := ⟨initMemory, []⟩

/-! ### What an address names -/

/-- The address `a` names the block at node `p` and no other used block, and `Mfree` and
    `Mshrink` act on that block and on no other used one. -/
structure Names (s : State) (used : List Block) (a : UInt32) (p : Ptr) : Prop where
  live : ∃ c ∈ used, c.1 = p ∧ c.2.start = a
  only : ∀ c ∈ used, c.2.start = a → c.1 = p
  freed : ∃ s' L', mfree a s = Except.ok (tosEOk, s') ∧ s'.lists = Except.ok L' ∧
    L'.used = used.filter fun c => c.1 ≠ p
  shrunk : ∀ newsiz, ∃ r s' L', mshrink a newsiz s = Except.ok (r, s') ∧
    s'.lists = Except.ok L' ∧
    L'.used = if newsiz = 0 then used.filter (fun c => c.1 ≠ p)
      else used.map fun c =>
        if c.1 = p ∧ roundUp4 newsiz ≤ c.2.size then headPart c (roundUp4 newsiz) else c

/-- No two used blocks start at one address, and the addresses that the guest holds are
    those of the used blocks, each naming the block it was returned for. -/
structure Named (g : Guest) (L : Lists) : Prop where
  starts : (L.used.map fun c => c.2.start).Nodup
  held : g.held = L.used.map fun c => (c.2.start, c.1)
  names : ∀ h ∈ g.held, Names g.mem L.used h.1 h.2

/-- The lists of the state, in which every address names its block. -/
def AddressesNameBlocks (g : Guest) : Prop := ∃ L, g.mem.lists = Except.ok L ∧ Named g L

/-! ### The first call -/

/-- The lists that `InitMemory` sets up. -/
def initLists : Lists := ⟨[(.node 0, firstExtent)], []⟩

theorem init_links : Links initMemory initLists where
  free := ⟨rfl, _, rfl, rfl, _, rfl, rfl⟩
  used := ⟨rfl, _, rfl, rfl⟩
  nodup := by decide
  nodes := by
    intro p hp
    simp only [initLists, addrs_cons, addrs_nil, List.append_nil, List.mem_singleton] at hp
    exact ⟨0, by decide, hp⟩

/-- The first `Malloc` returns only if the one free block is large enough. -/
theorem malloc_first {size : Int32} {a : UInt32} {s : State} (hsize : size ≠ -1)
    (h : malloc size initMemory = Except.ok (a, s)) :
    ∃ L, Step initLists (.malloc size) (.address a) L ∧ Rep s L := by
  have hrun : malloc size initMemory = (mallocLoop initMemory (roundUp4 size) 3 .freeMem
      (some (.node 0)) 0 >>= afterSearch initMemory (roundUp4 size)) := by
    simp only [malloc, if_neg hsize]
    rfl
  have hne := roundUp4_ne_neg_one size
  have hround : ∀ rounds prev max, mallocLoop initMemory (roundUp4 size) (rounds + 1) prev
      (some (.node 0)) max = if roundUp4 size ≤ firstExtent.size
        then Except.ok (.found prev (.node 0))
        else mallocLoop initMemory (roundUp4 size) rounds (.node 0) none max := by
    intro rounds prev max
    have hblock : load initMemory.heap (some (.node 0)) = Except.ok ⟨none, firstExtent⟩ := rfl
    have hrover : initMemory.rover = some .freeMem := rfl
    simp [mallocLoop, wrapAround, hblock, hne, hrover]
  have hwrap : ∀ rounds max, mallocLoop initMemory (roundUp4 size) (rounds + 1) (.node 0) none max =
      mallocLoop initMemory (roundUp4 size) (rounds + 1) .freeMem (some (.node 0)) max := by
    intro rounds max
    rfl
  by_cases hfit : roundUp4 size ≤ firstExtent.size
  · obtain ⟨s', L', htake, hr', hcases⟩ :=
      @takeBlock_spec initMemory [] [] [] (.node 0, firstExtent) (roundUp4 size) init_links
    rw [hrun, hround, if_pos hfit] at h
    have hsame : takeBlock initMemory (roundUp4 size) .freeMem (.node 0) =
        Except.ok (firstExtent.start, s') := htake
    rw [Run.ok_bind] at h
    simp only [afterSearch, hsame, Run.ok_inj, Prod.mk.injEq] at h
    obtain ⟨rfl, rfl⟩ := h
    refine ⟨L', ?_, hr'⟩
    rcases hcases with ⟨hexact, rfl⟩ | ⟨hexact, rfl⟩
    · exact @Step.exactFit [] [] [] (.node 0, firstExtent) size hsize hexact
    · exact @Step.split [] [] [] (.node 0, firstExtent) size _ hsize hfit hexact
  · -- every round comes back to the same block, and never to the header
    rw [hrun, hround, if_neg hfit, hwrap, hround, if_neg hfit, hwrap, hround, if_neg hfit] at h
    cases h

/-- A state that a run reaches represents two lists, or is still the first one. -/
def Represents (s : State) (L : Lists) : Prop := Rep s L ∨ s = initMemory ∧ L = initLists

theorem Represents.links {s : State} {L : Lists} (h : Represents s L) : Links s L := by
  rcases h with hr | ⟨rfl, rfl⟩
  · exact hr.links
  · exact init_links

theorem Represents.read {s : State} {L : Lists} (h : Represents s L) :
    s.lists = Except.ok L := by
  rcases h with hr | ⟨rfl, rfl⟩
  · exact hr.read
  · rfl

/-- A call that returns does what the list machine does. -/
theorem Represents.step {s s' : State} {L : Lists} {c : Call} {r : Reply} (h : Represents s L)
    (hnat : Natural c) (hstep : step c s = Except.ok (r, s')) :
    ∃ L', Step L c r L' ∧ Represents s' L' := by
  rcases h with hr | ⟨rfl, rfl⟩
  · obtain ⟨r₁, s₁, L', hstep₁, hst, hr'⟩ := step_refines s L hr c
    rw [hstep] at hstep₁
    cases hstep₁
    exact ⟨L', hst, Or.inl hr'⟩
  have hsame : Represents initMemory initLists := Or.inr ⟨rfl, rfl⟩
  have hfree : ∀ block, mfree block initMemory = Except.ok (tosEimba, initMemory) :=
    fun _ => rfl
  cases c with
  | malloc size =>
    have hnonneg : 0 ≤ size.toInt := hnat
    have hsize : size ≠ -1 := by
      rintro rfl
      exact absurd hnonneg (by decide)
    obtain ⟨⟨a, s₁⟩, hcall, hrest⟩ := Run.bind_eq_ok.mp hstep
    cases hrest
    obtain ⟨L', hst, hr'⟩ := malloc_first hsize hcall
    exact ⟨L', hst, Or.inl hr'⟩
  | mfree block =>
    simp only [Mem.step, hfree, Run.ok_bind] at hstep
    cases hstep
    exact ⟨initLists, Step.freeUnknown (by simp [initLists]), hsame⟩
  | mshrink block newsiz =>
    have hshrink : mshrink block newsiz initMemory = Except.ok (tosEimba, initMemory) := by
      by_cases hzero : newsiz = 0
      · rw [mshrink, if_pos hzero]
        exact hfree block
      · rw [mshrink, if_neg hzero]
        rfl
    simp only [Mem.step, hshrink, Run.ok_bind] at hstep
    cases hstep
    refine ⟨initLists, ?_, hsame⟩
    by_cases hzero : newsiz = 0
    · rw [hzero]
      exact Step.shrinkToNothing (Step.freeUnknown (by simp [initLists]))
    · exact Step.shrinkUnknown hzero (by simp [initLists])

theorem initLists_settled : Settled initLists where
  laid := tiles_singleton (by decide)
  closed := by
    intro e he
    have hstart : firstExtent.start ≠ e := by
      rintro rfl
      exact absurd he (by decide)
    have hend : ending (.node 0, firstExtent) ≠ e := by
      rintro rfl
      exact absurd he (by decide)
    simp [initLists, hstart, hend]
  spare := by
    intro c hc
    rw [List.mem_singleton.mp hc]
    exact Or.inl (by decide)
  inUse := by
    intro c hc
    exact absurd hc List.not_mem_nil

/-! ### What Mfree and Mshrink act on -/

section Acting

variable {s : State} {L : Lists} {c : Block}

/-- With distinct start addresses, the first used block at an address is the only one. -/
theorem only_at {pre post : List Block} {d : Block} (hsplit : L.used = pre ++ d :: post)
    (hstarts : (L.used.map fun c => c.2.start).Nodup) (hc : c ∈ L.used)
    (hd : d.2.start = c.2.start) : d = c :=
  List.inj_on_of_nodup_map hstarts (by simp [hsplit]) hc hd

theorem filter_node {pre post : List Block} (hnodup : (addrs (pre ++ c :: post)).Nodup) :
    (pre ++ c :: post).filter (fun d => d.1 ≠ c.1) = pre ++ post := by
  have hother := (nodup_middle.mp hnodup).1
  have hkeep : ∀ d ∈ pre ++ post, decide (d.1 ≠ c.1) = true := by
    intro d hd
    simp only [decide_eq_true_eq]
    intro heq
    exact hother (by rw [← heq]; exact List.mem_map_of_mem hd)
  simp only [List.filter_append, List.filter_cons]
  rw [← List.filter_eq_self.mpr hkeep, List.filter_append]
  simp

theorem map_node {pre post : List Block} (hnodup : (addrs (pre ++ c :: post)).Nodup)
    {f : Block → Block} (hf : ∀ d ∈ pre ++ post, d.1 ≠ c.1 → f d = d) :
    (pre ++ c :: post).map f = pre ++ f c :: post := by
  have hother := (nodup_middle.mp hnodup).1
  have hkeep : ∀ d ∈ pre ++ post, f d = d := by
    intro d hd
    apply hf d hd
    intro heq
    exact hother (by rw [← heq]; exact List.mem_map_of_mem hd)
  have hpre : pre.map f = pre := by
    rw [List.map_congr_left (fun d hd => hkeep d (by simp [hd])), List.map_id']
  have hpost : post.map f = post := by
    rw [List.map_congr_left (fun d hd => hkeep d (by simp [hd])), List.map_id']
  rw [List.map_append, List.map_cons, hpre, hpost]

theorem Rep.used_nodup (hr : Rep s L) : (addrs L.used).Nodup := by
  have hnodup := hr.links.nodup
  rw [addrs_append, List.nodup_append] at hnodup
  exact hnodup.2.1

/-- `Mfree` of a used block takes that block off the used list. -/
theorem mfree_acts (hr : Rep s L) (hstarts : (L.used.map fun c => c.2.start).Nodup)
    (hc : c ∈ L.used) : ∃ s' L', mfree c.2.start s = Except.ok (tosEOk, s') ∧
      s'.lists = Except.ok L' ∧ L'.used = L.used.filter fun d => d.1 ≠ c.1 := by
  obtain ⟨r, s', L', hrun, hst, hr'⟩ := mfree_spec hr c.2.start
  cases hst with
  | freeUnknown hnone => exact absurd rfl (hnone c hc)
  | @free pre post free free' d block hpre hd hins =>
    obtain rfl : d = c := only_at rfl hstarts hc hd
    exact ⟨s', _, hrun, hr'.read, (filter_node hr.used_nodup).symm⟩

/-- `Mshrink` of a used block cuts that block, if it is long enough. -/
theorem mshrink_acts (hr : Rep s L) (hstarts : (L.used.map fun c => c.2.start).Nodup)
    (hc : c ∈ L.used) {newsiz : Int32} (hne : newsiz ≠ 0) :
    ∃ r s' L', mshrink c.2.start newsiz s = Except.ok (r, s') ∧ s'.lists = Except.ok L' ∧
      L'.used = L.used.map fun d =>
        if d.1 = c.1 ∧ roundUp4 newsiz ≤ d.2.size then headPart d (roundUp4 newsiz) else d := by
  obtain ⟨r, s', L', hrun, hst, hr'⟩ := mshrink_spec hr c.2.start newsiz
  refine ⟨r, s', L', hrun, hr'.read, ?_⟩
  cases hst with
  | shrinkToNothing _ => exact absurd rfl hne
  | shrinkUnknown _ hnone => exact absurd rfl (hnone c hc)
  | @shrinkTooLarge free pre post d block newsiz _ hpre hd hlt =>
    obtain rfl : d = c := only_at rfl hstarts hc hd
    rw [map_node hr.used_nodup]
    · rw [if_neg fun h => Int32.not_le.mpr hlt h.2]
    · intro e _ he
      rw [if_neg fun h => he h.1]
  | @shrink free free' pre post d block newsiz p _ hpre hd hle hins =>
    obtain rfl : d = c := only_at rfl hstarts hc hd
    rw [map_node hr.used_nodup]
    · rw [if_pos ⟨rfl, hle⟩]
    · intro e _ he
      rw [if_neg fun h => he h.1]

theorem names_of_starts (hr : Rep s L) (hstarts : (L.used.map fun c => c.2.start).Nodup)
    (hc : c ∈ L.used) : Names s L.used c.2.start c.1 where
  live := ⟨c, hc, rfl, rfl⟩
  only := by
    intro d hd heq
    rw [List.inj_on_of_nodup_map hstarts hd hc heq]
  freed := mfree_acts hr hstarts hc
  shrunk := by
    intro newsiz
    by_cases hzero : newsiz = 0
    · obtain ⟨s', L', hrun, hread, hused⟩ := mfree_acts hr hstarts hc
      refine ⟨tosEOk, s', L', ?_, hread, ?_⟩
      · rw [mshrink, if_pos hzero]
        exact hrun
      · rw [if_pos hzero]
        exact hused
    · simp only [if_neg hzero]
      exact mshrink_acts hr hstarts hc hzero

end Acting

/-! ### Runs -/

/-- What every call of the guest keeps. -/
structure GuestInv (g : Guest) (L : Lists) : Prop where
  represents : Represents g.mem L
  settled : Settled L
  held : g.held = L.used.map fun c => (c.2.start, c.1)

theorem GuestInv.named {g : Guest} {L : Lists} (h : GuestInv g L) : Named g L where
  starts := h.settled.starts
  held := h.held
  names := by
    intro k hk
    rw [h.held] at hk
    obtain ⟨c, hc, rfl⟩ := List.mem_map.mp hk
    rcases h.represents with hr | ⟨-, rfl⟩
    · exact names_of_starts hr h.settled.starts hc
    · exact absurd hc List.not_mem_nil

/-- The node that `Malloc` has put on the used list. -/
theorem Represents.newest {s : State} {free used : List Block} {c : Block}
    (h : Represents s ⟨free, c :: used⟩) : s.newest = some c.1 := by
  obtain ⟨hheader, -⟩ := h.links.usedMem
  simp [State.newest, hheader]

/-- Giving a block back ends its address, and no other. -/
theorem held_filter {pre post : List Block} {c : Block}
    (hstarts : ((pre ++ c :: post).map fun c => c.2.start).Nodup) :
    ((pre ++ c :: post).map fun d => (d.2.start, d.1)).filter (fun h => h.1 ≠ c.2.start) =
      (pre ++ post).map fun d => (d.2.start, d.1) := by
  have hother : ∀ d ∈ pre ++ post, decide (d.2.start ≠ c.2.start) = true := by
    intro d hd
    rw [List.map_append, List.map_cons, List.nodup_middle, List.nodup_cons, ← List.map_append]
      at hstarts
    simp only [decide_eq_true_eq]
    intro heq
    exact hstarts.1 (by rw [← heq]; exact List.mem_map_of_mem hd)
  have hkeep : (pre ++ post).filter (fun d => d.2.start ≠ c.2.start) = pre ++ post :=
    List.filter_eq_self.mpr hother
  rw [List.filter_map]
  congr 1
  simp only [List.filter_append, List.filter_cons] at hkeep ⊢
  simpa [Function.comp_def] using hkeep

/-- What the guest remembers is what is on the used list. -/
theorem remember_spec {s' : State} {L L' : Lists} {c : Call} {r : Reply} (hst : Step L c r L')
    (hnat : Natural c) (hset : Settled L) (hset' : Settled L') (hr' : Represents s' L') :
    remember c r s' (L.used.map fun c => (c.2.start, c.1)) =
      L'.used.map fun c => (c.2.start, c.1) := by
  induction hst with
  | largest hr => exact absurd hnat (by decide)
  | outOfMemory hsize hnone => rfl
  | @exactFit pre post used c size hsize hfit =>
    have hne : c.2.start ≠ 0 := hset'.start_ne_zero (by simp)
    simp [remember, hne, hr'.newest]
  | @split pre post used c size p hsize hfit hne' =>
    have hne : c.2.start ≠ 0 :=
      @Settled.start_ne_zero _ hset' (headPart c (roundUp4 size)) (by simp)
    simp only [remember, if_neg hne, hr'.newest]
    rfl
  | freeUnknown hnone => rfl
  | @free pre post free free' c block hpre hc hins =>
    have hfilter := held_filter hset.starts
    rw [hc] at hfilter
    exact hfilter
  | shrinkToNothing _ ih => exact ih trivial hset hset' hr'
  | shrinkUnknown hsiz hnone => simp [remember, Call.givesBack, hsiz]
  | shrinkTooLarge hsiz hpre hc hlt => simp [remember, Call.givesBack, hsiz]
  | shrink p hsiz hpre hc hle hins => simp [remember, Call.givesBack, hsiz, headPart]

/-- Every `Malloc` of the guest hands out at least one byte, or finds no block. -/
def HandsOutBytes (g : Guest) : Call → Prop
  | .malloc size => AtLeastOne size ∨
      ∃ L, g.mem.lists = Except.ok L ∧ ∀ c ∈ L.free, ¬ roundUp4 size ≤ c.2.size
  | _ => True

theorem HandsOutBytes.advancing {g : Guest} {L : Lists} {c : Call} (h : HandsOutBytes g c)
    (hread : g.mem.lists = Except.ok L) : Advancing L c := by
  cases c with
  | malloc size =>
    rcases h with h | ⟨L₁, hread₁, hnone⟩
    · exact Or.inl h
    · rw [hread] at hread₁
      cases hread₁
      exact Or.inr hnone
  | mfree block => trivial
  | mshrink block newsiz => trivial

/-- One call of the guest keeps the invariant. -/
theorem GuestInv.call {g g' : Guest} {L : Lists} {c : Call} {r : Reply} (h : GuestInv g L)
    (hnat : Natural c) (hbytes : HandsOutBytes g c) (hcall : g.call c = Except.ok (r, g')) :
    ∃ L', GuestInv g' L' := by
  obtain ⟨⟨r₁, s'⟩, hstep, hrest⟩ := Run.bind_eq_ok.mp hcall
  cases hrest
  obtain ⟨L', hst, hr'⟩ := h.represents.step hnat hstep
  have hset' : Settled L' := h.settled.step hst hnat (hbytes.advancing h.represents.read)
  refine ⟨L', hr', hset', ?_⟩
  simp only [h.held]
  exact remember_spec hst hnat h.settled hset' hr'

/-- **Addresses name blocks.**  As long as every `Malloc` hands out at least one byte, every
    state that a run of the guest reaches has its used blocks at distinct addresses, and
    what a held address names is the block it was returned for. -/
theorem addresses_name_blocks (calls : List Call) (hnat : ∀ c ∈ calls, Natural c)
    (hbytes : Machine.Meets Guest.call HandsOutBytes calls Guest.start) (g : Guest)
    (hrun : Machine.run Guest.call calls Guest.start = Except.ok g) : AddressesNameBlocks g := by
  have hstart : GuestInv Guest.start initLists := ⟨Or.inr ⟨rfl, rfl⟩, initLists_settled, rfl⟩
  obtain ⟨L, hinv⟩ := @Machine.run_keeps _ _ _ Guest.call (fun g => ∃ L, GuestInv g L)
    HandsOutBytes Natural (fun _ _ _ _ ⟨_, hinv⟩ hnat hbytes hcall => hinv.call hnat hbytes hcall)
    calls _ _ ⟨_, hstart⟩ hnat hbytes hrun
  exact ⟨L, hinv.represents.read, hinv.named⟩

/-- A run in which a block is shrunk to `-2^31`, and its address is still its own. -/
theorem addresses_name_blocks_shrunk : ∃ g, Machine.run Guest.call
    [.malloc 0x800, .malloc 8, .mshrink 0x10000 0x7fffffff, .malloc 4, .mfree 0x10800]
    Guest.start = Except.ok g ∧ AddressesNameBlocks g := by
  refine ⟨_, rfl, addresses_name_blocks
    [.malloc 0x800, .malloc 8, .mshrink 0x10000 0x7fffffff, .malloc 4, .mfree 0x10800]
    (by decide) ?_ _ rfl⟩
  exact ⟨Or.inl (by decide), fun _ _ _ => ⟨Or.inl (by decide), fun _ _ _ => ⟨trivial,
    fun _ _ _ => ⟨Or.inl (by decide), fun _ _ _ => ⟨trivial, fun _ _ _ => trivial⟩⟩⟩⟩⟩

/-- After `Malloc(0)` and `Malloc(4)` two used blocks start at `0x10000`, and the guest
    holds that address twice. -/
theorem malloc_zero_twice : ∃ g L, Machine.run Guest.call [.malloc 0, .malloc 4] Guest.start =
    Except.ok g ∧ (∀ c ∈ [Call.malloc 0, Call.malloc 4], Natural c) ∧
    g.held = [(0x10000, .node 1), (0x10000, .node 0)] ∧ g.mem.lists = Except.ok L ∧
    L.used = [(.node 1, ⟨0x10000, 4⟩), (.node 0, ⟨0x10000, 0⟩)] ∧ ¬ AddressesNameBlocks g := by
  refine ⟨_, _, rfl, by decide, rfl, rfl, rfl, ?_⟩
  rintro ⟨L, hread, hnamed⟩
  have hstarts := hnamed.starts
  cases hread
  exact absurd hstarts (by decide)

end ParaTos.Mem
