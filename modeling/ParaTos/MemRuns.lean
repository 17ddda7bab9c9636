/-
  ParaTos/MemRuns.lean
  ====================
  **Runs of the memory manager.**

  A run starts where the emulator leaves the memory manager before it loads a
  program: after `InitMemory` and the `Malloc(0x800)` of `InitCookieJar`.  From
  there it is any list of calls, with any 32-bit arguments.

  Every run returns, since every call does in a state that represents two lists
  (`step_refines`), and the rover is on the free list after every call.
-/
import ParaTos.MemRefine

namespace ParaTos.Mem

open LinkedList Words

/-! ### Reading the lists back -/

theorem walk_chain {heap : Heap Ptr Extent} :
    ∀ (l : List Block) {p : Option Ptr} (rounds : Nat), Chain heap p l → l.length < rounds →
      walk heap rounds p = Except.ok l := by
  intro l
  induction l with
  | nil =>
    intro p rounds hc hr
    obtain ⟨k, rfl⟩ : ∃ k, rounds = k + 1 := ⟨rounds - 1, by omega⟩
    cases seg_nil.mp hc
    rfl
  | cons c l ih =>
    intro p rounds hc hr
    obtain ⟨k, rfl⟩ : ∃ k, rounds = k + 1 := ⟨rounds - 1, by omega⟩
    obtain ⟨rfl, n, hn, ht⟩ := hc
    have hlen : l.length < k := by
      simpa using hr
    simp [walk, load_some hn, ih k ht hlen]

/-- Both lists, as a reader of the two chains sees them. -/
def State.lists (s : State) : Run Lists := do
  let free ← s.freeList
  let used ← s.usedList
  return ⟨free, used⟩

/-- The lists that a state represents are the ones a reader sees. -/
theorem Rep.read {s : State} {L : Lists} (hr : Rep s L) : s.lists = Except.ok L := by
  obtain ⟨hfree, hfreeChain⟩ := hr.links.freeMem
  obtain ⟨hused, husedChain⟩ := hr.links.usedMem
  have hlen := hr.links.length_le
  have hwalkFree := walk_chain L.free (s.fresh + 1) hfreeChain (by omega)
  have hwalkUsed := walk_chain L.used (s.fresh + 1) husedChain (by omega)
  simp [State.lists, State.freeList, State.usedList, load_some hfree, load_some hused,
    hwalkFree, hwalkUsed]

theorem Rep.exists_lists {s : State} {L : Lists} (hr : Rep s L) {P : Lists → Prop} :
    (∃ L', s.lists = Except.ok L' ∧ P L') ↔ P L := by
  constructor
  · rintro ⟨L', hread, h⟩
    rw [hr.read] at hread
    cases hread
    exact h
  · intro h
    exact ⟨L, hr.read, h⟩

/-! ### The start of every run -/

/-- The lists after the first `Malloc(0x800)`. -/
def bootLists : Lists where
  free := [(.node 1, ⟨0x10800, 0xfef800⟩)]
  used := [(.node 0, ⟨0x10000, 0x800⟩)]

theorem boot_rep : ∃ s, malloc 0x800 initMemory = Except.ok (0x10000, s) ∧ Rep s bootLists := by
  refine ⟨_, rfl, ?_⟩
  constructor
  · constructor
    · exact ⟨rfl, _, rfl, rfl, _, rfl, rfl⟩
    · exact ⟨rfl, _, rfl, rfl, _, rfl, rfl⟩
    · decide
    · intro p hp
      simp only [bootLists, addrs_cons, addrs_nil, List.cons_append,
        List.nil_append, List.mem_cons, List.not_mem_nil, or_false] at hp
      rcases hp with rfl | rfl
      · exact ⟨1, by decide, rfl⟩
      · exact ⟨0, by decide, rfl⟩
  · change RoverOn (some (Ptr.node 1)) bootLists.free
    simp [RoverOn, bootLists]

theorem boot_rep_of {s : State} {a : UInt32} (h : malloc 0x800 initMemory = Except.ok (a, s)) :
    Rep s bootLists := by
  obtain ⟨s', hs', hr⟩ := boot_rep
  rw [hs'] at h
  cases h
  exact hr

/-- `LoadExe` gives the program all there is, and then nothing is left. -/
theorem load_exhausts : ∃ s₀ s, malloc 0x800 initMemory = Except.ok (0x10000, s₀) ∧
    malloc 0xfef800 s₀ = Except.ok (0x10800, s) ∧ ∀ n, malloc n s = Except.ok (0, s) :=
  ⟨_, _, rfl, rfl, fun _ => rfl⟩

/-! ### The rover -/

/-- The rover is `NULL` exactly when the free list is empty, and otherwise points to
    a live node of it. -/
structure RoverValid (s : State) (L : Lists) : Prop where
  null : s.rover = none ↔ L.free = []
  onFree : ∀ p, s.rover = some p → p ∈ addrs L.free
  notHeader : s.rover ≠ some .freeMem ∧ s.rover ≠ some .usedMem
  notUsed : ∀ p, s.rover = some p → p ∉ addrs L.used
  live : ∀ p, s.rover = some p → s.heap p ≠ none

theorem Rep.roverValid {s : State} {L : Lists} (hr : Rep s L) : RoverValid s L := by
  have hon : ∀ p, s.rover = some p → p ∈ addrs L.free := by
    intro p hp
    have hrover := hr.rover
    rw [hp] at hrover
    exact hrover
  have hall : ∀ p, s.rover = some p → p ∈ addrs (L.free ++ L.used) := by
    intro p hp
    rw [addrs_append]
    exact List.mem_append_left _ (hon p hp)
  constructor
  · constructor
    · intro h
      have hrover := hr.rover
      rw [h] at hrover
      exact hrover
    · intro h
      cases hcase : s.rover with
      | none => rfl
      | some p =>
        have hmem := hon p hcase
        rw [h] at hmem
        simp at hmem
  · exact hon
  · constructor
    · intro h
      exact hr.links.notMem_freeMem (hall _ h)
    · intro h
      exact hr.links.notMem_usedMem (hall _ h)
  · intro p hp hmem
    have hnodup := hr.links.nodup
    rw [addrs_append, List.nodup_append] at hnodup
    exact hnodup.2.2 p (hon p hp) p hmem rfl
  · intro p hp
    obtain ⟨c, hc, rfl⟩ := List.mem_map.mp (hon p hp)
    obtain ⟨-, hchain⟩ := hr.links.freeMem
    obtain ⟨n, hn⟩ := Seg.mem hchain hc
    rw [hn]
    exact Option.some_ne_none _

/-- **After every run the rover is valid.**  No call faults or fails to return, whatever
    its arguments. -/
theorem rover_valid : ∃ s₀, malloc 0x800 initMemory = Except.ok (0x10000, s₀) ∧
    ∀ calls : List Call, ∃ s L,
      Machine.run step calls s₀ = Except.ok s ∧ s.lists = Except.ok L ∧ RoverValid s L := by
  obtain ⟨s₀, hboot, hr₀⟩ := boot_rep
  refine ⟨s₀, hboot, ?_⟩
  intro calls
  obtain ⟨s, L, hrun, hr, -⟩ := @Machine.Refines.run_invariant _ _ _ _ _ _ _ (fun _ => True)
    (fun _ _ => True) step_refines (fun _ _ _ _ _ _ _ _ _ => trivial) calls _ _ hr₀ trivial
    (Machine.Meets.of_forall (fun _ _ _ => trivial) s₀)
  exact ⟨s, L, hrun, hr.read, hr.roverValid⟩

end ParaTos.Mem
