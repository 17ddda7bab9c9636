/-
  ParaTos/MemRefine.lean
  ======================
  **The pointer code refines the list machine.**

  One specification for each call, and from them `step_refines`: in a state that
  represents two lists, with the rover on the free list, every call returns (no
  fault, no endless loop), takes a step of the list machine, and leaves the rover
  on the free list.

  The search of `Malloc` starts behind the rover and wraps around.  It meets the
  blocks behind the rover, then those in front of it, and the rover's own block
  last; the lemmas about it follow these two legs.
-/
import ParaTos.Machine
import ParaTos.MemLists

namespace ParaTos.Mem

open LinkedList Words

/-! ### Mfree and Mshrink -/

/-- The search of `Mfree` and `Mshrink` through the used list. -/
theorem Rep.usedLoop {s : State} {L : Lists} (hr : Rep s L) (block : UInt32) :
    ∃ p, s.heap .usedMem = some ⟨p, headerExtent⟩ ∧
      ((∀ c ∈ L.used, c.2.start ≠ block) ∧
          Mem.usedLoop s.heap block (s.fresh + 1) .usedMem p = Except.ok none ∨
        ∃ pre c post, L.used = pre ++ c :: post ∧ (∀ d ∈ pre, d.2.start ≠ block) ∧
          c.2.start = block ∧
          Mem.usedLoop s.heap block (s.fresh + 1) .usedMem p =
            Except.ok (some (lastAddr .usedMem pre, c.1))) := by
  obtain ⟨hm, hused⟩ := hr.links.usedMem
  have hlen := hr.links.length_le
  exact ⟨_, hm, usedLoop_spec block L.used .usedMem (s.fresh + 1) hused (by omega)⟩

theorem mfree_spec {s : State} {L : Lists} (hr : Rep s L) (block : UInt32) :
    ∃ r s' L', mfree block s = Except.ok (r, s') ∧ Step L (.mfree block) (.status r) L' ∧
      Rep s' L' := by
  obtain ⟨free, used⟩ := L
  obtain ⟨_, hm, ⟨hnone, hloop⟩ | ⟨pre, c, post, rfl, hpre, hc, hloop⟩⟩ := hr.usedLoop block
  · refine ⟨tosEimba, s, ⟨free, used⟩, ?_, Step.freeUnknown hnone, hr⟩
    simp [mfree, load_some hm, hloop]
  · obtain ⟨hnode, h, hh, hlinks, hdet⟩ := unlink_used hr.links
    have hrep : Rep ⟨h, s.rover, s.fresh⟩ ⟨free, pre ++ post⟩ := ⟨hlinks, hr.rover⟩
    obtain ⟨s', free', hrun, hins, hrep'⟩ := freeBlock_spec hrep hdet
    refine ⟨tosEOk, s', ⟨free', pre ++ post⟩, ?_, Step.free hpre hc hins, hrep'⟩
    simp [mfree, load_some hm, hloop, load_some hnode, hh, hrun]

/-- An address at which no used block starts. -/
theorem mfree_unknown {s : State} {L : Lists} (hr : Rep s L) {block : UInt32}
    (hnone : ∀ c ∈ L.used, c.2.start ≠ block) :
    mfree block s = Except.ok (tosEimba, s) := by
  obtain ⟨_, hm, ⟨-, hloop⟩ | ⟨pre, c, post, hsplit, -, hc, -⟩⟩ := hr.usedLoop block
  · simp [mfree, load_some hm, hloop]
  · exact absurd hc (hnone c (by simp [hsplit]))

/-- An address at which one starts. -/
theorem mfree_known {s : State} {L : Lists} (hr : Rep s L) {c : Block} (hc : c ∈ L.used) :
    ∃ s' L', mfree c.2.start s = Except.ok (tosEOk, s') ∧ Rep s' L' := by
  obtain ⟨r, s', L', hrun, hst, hr'⟩ := mfree_spec hr c.2.start
  cases hst with
  | freeUnknown hnone => exact absurd rfl (hnone c hc)
  | free hpre hstart hins => exact ⟨s', _, hrun, hr'⟩

/-- Cutting a used block in place, with the part behind it in a new node. -/
theorem cut_used {s : State} {free pre post : List Block} {c : Block} (n : Int32)
    (hl : Links s ⟨free, pre ++ c :: post⟩) :
    ∃ m h, s.heap c.1 = some ⟨m, c.2⟩ ∧
      storeVal (Function.update s.heap (Ptr.node s.fresh)
        (some ⟨none, (tailPart (Ptr.node s.fresh) c n).2⟩)) c.1 (headPart c n).2 =
        Except.ok h ∧
      Links ⟨h, s.rover, s.fresh + 1⟩ ⟨free, pre ++ headPart c n :: post⟩ ∧
      Detached ⟨h, s.rover, s.fresh + 1⟩ ⟨free, pre ++ headPart c n :: post⟩
        (tailPart (Ptr.node s.fresh) c n) := by
  have hused : Chain s.heap (some .usedMem) ((usedHeader :: pre) ++ (c.1, c.2) :: post) := hl.used
  obtain ⟨m, hm, hpost⟩ := hused.lookup
  have hnew := hl.notMem_new
  have hsame : addrs (free ++ (pre ++ headPart c n :: post)) =
      addrs (free ++ (pre ++ c :: post)) := by
    simp [headPart]
  have hc_new : c.1 ≠ Ptr.node s.fresh := by
    intro h
    exact hnew (by simp [h])
  simp only [addrs_append, addrs_cons, List.mem_append, List.mem_cons, not_or] at hnew
  let heap := Function.update s.heap (Ptr.node s.fresh)
    (some ⟨none, (tailPart (Ptr.node s.fresh) c n).2⟩)
  have hm' : heap c.1 = some ⟨m, c.2⟩ := by
    rw [← hm]
    exact Function.update_of_ne hc_new _ _
  have hmid := notMem_around hl.nodup_used
  refine ⟨m, _, hm, storeVal_eq hm' _, ⟨?_, ?_, ?_, ?_⟩, ⟨⟨none, ?_⟩, ?_, ?_⟩⟩
  · have hold : Chain heap (some .freeMem) (freeHeader :: free) := by
      refine hl.free.update_of_notMem ?_ _
      simp only [addrs_cons, List.mem_cons, not_or]
      exact ⟨Ptr.noConfusion, hnew.1⟩
    refine hold.update_of_notMem ?_ _
    intro hmem
    refine hl.apart hmem ?_
    simp
  · have hold : Chain heap (some .usedMem) ((usedHeader :: pre) ++ (c.1, c.2) :: post) := by
      refine hused.update_of_notMem ?_ _
      simp only [addrs_append, addrs_cons, List.mem_append, List.mem_cons, not_or]
      exact ⟨⟨Ptr.noConfusion, hnew.2.1⟩, hnew.2.2.1, hnew.2.2.2⟩
    have hpost' : Chain heap m post := hpost.update_of_notMem hnew.2.2.2 _
    exact Chain.relink hold hpost' hmid.1 hmid.2 _
  · rw [hsame]
    exact hl.nodup
  · rw [hsame]
    intro p hp
    obtain ⟨k, hk, rfl⟩ := hl.nodes p hp
    exact ⟨k, Nat.lt_succ_of_lt hk, rfl⟩
  · change Function.update heap c.1 _ (Ptr.node s.fresh) = _
    rw [Function.update_of_ne (Ne.symm hc_new)]
    exact Function.update_self _ _ _
  · rw [hsame]
    exact hl.notMem_new
  · exact ⟨s.fresh, Nat.lt_succ_self _, rfl⟩

theorem mshrink_spec {s : State} {L : Lists} (hr : Rep s L) (block : UInt32) (newsiz : Int32) :
    ∃ r s' L', mshrink block newsiz s = Except.ok (r, s') ∧
      Step L (.mshrink block newsiz) (.status r) L' ∧ Rep s' L' := by
  by_cases hzero : newsiz = 0
  · obtain ⟨r, s', L', hrun, hstep, hrep⟩ := mfree_spec hr block
    refine ⟨r, s', L', ?_, ?_, hrep⟩
    · rw [mshrink, if_pos hzero]
      exact hrun
    · rw [hzero]
      exact Step.shrinkToNothing hstep
  obtain ⟨free, used⟩ := L
  obtain ⟨_, hm, ⟨hnone, hloop⟩ | ⟨pre, c, post, rfl, hpre, hc, hloop⟩⟩ := hr.usedLoop block
  · refine ⟨tosEimba, s, ⟨free, used⟩, ?_, Step.shrinkUnknown hzero hnone, hr⟩
    simp [mshrink, hzero, load_some hm, hloop]
  · obtain ⟨m, h, hnode, hh, hlinks, hdet⟩ := cut_used (roundUp4 newsiz) hr.links
    by_cases hlt : c.2.size < roundUp4 newsiz
    · refine ⟨tosEgsbf, s, ⟨free, pre ++ c :: post⟩, ?_,
        Step.shrinkTooLarge hzero hpre hc hlt, hr⟩
      simp [mshrink, hzero, load_some hm, hloop, load_some hnode, hlt]
    · have hrep : Rep ⟨h, s.rover, s.fresh + 1⟩
          ⟨free, pre ++ headPart c (roundUp4 newsiz) :: post⟩ := ⟨hlinks, hr.rover⟩
      obtain ⟨s', free', hrun, hins, hrep'⟩ := freeBlock_spec hrep hdet
      refine ⟨roundUp4 newsiz, s', _, ?_,
        Step.shrink (Ptr.node s.fresh) hzero hpre hc (Int32.not_lt.mp hlt) hins, hrep'⟩
      simp only [mshrink, if_neg hzero, load_some hm, Run.ok_bind, hloop, load_some hnode,
        if_neg hlt]
      change (storeVal _ c.1 (headPart c (roundUp4 newsiz)).2 >>= fun heap =>
        freeBlock (Ptr.node s.fresh) ⟨heap, s.rover, s.fresh + 1⟩ >>= _) = _
      rw [show (⟨none, ⟨c.2.start + (roundUp4 newsiz).toUInt32, c.2.size - roundUp4 newsiz⟩⟩ :
        Memblock) = ⟨none, (tailPart (Ptr.node s.fresh) c (roundUp4 newsiz)).2⟩ from rfl, hh,
        Run.ok_bind]
      have hrun' : freeBlock (Ptr.node s.fresh) ⟨h, s.rover, s.fresh + 1⟩ = Except.ok s' := hrun
      rw [hrun']
      rfl

/-! ### What Malloc does with the block it found -/

/-- Cutting a free block: the rest stays on the free list in a new node. -/
theorem cut_free {s : State} {used pre post : List Block} {c : Block} (n : Int32)
    (hl : Links s ⟨pre ++ c :: post, used⟩) :
    ∃ h₁ h₂, storeNext s.heap (lastAddr .freeMem pre) (some (Ptr.node s.fresh)) = Except.ok h₁ ∧
      storeVal (Function.update h₁ (Ptr.node s.fresh)
        (some ⟨headPtr post, (tailPart (Ptr.node s.fresh) c n).2⟩)) c.1 (headPart c n).2 =
        Except.ok h₂ ∧
      Links ⟨h₂, s.rover, s.fresh + 1⟩ ⟨pre ++ tailPart (Ptr.node s.fresh) c n :: post, used⟩ ∧
      Detached ⟨h₂, s.rover, s.fresh + 1⟩
        ⟨pre ++ tailPart (Ptr.node s.fresh) c n :: post, used⟩ (headPart c n) := by
  have hfree : Chain s.heap (some .freeMem) ((freeHeader :: pre) ++ c :: post) := hl.free
  obtain ⟨m, hm, -⟩ := hfree.lookup
  have hnew := hl.notMem_new
  have hc_new : c.1 ≠ Ptr.node s.fresh := by
    intro h
    exact hnew (by simp [h])
  simp only [addrs_append, addrs_cons, List.mem_append, List.mem_cons, not_or] at hnew
  have hnot : Ptr.node s.fresh ∉ addrs (freeHeader :: (pre ++ c :: post)) := by
    simp only [addrs_append, addrs_cons, List.mem_append, List.mem_cons, not_or]
    exact ⟨Ptr.noConfusion, hnew.1⟩
  obtain ⟨h₁, hh₁, hchain, hframe⟩ :=
    @Chain.replace _ _ _ _ _ _ _ _ (tailPart (Ptr.node s.fresh) c n) hl.free hl.nodup_free hnot
  -- the block itself is off the list now, and keeps the front of its range
  have hperm : (pre ++ c :: post ++ used).Perm (c :: (pre ++ post ++ used)) := by
    simp
  obtain ⟨hc_rest, hrest, hnodes, k, hk, hck⟩ := @Links.remove _ _ ⟨pre ++ post, used⟩ c hl hperm
  simp only [addrs_append, List.mem_append, not_or] at hc_rest hnodes
  have hc_front : c.1 ∉ addrs (freeHeader :: pre) := by
    rw [addrs_cons, List.mem_cons, not_or]
    refine ⟨?_, hc_rest.1.1⟩
    rw [hck]
    exact Ptr.noConfusion
  have hc_chain : c.1 ∉ addrs (freeHeader :: (pre ++ tailPart (Ptr.node s.fresh) c n :: post)) := by
    have hsplit : addrs (freeHeader :: (pre ++ tailPart (Ptr.node s.fresh) c n :: post)) =
        addrs (freeHeader :: pre) ++ Ptr.node s.fresh :: addrs post := by simp [tailPart]
    rw [hsplit, List.mem_append, List.mem_cons, not_or, not_or]
    exact ⟨hc_front, hc_new, hc_rest.1.2⟩
  have hm' : Function.update h₁ (Ptr.node s.fresh)
      (some ⟨headPtr post, (tailPart (Ptr.node s.fresh) c n).2⟩) c.1 = some ⟨m, c.2⟩ := by
    rw [Function.update_of_ne hc_new, hframe c.1 hc_front, hm]
  refine ⟨h₁, _, hh₁, storeVal_eq hm' _, ⟨?_, ?_, ?_, ?_⟩, ⟨⟨m, ?_⟩, ?_, ?_⟩⟩
  · exact hchain.update_of_notMem hc_chain _
  · have hused : Chain h₁ (some .usedMem) (usedHeader :: used) := hl.used_frame hframe
    have hnew_used : Ptr.node s.fresh ∉ addrs (usedHeader :: used) := by
      rw [addrs_cons, List.mem_cons, not_or]
      exact ⟨Ptr.noConfusion, hnew.2⟩
    have hc_used : c.1 ∉ addrs (usedHeader :: used) := by
      refine hl.apart ?_
      simp
    exact (hused.update_of_notMem hnew_used _).update_of_notMem hc_used _
  · have hshape : pre ++ tailPart (Ptr.node s.fresh) c n :: post ++ used =
        pre ++ tailPart (Ptr.node s.fresh) c n :: (post ++ used) := by simp
    rw [hshape]
    refine nodup_middle.mpr ⟨?_, by simpa using hrest⟩
    simp only [addrs_append, List.mem_append, not_or]
    exact ⟨hnew.1.1, hnew.1.2.2, hnew.2⟩
  · intro p hp
    simp only [addrs_append, addrs_cons, List.mem_append, List.mem_cons] at hp
    by_cases hpt : p = Ptr.node s.fresh
    · exact ⟨s.fresh, Nat.lt_succ_self _, hpt⟩
    · have hmem : (p ∈ addrs pre ∨ p ∈ addrs post) ∨ p ∈ addrs used := by
        simp only [tailPart] at hp
        tauto
      obtain ⟨j, hj, hpj⟩ := hnodes p hmem
      exact ⟨j, Nat.lt_succ_of_lt hj, hpj⟩
  · exact Function.update_self _ _ _
  · rw [addrs_append, List.mem_append, not_or]
    exact ⟨fun h => hc_chain (List.mem_cons_of_mem _ h), hc_rest.2⟩
  · exact ⟨k, Nat.lt_succ_of_lt hk, hck⟩

/-- Where `Malloc` leaves the rover is on the free list again. -/
theorem roverOn_takeBlock (pre free : List Block) (hpre : ∀ p ∈ addrs pre, p ∈ addrs free) :
    RoverOn (if lastAddr .freeMem pre = .freeMem then headPtr free
      else some (lastAddr .freeMem pre)) free := by
  have hlast := lastAddr_mem Ptr.freeMem pre
  by_cases he : lastAddr .freeMem pre = Ptr.freeMem
  · rw [if_pos he]
    cases free with
    | nil => rfl
    | cons c free => simp [RoverOn]
  · rw [if_neg he]
    rcases List.mem_cons.mp hlast with h | h
    · exact absurd h he
    · exact hpre _ h

/-- Taking the block `c` that the search found: an exact fit leaves the free list,
    a larger block leaves its tail there. -/
theorem takeBlock_spec {s : State} {used pre post : List Block} {c : Block} (n : Int32)
    (hl : Links s ⟨pre ++ c :: post, used⟩) :
    ∃ s' L', takeBlock s n (lastAddr .freeMem pre) c.1 = Except.ok (c.2.start, s') ∧
      Rep s' L' ∧
      ((c.2.size = n ∧ L' = ⟨pre ++ post, c :: used⟩) ∨
        (c.2.size ≠ n ∧
          L' = ⟨pre ++ tailPart (Ptr.node s.fresh) c n :: post, headPart c n :: used⟩)) := by
  -- both cuts leave a detached block with the same start, and a free list with the
  -- same front
  have hcut : ∃ s₁ c' free', cutBlock s n (lastAddr .freeMem pre) c.1 = Except.ok s₁ ∧
      Links s₁ ⟨free', used⟩ ∧ Detached s₁ ⟨free', used⟩ c' ∧ c'.1 = c.1 ∧
      c'.2.start = c.2.start ∧ (∀ p ∈ addrs pre, p ∈ addrs free') ∧
      ((c.2.size = n ∧ free' = pre ++ post ∧ c' = c) ∨
        (c.2.size ≠ n ∧ free' = pre ++ tailPart (Ptr.node s.fresh) c n :: post ∧
          c' = headPart c n)) := by
    obtain ⟨hnode, h, hh, hlinks, hdet⟩ := unlink_free hl
    by_cases hfit : c.2.size = n
    · refine ⟨_, c, pre ++ post, ?_, hlinks, hdet, rfl, rfl, ?_, Or.inl ⟨hfit, rfl, rfl⟩⟩
      · simp [cutBlock, load_some hnode, hfit, hh]
      · intro p hp
        simp [hp]
    · obtain ⟨h₁, h₂, hh₁, hh₂, hlinks, hdet⟩ := cut_free n hl
      refine ⟨_, headPart c n, _, ?_, hlinks, hdet, rfl, rfl, ?_, Or.inr ⟨hfit, rfl, rfl⟩⟩
      · simp only [cutBlock, load_some hnode, Run.ok_bind, if_neg hfit, hh₁]
        change (storeVal (Function.update h₁ (Ptr.node s.fresh)
          (some ⟨headPtr post, (tailPart (Ptr.node s.fresh) c n).2⟩)) c.1 (headPart c n).2 >>=
          fun heap => Except.ok (⟨heap, s.rover, s.fresh + 1⟩ : State)) = _
        rw [hh₂]
        rfl
      · intro p hp
        simp [hp]
  obtain ⟨s₁, c', free', hrun, hlinks, hdet, haddr, hstart, hpre, hcases⟩ := hcut
  obtain ⟨hm, -⟩ := hlinks.freeMem
  obtain ⟨hu, -⟩ := hlinks.usedMem
  obtain ⟨h₁, h₂, hh₁, hh₂, ⟨m, hm'⟩, hlinks'⟩ := push_used hlinks hdet
  rw [haddr] at hh₁ hh₂ hm'
  have hrover := roverOn_takeBlock pre free' hpre
  let rover := if lastAddr .freeMem pre = .freeMem then headPtr free'
    else some (lastAddr .freeMem pre)
  refine ⟨⟨h₂, rover, s₁.fresh⟩, ⟨free', c' :: used⟩, ?_, ⟨hlinks' _, hrover⟩, ?_⟩
  · simp [takeBlock, hrun, load_some hm, load_some hu, hh₁, hh₂, load_some hm', hstart,
      rover]
  · rcases hcases with ⟨hfit, rfl, rfl⟩ | ⟨hfit, rfl, rfl⟩
    · exact Or.inl ⟨hfit, rfl⟩
    · exact Or.inr ⟨hfit, rfl⟩

/-! ### The search of Malloc -/

/-- The outcome of a search that looks at the blocks of `todo`, having seen sizes up to
    `max`: it stops at a block of the free list that is large enough, or has looked at
    all of them. -/
def Outcome (free : List Block) (size : Int32) (todo : List Block) (max : UInt32) :
    Run Scan → Prop
  | .ok (.found prev current) =>
    size ≠ -1 ∧ ∃ pre c post, free = pre ++ c :: post ∧ size ≤ c.2.size ∧
      prev = lastAddr .freeMem pre ∧ current = c.1
  | .ok (.exhausted r) =>
    (size ≠ -1 → r = max ∧ ∀ c ∈ todo, ¬ size ≤ c.2.size) ∧
    (size = -1 → max ≤ r ∧ (∀ c ∈ todo, c.2.size.toUInt32 ≤ r) ∧
      (r = max ∨ ∃ c ∈ todo, r = c.2.size.toUInt32))
  | .error _ => False

/-- The largest size seen after one more block. -/
def seen (size : Int32) (max : UInt32) (c : Block) : UInt32 :=
  if size = -1 then (if max < c.2.size.toUInt32 then c.2.size.toUInt32 else max) else max

theorem le_seen (size : Int32) (max : UInt32) (c : Block) : max ≤ seen size max c := by
  unfold seen
  split
  · split
    · rename_i h
      exact UInt32.le_of_lt h
    · exact UInt32.le_refl _
  · exact UInt32.le_refl _

/-- One more block in front of a search that does not stop at it. -/
theorem Outcome.cons {free todo : List Block} {size : Int32} {max : UInt32} {c : Block}
    {r : Run Scan} (hno : size ≠ -1 → ¬ size ≤ c.2.size)
    (ho : Outcome free size todo (seen size max c) r) : Outcome free size (c :: todo) max r := by
  cases r with
  | error e => exact ho
  | ok scan =>
    cases scan with
    | found prev current => exact ho
    | exhausted m =>
      constructor
      · intro hsize
        obtain ⟨hm, htodo⟩ := ho.1 hsize
        refine ⟨by simpa [seen, hsize] using hm, ?_⟩
        intro d hd
        rcases List.mem_cons.mp hd with rfl | hd
        · exact hno hsize
        · exact htodo d hd
      · intro hsize
        obtain ⟨hm, htodo, hatt⟩ := ho.2 hsize
        have hseen : seen size max c =
            if max < c.2.size.toUInt32 then c.2.size.toUInt32 else max := by
          simp [seen, hsize]
        have hcm : c.2.size.toUInt32 ≤ seen size max c := by
          rw [hseen]
          split
          · exact UInt32.le_refl _
          · rename_i h
            exact UInt32.not_lt.mp h
        refine ⟨UInt32.le_trans (le_seen size max c) hm, ?_, ?_⟩
        · intro d hd
          rcases List.mem_cons.mp hd with rfl | hd
          · exact UInt32.le_trans hcm hm
          · exact htodo d hd
        · rcases hatt with he | ⟨d, hd, he⟩
          · rw [he, hseen]
            split
            · exact Or.inr ⟨c, by simp, rfl⟩
            · exact Or.inl rfl
          · exact Or.inr ⟨d, by simp [hd], he⟩

/-- One round of the loop at the block `c` behind the prefix `pre`. -/
theorem mallocLoop_round {s : State} {size : Int32} {free pre post : List Block} {c : Block}
    {n : Option Ptr} {max : UInt32} (rounds : Nat) (todo : List Block)
    (hfree : free = pre ++ c :: post) (hn : s.heap c.1 = some ⟨n, c.2⟩)
    (hnext : some c.1 ≠ s.rover →
      Outcome free size todo (seen size max c)
        (mallocLoop s size rounds c.1 n (seen size max c)))
    (hlast : some c.1 = s.rover → todo = []) :
    Outcome free size (c :: todo) max
      (mallocLoop s size (rounds + 1) (lastAddr .freeMem pre) (some c.1) max) := by
  by_cases hsize : size = -1
  · have hrun : mallocLoop s size (rounds + 1) (lastAddr .freeMem pre) (some c.1) max =
        if some c.1 = s.rover then Except.ok (.exhausted (seen size max c))
        else mallocLoop s size rounds c.1 n (seen size max c) := by
      simp only [mallocLoop, wrapAround, Run.ok_bind, load_some hn, if_pos hsize, seen]
      rfl
    rw [hrun]
    apply Outcome.cons (fun h => absurd hsize h)
    by_cases hrover : some c.1 = s.rover
    · rw [if_pos hrover, hlast hrover]
      exact ⟨fun h => absurd hsize h, fun _ => ⟨UInt32.le_refl _, by simp, Or.inl rfl⟩⟩
    · rw [if_neg hrover]
      exact hnext hrover
  by_cases hfit : size ≤ c.2.size
  · have hrun : mallocLoop s size (rounds + 1) (lastAddr .freeMem pre) (some c.1) max =
        Except.ok (.found (lastAddr .freeMem pre) c.1) := by
      simp [mallocLoop, wrapAround, load_some hn, hsize, hfit]
    rw [hrun]
    exact ⟨hsize, pre, c, post, hfree, hfit, rfl, rfl⟩
  · have hrun : mallocLoop s size (rounds + 1) (lastAddr .freeMem pre) (some c.1) max =
        if some c.1 = s.rover then Except.ok (.exhausted max)
        else mallocLoop s size rounds c.1 n max := by
      simp only [mallocLoop, wrapAround, Run.ok_bind, load_some hn, if_neg hsize, if_neg hfit]
      rfl
    have hseen : seen size max c = max := by
      simp [seen, hsize]
    rw [hrun]
    apply Outcome.cons (fun _ => hfit)
    rw [hseen] at hnext ⊢
    by_cases hrover : some c.1 = s.rover
    · rw [if_pos hrover, hlast hrover]
      exact ⟨fun _ => ⟨rfl, by simp⟩, fun h => absurd h hsize⟩
    · rw [if_neg hrover]
      exact hnext hrover

/-- A node of the list that is not the rover's block is not the rover. -/
theorem Links.ne_rover {s : State} {pre leg used : List Block} {c q : Block}
    (hl : Links s ⟨pre ++ c :: leg, used⟩) (hq : s.rover = some q.1) (hmem : q ∈ pre ++ leg) :
    some c.1 ≠ s.rover := by
  intro h
  rw [hq] at h
  have hnodup := hl.nodup
  simp only [List.append_assoc, List.cons_append] at hnodup
  have hnot := (nodup_middle.mp hnodup).1
  apply hnot
  rw [Option.some.inj h, ← List.append_assoc, addrs_append]
  exact List.mem_append_left _ (mem_addrs hmem)

/-- The last leg of the search: up to the rover's own block. -/
theorem mallocLoop_to_rover {s : State} {size : Int32} {free used post : List Block} {q : Block}
    (hl : Links s ⟨free, used⟩) (hq : s.rover = some q.1) :
    ∀ (leg pre : List Block) (rounds : Nat) (max : UInt32),
      free = pre ++ (leg ++ q :: post) → leg.length < rounds →
      Outcome free size (leg ++ [q]) max
        (mallocLoop s size rounds (lastAddr .freeMem pre) (headPtr (leg ++ q :: post)) max) := by
  intro leg
  induction leg with
  | nil =>
    intro pre rounds max hfree hrounds
    obtain ⟨k, rfl⟩ : ∃ k, rounds = k + 1 := ⟨rounds - 1, by simp at hrounds; omega⟩
    have hl' : Links s ⟨pre ++ q :: post, used⟩ := by
      rw [hfree] at hl
      exact hl
    apply mallocLoop_round k [] hfree (unlink_free hl').1
    · intro hne
      exact absurd hq.symm hne
    · intro _
      rfl
  | cons c leg ih =>
    intro pre rounds max hfree hrounds
    obtain ⟨k, rfl⟩ : ∃ k, rounds = k + 1 := ⟨rounds - 1, by omega⟩
    have hl' : Links s ⟨pre ++ c :: (leg ++ q :: post), used⟩ := by
      rw [hfree] at hl
      exact hl
    apply mallocLoop_round k (leg ++ [q]) hfree (unlink_free hl').1
    · intro _
      have hshape : free = (pre ++ [c]) ++ (leg ++ q :: post) := by simp [hfree]
      have hrest := ih (pre ++ [c]) k (seen size max c) hshape (by simpa using hrounds)
      rw [lastAddr_append] at hrest
      exact hrest
    · intro hrover
      exact absurd hrover (hl'.ne_rover hq (by simp))

/-- The first leg of the search: to the end of the list, and around. -/
theorem mallocLoop_to_end {s : State} {size : Int32} {free used front post : List Block}
    {q : Block} (hl : Links s ⟨free, used⟩) (hq : s.rover = some q.1)
    (hsplit : free = front ++ q :: post) :
    ∀ (leg pre : List Block) (rounds : Nat) (max : UInt32),
      free = pre ++ leg → q ∈ pre → leg.length + front.length < rounds →
      Outcome free size (leg ++ (front ++ [q])) max
        (mallocLoop s size rounds (lastAddr .freeMem pre) (headPtr leg) max) := by
  intro leg
  induction leg with
  | nil =>
    intro pre rounds max hfree hmem hrounds
    obtain ⟨k, rfl⟩ : ∃ k, rounds = k + 1 := ⟨rounds - 1, by omega⟩
    have hround := @mallocLoop_to_rover s size free used post q hl hq front [] (k + 1) max
      hsplit (by simpa using hrounds)
    have hheader := hl.freeMem.1
    have hwrap : mallocLoop s size (k + 1) (lastAddr .freeMem pre) none max =
        mallocLoop s size (k + 1) .freeMem (headPtr free) max := by
      have hhead : ∃ p, headPtr free = some p := by
        rw [hsplit]
        cases front with
        | nil => exact ⟨_, rfl⟩
        | cons c front => exact ⟨_, rfl⟩
      obtain ⟨p, hp⟩ := hhead
      simp only at hheader
      simp [mallocLoop, wrapAround, load_some hheader, hp]
    rw [headPtr_nil, hwrap, List.nil_append]
    rw [← hsplit] at hround
    exact hround
  | cons c leg ih =>
    intro pre rounds max hfree hmem hrounds
    obtain ⟨k, rfl⟩ : ∃ k, rounds = k + 1 := ⟨rounds - 1, by omega⟩
    have hl' : Links s ⟨pre ++ c :: leg, used⟩ := by simpa [← hfree] using hl
    apply mallocLoop_round k (leg ++ (front ++ [q])) hfree (unlink_free hl').1
    · intro _
      have hshape : free = (pre ++ [c]) ++ leg := by simp [hfree]
      have hlen : leg.length + front.length < k := by
        simp only [List.length_cons] at hrounds
        omega
      have hrest := ih (pre ++ [c]) k (seen size max c) hshape (by simp [hmem]) hlen
      rw [lastAddr_append] at hrest
      exact hrest
    · intro hrover
      exact absurd hrover (hl'.ne_rover hq (List.mem_append_left _ hmem))

theorem roundUp4_ne_neg_one (size : Int32) : roundUp4 size ≠ -1 := by
  intro h
  have hmod := roundUp4_dvd size
  rw [h] at hmod
  exact absurd hmod (by decide)

/-- What `Malloc` makes of the end of its search. -/
def afterSearch (s : State) (size : Int32) : Scan → Run (UInt32 × State)
  | .found prev current => takeBlock s size prev current
  | .exhausted max => Except.ok (max, s)

theorem malloc_spec {s : State} {L : Lists} (hr : Rep s L) (size : Int32) :
    ∃ a s' L', malloc size s = Except.ok (a, s') ∧ Step L (.malloc size) (.address a) L' ∧
      Rep s' L' ∧ (L' = L → s' = s) := by
  obtain ⟨free, used⟩ := L
  obtain ⟨hm, hfree⟩ := hr.links.freeMem
  have hrover := hr.rover
  by_cases hempty : free = []
  · -- an empty list: no search at all
    subst hempty
    refine ⟨0, s, ⟨[], used⟩, ?_, ?_, hr, fun _ => rfl⟩
    · simp [malloc, load_some hm]
    · by_cases hsize : size = -1
      · rw [hsize]
        exact Step.largest ⟨by simp, Or.inl rfl⟩
      · exact Step.outOfMemory hsize (by simp)
  obtain ⟨q, hq, hqmem⟩ : ∃ q, s.rover = some q ∧ q ∈ addrs free := by
    cases hcase : s.rover with
    | none =>
      rw [hcase] at hrover
      exact absurd hrover hempty
    | some p =>
      rw [hcase] at hrover
      exact ⟨p, rfl, hrover⟩
  obtain ⟨c, hc, rfl⟩ := List.mem_map.mp hqmem
  obtain ⟨front, post, hsplit⟩ := List.append_of_mem hc
  have hl : Links s ⟨front ++ c :: post, used⟩ := by simpa [← hsplit] using hr.links
  have hstart : s.heap c.1 = some ⟨headPtr post, c.2⟩ := (unlink_free hl).1
  have hhead : headPtr free ≠ none := mt headPtr_eq_none.mp hempty
  have hlen : post.length + front.length < s.fresh + 2 := by
    have hle := hr.links.length_le
    simp only [hsplit, List.length_append, List.length_cons] at hle
    omega
  have hshape : free = (front ++ [c]) ++ post := by simp [hsplit]
  let n := if size = -1 then size else roundUp4 size
  have hscan := @mallocLoop_to_end s n free used front post c hr.links hq hsplit post
    (front ++ [c]) (s.fresh + 2) 0 hshape (by simp) hlen
  rw [lastAddr_append] at hscan
  have hrun : malloc size s =
      (mallocLoop s n (s.fresh + 2) c.1 (headPtr post) 0 >>= afterSearch s n) := by
    simp only [malloc, load_some hm, Run.ok_bind, if_neg hhead, hq, Run.ofOption_some,
      load_some hstart]
    rfl
  have htodo : ∀ d ∈ free, d ∈ post ++ (front ++ [c]) := by
    intro d hd
    rw [hsplit] at hd
    simp only [List.mem_append, List.mem_cons] at hd ⊢
    tauto
  have htodo' : ∀ d ∈ post ++ (front ++ [c]), d ∈ free := by
    intro d hd
    rw [hsplit]
    simp only [List.mem_append, List.mem_cons, List.not_mem_nil, or_false] at hd ⊢
    tauto
  rw [hrun]
  cases hcase : mallocLoop s n (s.fresh + 2) c.1 (headPtr post) 0 with
  | error e =>
    rw [hcase] at hscan
    exact hscan.elim
  | ok scan =>
    rw [hcase] at hscan
    cases scan with
    | exhausted max =>
      refine ⟨max, s, ⟨free, used⟩, rfl, ?_, hr, fun _ => rfl⟩
      by_cases hsize : size = -1
      · have hn : n = -1 := by simp [n, hsize]
        obtain ⟨-, hle, hatt⟩ := hscan.2 hn
        rw [hsize]
        apply Step.largest
        refine ⟨fun d hd => hle d (htodo d hd), ?_⟩
        rcases hatt with h | ⟨d, hd, h⟩
        · exact Or.inl h
        · exact Or.inr ⟨d, htodo' d hd, h⟩
      · have hn : n = roundUp4 size := by simp [n, hsize]
        obtain ⟨rfl, hnone⟩ := hscan.1 (by rw [hn]; exact roundUp4_ne_neg_one size)
        apply Step.outOfMemory hsize
        intro d hd
        rw [← hn]
        exact hnone d (htodo d hd)
    | found prev current =>
      obtain ⟨hne, pre, d, post', hfound, hfit, rfl, rfl⟩ := hscan
      have hsize : size ≠ -1 := by
        intro h
        exact hne (by simp [n, h])
      have hn : n = roundUp4 size := by simp [n, hsize]
      have hl' : Links s ⟨pre ++ d :: post', used⟩ := by simpa [← hfound] using hr.links
      obtain ⟨s', L', htake, hrep, hcases⟩ := takeBlock_spec n hl'
      rw [hn] at hcases hfit
      -- the used list grew, so the lists are not what they were
      refine ⟨d.2.start, s', L', htake, ?_, hrep, ?_⟩
      · rw [hfound]
        rcases hcases with ⟨hexact, rfl⟩ | ⟨hexact, rfl⟩
        · exact Step.exactFit hsize hexact
        · exact Step.split _ hsize hfit hexact
      · intro h
        rcases hcases with ⟨-, rfl⟩ | ⟨-, rfl⟩ <;> simp at h

/-! ### Refinement -/

/-- **The pointer code refines the list machine**, one call at a time. -/
theorem step_refines : Machine.Refines step Rep Step := by
  intro s L hr c
  cases c with
  | malloc size =>
    obtain ⟨a, s', L', hrun, hstep, hrep, -⟩ := malloc_spec hr size
    exact ⟨.address a, s', L', by simp [step, hrun], hstep, hrep⟩
  | mfree block =>
    obtain ⟨r, s', L', hrun, hstep, hrep⟩ := mfree_spec hr block
    exact ⟨.status r, s', L', by simp [step, hrun], hstep, hrep⟩
  | mshrink block newsiz =>
    obtain ⟨r, s', L', hrun, hstep, hrep⟩ := mshrink_spec hr block newsiz
    exact ⟨.status r, s', L', by simp [step, hrun], hstep, hrep⟩

end ParaTos.Mem
