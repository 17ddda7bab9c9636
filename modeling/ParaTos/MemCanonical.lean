/-
  ParaTos/MemCanonical.lean
  =========================
  **The free list stays canonical**, as long as no `Mshrink` is exact.

  `freeBlock` merges a block with its direct neighbours only.  That is enough to
  keep the free list sorted and fully merged, provided that the block is not
  empty.  `Malloc` takes care to cut nothing off a block that fits exactly;
  `Mshrink` to the size that a block already has does not, and puts an empty block
  behind it on the list.  Only a free block that starts right there saves it, by
  absorbing the empty one.

  `canonical_iff_harmless` says that this is the only way to lose the property.
-/
import ParaTos.MemTiling

namespace ParaTos.Mem

open LinkedList Words Tiling

/-! ### The invariant -/

/-- What holds between calls that ask for at least one byte. -/
structure Merged (L : Lists) : Prop where
  tiled : Tiled (L.free ++ L.used)
  canonical : Canonical (L.free.map span)
  used : ∀ c ∈ L.used, 0 < c.2.size.toInt

theorem span_nonempty {c : Block} : (span c).1 < (span c).2 ↔ 0 < c.2.size.toInt := by
  simp only [span]
  omega

/-- With every block released, only the whole arena is left. -/
theorem Merged.whole {L : Lists} (h : Merged L) (hused : L.used = []) :
    L.free.map span = [(arenaStart, arenaEnd)] := by
  have htiles := h.tiled.tiles
  rw [hused, List.append_nil] at htiles
  exact htiles.eq_singleton h.canonical (by decide)

/-! ### A block enters the free list -/

section Entering

variable {c : Block} {free free' l : List Block}

/-- A block that is not empty merges with the neighbours it touches, and has a gap to
    the others. -/
theorem canonical_insertion (hins : Insertion c free free') (ht : Tiled (c :: free ++ l))
    (hc : 0 < c.2.size.toInt) (hcan : Canonical (free.map span)) :
    Canonical (free'.map span) := by
  obtain ⟨front, prev, post, hfront, hbefore, hbehind⟩ := hins
  have hcpos : (span c).1 < (span c).2 := span_nonempty.mpr hc
  have hin : Inside c := ht.inside (by simp)
  have hposIn : ∀ d ∈ front ++ prev.toList ++ post, (span d).1 < (span d).2 :=
    fun d hd => hcan.nonempty _ (List.mem_map_of_mem hd)
  -- every free block ends in front of `c`, or starts behind it
  have hapart : ∀ d ∈ front ++ prev.toList ++ post,
      (span c).2 ≤ (span d).1 ∨ (span d).2 ≤ (span c).1 := by
    intro d hd
    have htiles := ht.tiles
    rw [List.cons_append, List.map_cons, ← List.singleton_append] at htiles
    apply htiles.apart (by simp) _ hcpos (hposIn d hd)
    exact List.mem_map_of_mem (List.mem_append_left _ hd)
  have hcanFront : Canonical ((front ++ prev.toList).map span) := by
    apply hcan.sublist
    exact (List.sublist_append_left _ post).map span
  have hcanPost : Canonical (post.map span) := by
    apply hcan.sublist
    exact (List.sublist_append_right _ post).map span
  have hsingle : Canonical ([] ++ [span c]) := canonical_iff.mpr ⟨by simpa using hcpos, by simp⟩
  -- the block after it has merged with its successor
  have hnext : Canonical (span (joinNext c post).1 :: (joinNext c post).2.map span) ∧
      (span (joinNext c post).1).1 = (span c).1 := by
    cases post with
    | nil => exact ⟨hsingle, rfl⟩
    | cons d post =>
      have hle : (span c).1 ≤ (span d).1 := by
        have h := UInt32.le_iff_toNat_le.mp (hbehind d (by simp))
        simp only [span]
        omega
      have hcd : (span c).2 ≤ (span d).1 := by
        have hdpos := hposIn d (by simp)
        rcases hapart d (by simp) with h | h
        · exact h
        · omega
      have hd : Inside d := ht.inside (by simp)
      by_cases htouch : Touches c d
      · have hseam := (touches_iff hin).mp htouch
        rw [joinNext, if_pos htouch, span_grow hin hd htouch]
        refine ⟨hsingle.merge hcanPost ?_, rfl⟩
        have hdpos := hposIn d (by simp)
        omega
      · rw [joinNext, if_neg htouch]
        refine ⟨hsingle.link hcanPost ?_, rfl⟩
        have hne := mt (touches_iff hin).mpr htouch
        omega
  obtain ⟨hcanNext, hstart⟩ := hnext
  cases prev with
  | none =>
    rw [hfront rfl]
    simpa [joinPrev] using hcanNext
  | some p =>
    have hp : Inside p := ht.inside (by simp)
    have hppos := hposIn p (by simp)
    have hpc : (span p).2 ≤ (span c).1 := by
      have h := UInt32.lt_iff_toNat_lt.mp (hbefore p (by simp))
      rcases hapart p (by simp) with h' | h'
      · simp only [span] at h' hcpos
        omega
      · exact h'
    have hcanFront' : Canonical (front.map span ++ [span p]) := by
      simpa using hcanFront
    have hnpos := hcanNext.nonempty _ List.mem_cons_self
    by_cases htouch : Touches p (joinNext c post).1
    · have hn : Inside (joinNext c post).1 := by
        have htiled := ht.insertedNext
        exact htiled.inside (by simp)
      have hmerge := hcanFront'.merge hcanNext (by omega)
      simpa [joinPrev, join, htouch, span_grow hp hn htouch] using hmerge
    · have hne := mt (touches_iff hp).mpr htouch
      have hlink := hcanFront'.link hcanNext (by omega)
      simpa [joinPrev, join, htouch] using hlink

/-- An empty block disappears in the free block that starts where it does. -/
theorem canonical_insertion_empty (hins : Insertion c free free') (ht : Tiled (c :: free ++ l))
    (hc : c.2.size.toInt = 0) (hcan : Canonical (free.map span))
    (hd : ∃ d ∈ free, (span d).1 = (span c).1) : Canonical (free'.map span) := by
  obtain ⟨front, prev, post, hfront, hbefore, hbehind⟩ := hins
  obtain ⟨d, hdmem, hdc⟩ := hd
  have hin : Inside c := ht.inside (by simp)
  -- it is the first block behind the place of `c`
  have hdpost : d ∈ post := by
    rcases List.mem_append.mp hdmem with h | h
    · have hlt := UInt32.lt_iff_toNat_lt.mp (hbefore d h)
      simp only [span] at hdc
      omega
    · exact h
  have hhead : ∃ rest, post = d :: rest := by
    cases post with
    | nil => cases hdpost
    | cons e rest =>
      rcases List.mem_cons.mp hdpost with rfl | hrest
      · exact ⟨rest, rfl⟩
      · have hle := UInt32.le_iff_toNat_le.mp (hbehind e (by simp))
        have hcanPost : Canonical ((e :: rest).map span) :=
          hcan.sublist ((List.sublist_append_right _ _).map span)
        have hed := hcanPost.lt_of_mem (span d) (List.mem_map_of_mem hrest)
        have hepos := hcanPost.nonempty (span e) (by simp)
        simp only [span] at hdc hed hepos
        omega
  obtain ⟨rest, rfl⟩ := hhead
  have hdin : Inside d := ht.inside (by simp)
  have htouch : Touches c d := by
    rw [touches_iff hin, hdc]
    simp only [span]
    omega
  have hgrow : span (grow c d) = span d := by
    rw [span_grow hin hdin htouch, ← hdc]
  rw [joinNext, if_pos htouch]
  cases prev with
  | none => simpa [joinPrev, hgrow] using hcan
  | some p =>
    have hp : Inside p := ht.inside (by simp)
    have hgap : (span p).2 < (span d).1 := by
      have hpair := hcan.pairwise
      simp only [Option.toList_some, List.append_assoc, List.map_append, List.map_cons,
        List.pairwise_append] at hpair
      exact hpair.2.1.2.2 _ (by simp) _ (by simp)
    have hnot : ¬ Touches p (grow c d) := by
      rw [touches_iff hp, hgrow]
      omega
    simpa [joinPrev, join, hnot, hgrow] using hcan

/-- An empty block with no free block at its place stays on the list. -/
theorem not_canonical_insertion_empty (hins : Insertion c free free')
    (ht : Tiled (c :: free ++ l)) (hc : c.2.size.toInt = 0)
    (hstarts : ∀ d ∈ free, (span d).1 ≠ (span c).1)
    (hends : ∀ d ∈ free, (span d).2 ≠ (span c).1) : ¬ Canonical (free'.map span) := by
  obtain ⟨front, prev, post, hfront, hbefore, hbehind⟩ := hins
  have hin : Inside c := ht.inside (by simp)
  have hnext : joinNext c post = (c, post) := by
    cases post with
    | nil => rfl
    | cons d post =>
      have hnot : ¬ Touches c d := by
        rw [touches_iff hin]
        intro h
        apply hstarts d (by simp)
        simp only [span] at h ⊢
        omega
      rw [joinNext, if_neg hnot]
  have hstays : c ∈ joinPrev prev c := by
    cases prev with
    | none => simp [joinPrev]
    | some p =>
      have hp : Inside p := ht.inside (by simp)
      have hnot : ¬ Touches p c := by
        rw [touches_iff hp]
        exact hends p (by simp)
      simp [joinPrev, join, hnot]
  intro hcan
  have hpos := hcan.nonempty (span c) (by
    apply List.mem_map_of_mem
    rw [hnext]
    simp [hstays])
  rw [span_nonempty] at hpos
  omega

end Entering

/-! ### The step lemmas -/

/-- A size of at least one byte that can be rounded up. -/
def AtLeastOne (n : Int32) : Prop := 0 < n.toInt ∧ n.toInt ≤ 2 ^ 31 - 4

instance (n : Int32) : Decidable (AtLeastOne n) := inferInstanceAs (Decidable (_ ∧ _))

/-- The calls that ask for at least one byte. -/
def Positive : Call → Prop
  | .malloc n => AtLeastOne n
  | .mfree _ => True
  | .mshrink _ newsiz => AtLeastOne newsiz

instance : DecidablePred Positive
  | .malloc n => inferInstanceAs (Decidable (AtLeastOne n))
  | .mfree _ => inferInstanceAs (Decidable True)
  | .mshrink _ newsiz => inferInstanceAs (Decidable (AtLeastOne newsiz))

theorem AtLeastOne.roundUp4 {n : Int32} (h : AtLeastOne n) : 0 < (roundUp4 n).toInt :=
  lt_of_lt_of_le h.1 (le_roundUp4 h.2)

theorem Positive.admissible {L : Lists} {c : Call} (h : Positive c) : Admissible L c := by
  cases c with
  | malloc n => exact Or.inr (Or.inl ⟨le_of_lt h.1, h.2⟩)
  | mfree block => trivial
  | mshrink block newsiz => exact Or.inl ⟨le_of_lt h.1, h.2⟩

/-- `Malloc` puts a block in front of the used ones, apart from them. -/
theorem malloc_used {mem mem' : State} {L : Lists} {n : Int32} {a : UInt32}
    (hr : Rep mem L) (ht : Tiled (L.free ++ L.used)) (hn : AtLeastOne n)
    (hmalloc : malloc n mem = Except.ok (a, mem')) (ha : a ≠ 0) :
    ∃ L' d, Rep mem' L' ∧ Tiled (L'.free ++ L'.used) ∧ L'.used = d :: L.used ∧
      d.2.start = a ∧ n.toInt ≤ d.2.size.toInt := by
  obtain ⟨a', s', L', hrun, hst, hr', -⟩ := malloc_spec hr n
  rw [hmalloc] at hrun
  cases hrun
  have hadm : Admissible L (.malloc n) := Positive.admissible hn
  have ht' := ht.step hst hadm
  have hround := le_roundUp4 hn.2
  cases hst with
  | largest hr => exact absurd hn.1 (by decide)
  | outOfMemory hsize hnone => exact absurd rfl ha
  | @exactFit pre post used c size hsize hfit =>
    exact ⟨_, c, hr', ht', rfl, rfl, by rw [hfit]; exact hround⟩
  | @split pre post used c size p hsize hfit hne =>
    exact ⟨_, headPart c (roundUp4 n), hr', ht', rfl, rfl, hround⟩

/-- The newest used block is apart from the others. -/
theorem Tiled.used_apart {free used : List Block} {c d : Block} (ht : Tiled (free ++ d :: used))
    (hc : c ∈ used) (hd : 0 < d.2.size.toInt) (hpos : 0 < c.2.size.toInt) :
    (span d).2 ≤ (span c).1 ∨ (span c).2 ≤ (span d).1 := by
  have htiles := ht.tiles
  have hsplit : (free ++ d :: used).map span = (free ++ [d]).map span ++ used.map span := by simp
  rw [hsplit] at htiles
  exact htiles.apart (List.mem_map_of_mem (by simp)) (List.mem_map_of_mem hc)
    (span_nonempty.mpr hd) (span_nonempty.mpr hpos)

theorem Tiled.start_ne {free used : List Block} {c d : Block} (ht : Tiled (free ++ d :: used))
    (hc : c ∈ used) (hd : 0 < d.2.size.toInt) (hpos : 0 < c.2.size.toInt) :
    d.2.start ≠ c.2.start := by
  have hapart := ht.used_apart hc hd hpos
  simp only [span] at hapart
  intro heq
  rw [heq] at hapart
  omega

/-- No exact `Mshrink`, unless a free block starts right behind the block. -/
def LeavesNoEmpty (L : Lists) : Call → Prop
  | .mshrink block newsiz => ∀ c ∈ L.used, c.2.start = block → c.2.size = roundUp4 newsiz →
      ∃ d ∈ L.free, (span d).1 = (span c).2
  | _ => True

theorem Merged.step {L L' : Lists} {c : Call} {r : Reply} (hst : Step L c r L') (hm : Merged L)
    (hpos : Positive c) (hleaves : LeavesNoEmpty L c) : Merged L' := by
  have ht' : Tiled (L'.free ++ L'.used) := hm.tiled.step hst hpos.admissible
  cases hst with
  | largest hr => exact hm
  | outOfMemory hsize hnone => exact hm
  | @exactFit pre post used c size hsize hfit =>
    refine ⟨ht', ?_, ?_⟩
    · apply hm.canonical.sublist
      exact (List.Sublist.append_left (List.sublist_cons_self c post) pre).map span
    · intro d hd
      rcases List.mem_cons.mp hd with rfl | hd
      · rw [hfit]
        exact AtLeastOne.roundUp4 hpos
      · exact hm.used d hd
  | @split pre post used c size p hsize hfit hne =>
    have hround : 0 < (roundUp4 size).toInt := AtLeastOne.roundUp4 hpos
    have hle := Int32.le_iff_toInt_le.mp hfit
    have hne' : (roundUp4 size).toInt ≠ c.2.size.toInt := fun h => hne (Int32.toInt_inj.mp h).symm
    have hin : Inside c := hm.tiled.inside (by simp)
    refine ⟨ht', ?_, ?_⟩
    · -- the rest of the block starts later and ends where the block did
      have hcan := canonical_iff.mp hm.canonical
      simp only [List.map_append, List.map_cons, List.pairwise_append, List.pairwise_cons] at hcan
      obtain ⟨hnonempty, hpre, ⟨hcpost, hpost⟩, hcross⟩ := hcan
      have htail := span_tailPart p hin (le_of_lt hround) hle
      rw [canonical_iff]
      simp only [List.map_append, List.map_cons, List.pairwise_append, List.pairwise_cons, htail]
      refine ⟨?_, hpre, ⟨hcpost, hpost⟩, ?_⟩
      · intro b hb
        simp only [List.mem_append, List.mem_cons] at hb hnonempty
        rcases hb with hb | rfl | hb
        · exact hnonempty b (Or.inl hb)
        · simp only
          omega
        · exact hnonempty b (Or.inr (Or.inr hb))
      · intro a ha b hb
        rcases List.mem_cons.mp hb with rfl | hb
        · have hac := hcross a ha (span c) List.mem_cons_self
          simp only [span] at hac ⊢
          omega
        · exact hcross a ha b (List.mem_cons_of_mem _ hb)
    · intro d hd
      rcases List.mem_cons.mp hd with rfl | hd
      · exact hround
      · exact hm.used d hd
  | freeUnknown hnone => exact hm
  | @free pre post free free' c block hpre hc hins =>
    refine ⟨ht', ?_, ?_⟩
    · exact canonical_insertion hins hm.tiled.unlinked (hm.used c (by simp)) hm.canonical
    · intro d hd
      apply hm.used d
      simp only [List.mem_append, List.mem_cons] at hd ⊢
      tauto
  | shrinkToNothing hfree => exact absurd hpos.1 (by decide)
  | shrinkUnknown hsiz hnone => exact hm
  | shrinkTooLarge hsiz hpre hc hlt => exact hm
  | @shrink free free' pre post c block newsiz p hsiz hpre hc hle hins =>
    have hround : 0 < (roundUp4 newsiz).toInt := AtLeastOne.roundUp4 hpos
    have hle' := Int32.le_iff_toInt_le.mp hle
    have hin : Inside c := hm.tiled.inside (by simp)
    have hshrunk := hm.tiled.shrunk p (le_of_lt hround) hle (roundUp4_dvd newsiz)
    obtain ⟨htailStart, htailSize⟩ := tailPart_extent p hin (le_of_lt hround) hle'
    refine ⟨ht', ?_, ?_⟩
    · by_cases hexact : c.2.size = roundUp4 newsiz
      · obtain ⟨d, hd, hdc⟩ := hleaves c (by simp) hc hexact
        apply canonical_insertion_empty hins hshrunk _ hm.canonical
        · refine ⟨d, hd, ?_⟩
          rw [hdc, span_tailPart p hin (le_of_lt hround) hle', ← hexact]
          rfl
        · rw [htailSize, hexact]
          omega
      · have hne : (roundUp4 newsiz).toInt ≠ c.2.size.toInt :=
          fun h => hexact (Int32.toInt_inj.mp h).symm
        apply canonical_insertion hins hshrunk _ hm.canonical
        rw [htailSize]
        omega
    · intro d hd
      simp only [List.mem_append, List.mem_cons] at hd
      rcases hd with hd | rfl | hd
      · exact hm.used d (by simp [hd])
      · exact hround
      · exact hm.used d (by simp [hd])

/-- A used block is the one that the search for its start finds. -/
theorem Merged.found {free pre post : List Block} {c u : Block}
    (hm : Merged ⟨free, pre ++ c :: post⟩) (hpre : ∀ d ∈ pre, d.2.start ≠ c.2.start)
    (hu : u ∈ pre ++ c :: post) (hstart : u.2.start = c.2.start) : u = c := by
  rcases List.mem_append.mp hu with h | h
  · exact absurd hstart (hpre u h)
  · rcases List.mem_cons.mp h with rfl | h
    · rfl
    · have htiles : Tiles arenaStart arenaEnd
          ((free ++ pre ++ [c]).map span ++ post.map span) := by
        have htiled := hm.tiled.tiles
        simpa using htiled
      have hcpos := span_nonempty.mpr (hm.used c (by simp))
      have hupos := span_nonempty.mpr (hm.used u (by simp [h]))
      have hsame : (span u).1 = (span c).1 := by
        simp only [span, hstart]
      rcases htiles.apart (List.mem_map_of_mem (by simp)) (List.mem_map_of_mem h) hcpos hupos
        with h' | h'
      · omega
      · omega

/-- An exact `Mshrink` with no free block behind the block leaves an empty free block. -/
theorem Merged.broken {L L' : Lists} {c : Call} {r : Reply} (hst : Step L c r L') (hm : Merged L)
    (hpos : Positive c) (hnot : ¬ LeavesNoEmpty L c) : ¬ Canonical (L'.free.map span) := by
  cases c with
  | malloc size => exact absurd trivial hnot
  | mfree block => exact absurd trivial hnot
  | mshrink block newsiz =>
    simp only [LeavesNoEmpty, not_forall, not_exists, not_and] at hnot
    obtain ⟨u, hu, hublock, huexact, hnofree⟩ := hnot
    have hround : 0 < (roundUp4 newsiz).toInt := AtLeastOne.roundUp4 hpos
    cases hst with
    | shrinkToNothing hfree => exact absurd hpos.1 (by decide)
    | shrinkUnknown hsiz hnone => exact absurd hublock (hnone u hu)
    | @shrinkTooLarge free pre post c block newsiz hsiz hpre hc hlt =>
      obtain rfl : u = c := hm.found (by rwa [hc]) hu (hublock.trans hc.symm)
      rw [huexact] at hlt
      exact absurd hlt Int32.lt_irrefl
    | @shrink free free' pre post c block newsiz p hsiz hpre hc hle hins =>
      obtain rfl : u = c := hm.found (by rwa [hc]) hu (hublock.trans hc.symm)
      have hle' := Int32.le_iff_toInt_le.mp hle
      have hin : Inside u := hm.tiled.inside (by simp)
      have hshrunk := hm.tiled.shrunk p (le_of_lt hround) hle (roundUp4_dvd newsiz)
      obtain ⟨htailStart, htailSize⟩ := tailPart_extent p hin (le_of_lt hround) hle'
      have hplace : (span (tailPart p u (roundUp4 newsiz))).1 = (span u).2 := by
        rw [span_tailPart p hin (le_of_lt hround) hle', ← huexact]
        rfl
      have hempty : (tailPart p u (roundUp4 newsiz)).2.size.toInt = 0 := by
        rw [htailSize, huexact]
        omega
      apply not_canonical_insertion_empty hins hshrunk hempty
      · intro d hd
        rw [hplace]
        exact hnofree d hd
      · -- a free block cannot end where the used one does
        intro d hd
        rw [hplace]
        intro hsame
        have htiles := hm.tiled.tiles
        rw [List.map_append] at htiles
        have hdmem : span d ∈ free.map span := List.mem_map_of_mem hd
        have humem : span u ∈ (pre ++ u :: post).map span := List.mem_map_of_mem hu
        have hdpos := hm.canonical.nonempty _ hdmem
        have hupos := span_nonempty.mpr (hm.used u hu)
        rcases htiles.apart hdmem humem hdpos hupos with h | h
        · omega
        · omega

theorem bootLists_merged : Merged bootLists where
  tiled := bootLists_tiled
  canonical := canonical_iff.mpr (by decide)
  used := by decide

/-! ### Runs -/

/-- The free list is canonical, and the whole arena when no block is in use. -/
def FreeListCanonical (s : State) : Prop :=
  ∃ L, s.lists = Except.ok L ∧ Canonical (L.free.map span) ∧
    (L.used = [] → L.free.map span = [(arenaStart, arenaEnd)])

/-- The next call is no exact `Mshrink`, or there is a free block behind the block. -/
def Harmless (s : State) (c : Call) : Prop :=
  ∃ L, s.lists = Except.ok L ∧ LeavesNoEmpty L c

/-- **When the free list stays canonical**: in a run of calls that ask for at least one
    byte, exactly as long as every call is harmless. -/
theorem canonical_iff_harmless {s₀ : State}
    (hboot : malloc 0x800 initMemory = Except.ok (0x10000, s₀)) (calls : List Call)
    (hcalls : ∀ c ∈ calls, Positive c) :
    Machine.Holds step FreeListCanonical calls s₀ ↔ Machine.Meets step Harmless calls s₀ := by
  have hr₀ : Rep s₀ bootLists := boot_rep_of hboot
  apply step_refines.holds_iff_meets _ _ _ calls hcalls hr₀ bootLists_merged
  · intro s L hr hm
    exact ⟨L, hr.read, hm.canonical, hm.whole⟩
  · intro s L c r L' hr hm hpos hcond hst
    exact hm.step hst hpos (hr.exists_lists.mp hcond)
  · rintro s L c r s' L' hr hm hpos hcond hst hr' ⟨L₁, hread, hcan, -⟩
    rw [hr'.read] at hread
    cases hread
    rw [Harmless, hr.exists_lists] at hcond
    exact hm.broken hst hpos hcond hcan

/-- A run that cuts, merges and shrinks, and ends with everything released. -/
theorem canonical_iff_harmless_released : ∃ s₀, malloc 0x800 initMemory = Except.ok (0x10000, s₀) ∧
    (Machine.Holds step FreeListCanonical
      [.malloc 8, .mshrink 0x10000 0x400, .mfree 0x10800, .mfree 0x10000] s₀ ↔
    Machine.Meets step Harmless
      [.malloc 8, .mshrink 0x10000 0x400, .mfree 0x10800, .mfree 0x10000] s₀) := by
  obtain ⟨s₀, hboot, -⟩ := boot_rep
  exact ⟨s₀, hboot, canonical_iff_harmless hboot _ (by decide)⟩

/-- `Mshrink` of a block of `0x800` bytes to `0x800` bytes, with a used block behind it,
    puts an empty block on the free list. -/
theorem mshrink_exact : ∃ s₀ s, malloc 0x800 initMemory = Except.ok (0x10000, s₀) ∧
    Machine.run step [.malloc 8, .mshrink 0x10000 0x800] s₀ = Except.ok s ∧
    s.lists = Except.ok ⟨[(.node 3, ⟨0x10800, 0⟩), (.node 2, ⟨0x10808, 0xfef7f8⟩)],
      [(.node 1, ⟨0x10800, 8⟩), (.node 0, ⟨0x10000, 0x800⟩)]⟩ ∧
    (∀ c ∈ [Call.malloc 8, Call.mshrink 0x10000 0x800], Positive c) ∧
    ¬ FreeListCanonical s := by
  refine ⟨_, _, rfl, rfl, rfl, by decide, ?_⟩
  rintro ⟨L, hread, hcan, -⟩
  have hfree : L.free = [(.node 3, ⟨0x10800, 0⟩), (.node 2, ⟨0x10808, 0xfef7f8⟩)] := by
    cases hread
    rfl
  rw [hfree] at hcan
  have hpos := hcan.nonempty (span (.node 3, ⟨0x10800, 0⟩)) (by simp)
  exact absurd hpos (by decide)

end ParaTos.Mem
