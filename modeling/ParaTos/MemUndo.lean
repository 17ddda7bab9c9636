/-
  ParaTos/MemUndo.lean
  ====================
  **`Mfree` undoes `Malloc`.**

  `Malloc` takes a free block off its list, or cuts the front off it and leaves the
  tail in a new node at the same place.  `Mfree` of the address that it returned
  inserts that block in front of the first one that starts behind it: between the
  neighbours it came from, or in front of its own tail, which it absorbs.  In a
  sorted list of blocks with gaps between them no other two blocks touch, and the
  two lists are what they were.

  `Insertion.at_place` says where an insertion takes place; the rest follows the
  two cases of `Malloc`.
-/
import ParaTos.MemCanonical

namespace ParaTos.Mem

open LinkedList Words Tiling

/-! ### The place of an insertion -/

/-- A list splits in one way only into a part that satisfies `p` and a rest that does
    not start with it. -/
theorem append_inj_of_head {α : Type} {p : α → Prop} {l₁ l₂ r₁ r₂ : List α}
    (h : l₁ ++ r₁ = l₂ ++ r₂) (h₁ : ∀ x ∈ l₁, p x) (h₂ : ∀ x ∈ l₂, p x)
    (hr₁ : ∀ x ∈ r₁.head?, ¬ p x) (hr₂ : ∀ x ∈ r₂.head?, ¬ p x) : l₁ = l₂ ∧ r₁ = r₂ := by
  rcases List.append_eq_append_iff.mp h with ⟨m, rfl, rfl⟩ | ⟨m, rfl, rfl⟩
  · cases m with
    | nil => simp
    | cons x m => exact absurd (h₂ x (by simp)) (hr₁ x (by simp))
  · cases m with
    | nil => simp
    | cons x m => exact absurd (h₁ x (by simp)) (hr₂ x (by simp))

/-- An insertion between the blocks in front of the new one and those behind it. -/
theorem Insertion.at_place {c : Block} {pre post free' : List Block}
    (hins : Insertion c (pre ++ post) free') (hpre : ∀ d ∈ pre, d.2.start < c.2.start)
    (hpost : ∀ d ∈ post.head?, c.2.start ≤ d.2.start) :
    ∃ front prev, pre = front ++ Option.toList prev ∧
      free' = front ++ joinPrev prev (joinNext c post).1 ++ (joinNext c post).2 := by
  generalize hfree : pre ++ post = free at hins
  obtain ⟨front, prev, post', -, hbefore, hbehind⟩ := hins
  obtain ⟨rfl, rfl⟩ := append_inj_of_head hfree hpre hbefore
    (fun d hd => UInt32.not_lt.mpr (hpost d hd)) (fun d hd => UInt32.not_lt.mpr (hbehind d hd))
  exact ⟨front, prev, rfl, rfl⟩

/-- A block that its predecessor does not touch enters as it is. -/
theorem joinPrev_apart {prev : Option Block} {c : Block}
    (h : ∀ d ∈ Option.toList prev, ¬ Touches d c) : joinPrev prev c = Option.toList prev ++ [c] := by
  cases prev with
  | none => rfl
  | some d => simp [joinPrev, join, h d (by simp)]

/-- An insertion next to blocks that do not touch the new one. -/
theorem Insertion.apart {c : Block} {pre post free' : List Block}
    (hins : Insertion c (pre ++ post) free') (hpre : ∀ d ∈ pre, d.2.start < c.2.start)
    (hpost : ∀ d ∈ post.head?, c.2.start ≤ d.2.start) (hback : ∀ d ∈ pre, ¬ Touches d c)
    (hfront : ∀ d ∈ post, ¬ Touches c d) : free' = pre ++ c :: post := by
  obtain ⟨front, prev, rfl, rfl⟩ := hins.at_place hpre hpost
  have hnext : joinNext c post = (c, post) := by
    cases post with
    | nil => rfl
    | cons d post => simp [joinNext, hfront d (by simp)]
  rw [hnext, joinPrev_apart fun d hd => hback d (List.mem_append_right _ hd)]
  simp

/-- The two parts of a block that was cut make it whole again. -/
theorem joinNext_tailPart (p : Ptr) (c : Block) (n : Int32) (post : List Block) :
    joinNext (headPart c n) (tailPart p c n :: post) = (c, post) := by
  have htouch : Touches (headPart c n) (tailPart p c n) := rfl
  have hsize : n + (c.2.size - n) = c.2.size := by
    rw [Int32.add_comm, Int32.sub_add_cancel]
  rw [joinNext, if_pos htouch]
  simp [grow, headPart, tailPart, hsize]

/-- An insertion in front of the tail that was cut off the block. -/
theorem Insertion.tail {c : Block} {p : Ptr} {n : Int32} {pre post free' : List Block}
    (hins : Insertion (headPart c n) (pre ++ tailPart p c n :: post) free')
    (hpre : ∀ d ∈ pre, d.2.start < c.2.start) (htail : c.2.start ≤ (tailPart p c n).2.start)
    (hback : ∀ d ∈ pre, ¬ Touches d c) : free' = pre ++ c :: post := by
  have hbehind : ∀ d ∈ (tailPart p c n :: post).head?, (headPart c n).2.start ≤ d.2.start := by
    intro d hd
    cases hd
    exact htail
  obtain ⟨front, prev, rfl, rfl⟩ := hins.at_place hpre hbehind
  rw [joinNext_tailPart, joinPrev_apart fun d hd => hback d (List.mem_append_right _ hd)]
  simp

/-! ### The lists before and after -/

/-- A strictly ascending list of non-empty, pairwise non-adjacent blocks of the 32-bit
    address space. -/
structure Ordered (free : List Block) : Prop where
  ascending : free.Pairwise fun b c => b.2.start < c.2.start
  nonempty : ∀ c ∈ free, 0 < c.2.size.toInt
  apart : free.Pairwise fun b c => (span b).2 ≠ (span c).1
  inside : ∀ c ∈ free, (span c).2 ≤ 2 ^ 32

/-- In such a list no two blocks touch: only a block that ends with the address space
    could touch another one by wrapping, and that one would start at 0. -/
theorem Ordered.not_touches {free : List Block} (ho : Ordered free) :
    free.Pairwise fun b c => ¬ Touches b c := by
  have hall := ho.ascending.and ho.apart
  refine hall.imp_of_mem ?_
  rintro b c hb - ⟨hlt, hne⟩ htouch
  have hpos := ho.nonempty b hb
  have hend := ho.inside b hb
  have hword := toNat_toUInt32_of_nonneg (le_of_lt hpos)
  have hsum := congrArg UInt32.toNat htouch
  rw [UInt32.toNat_add] at hsum
  rw [UInt32.lt_iff_toNat_lt] at hlt
  simp only [span] at hend hne
  omega

/-- The free lists of programs that ask for at least one byte are of this kind. -/
theorem Merged.ordered {L : Lists} (hm : Merged L) : Ordered L.free := by
  have hpair := List.pairwise_map.mp hm.canonical.pairwise
  have hsize : ∀ c ∈ L.free, 0 < c.2.size.toInt := fun c hc =>
    span_nonempty.mp (hm.canonical.nonempty _ (List.mem_map_of_mem hc))
  constructor
  · refine hpair.imp_of_mem ?_
    intro b c hb _ hlt
    have hpos := hsize b hb
    rw [UInt32.lt_iff_toNat_lt]
    simp only [span] at hlt
    omega
  · exact hsize
  · exact hpair.imp fun hlt => ne_of_lt hlt
  · intro c hc
    have hfits := (hm.tiled.inside (List.mem_append_left _ hc)).fits
    simp only [span]
    omega

/-- A call of `Mfree` for the block at the head of the used list. -/
theorem Step.free_head {free used : List Block} {c : Block} {r : Reply} {L' : Lists}
    (hst : Step ⟨free, c :: used⟩ (.mfree c.2.start) r L') :
    r = .status tosEOk ∧ L'.used = used ∧ Insertion c free L'.free := by
  generalize hL : (⟨free, c :: used⟩ : Lists) = L at hst
  generalize hcall : Call.mfree c.2.start = call at hst
  cases hst with
  | freeUnknown hnone =>
    cases hcall
    rw [← hL] at hnone
    exact absurd rfl (hnone c (by simp))
  | @free pre post free₁ free' d block hpre hd hins =>
    cases hcall
    obtain ⟨rfl, hused⟩ := Lists.mk.inj hL
    cases pre with
    | nil =>
      cases hused
      exact ⟨rfl, rfl, hins⟩
    | cons e pre =>
      cases hused
      exact absurd rfl (hpre c (by simp))
  | _ => cases hcall

/-- **`Malloc` and `Mfree` on the lists.** -/
theorem Step.undo {L L₁ L₂ : Lists} {n : Int32} {a : UInt32} {r : Reply} (ho : Ordered L.free)
    (hn : AtLeastOne n) (ha : a ≠ 0) (hmalloc : Step L (.malloc n) (.address a) L₁)
    (hmfree : Step L₁ (.mfree a) r L₂) : r = .status tosEOk ∧ L₂ = L := by
  have hsort := ho.ascending
  have htouch := ho.not_touches
  cases hmalloc with
  | largest hr => exact absurd hn.1 (by decide)
  | outOfMemory hsize hnone => exact absurd rfl ha
  | @exactFit pre post used c _ hsize hfit =>
    simp only [List.pairwise_append, List.pairwise_cons] at hsort htouch
    obtain ⟨-, ⟨hpost, -⟩, hpre⟩ := hsort
    obtain ⟨-, ⟨htpost, -⟩, htpre⟩ := htouch
    obtain ⟨hr, hused, hins⟩ := Step.free_head hmfree
    refine ⟨hr, ?_⟩
    have hfree : L₂.free = pre ++ c :: post := by
      apply hins.apart
      · exact fun d hd => hpre d hd c List.mem_cons_self
      · exact fun d hd => UInt32.le_of_lt (hpost d (List.mem_of_mem_head? hd))
      · exact fun d hd => htpre d hd c List.mem_cons_self
      · exact htpost
    cases L₂
    cases hfree
    cases hused
    rfl
  | @split pre post used c _ p hsize hfit hne =>
    have hround : 0 < (roundUp4 n).toInt := hn.roundUp4
    have hle := Int32.le_iff_toInt_le.mp hfit
    have hend := ho.inside c (by simp)
    have hlt : (roundUp4 n).toInt ≠ c.2.size.toInt := fun h => hne (Int32.toInt_inj.mp h).symm
    -- the tail starts behind the block, as the cut is in front of the block's end
    have htail : c.2.start ≤ (tailPart p c (roundUp4 n)).2.start := by
      have hword := toNat_toUInt32_of_nonneg (le_of_lt hround)
      simp only [span] at hend
      rw [UInt32.le_iff_toNat_le, tailPart, uint32_add (by omega)]
      omega
    simp only [List.pairwise_append, List.pairwise_cons] at hsort htouch
    obtain ⟨-, -, hpre⟩ := hsort
    obtain ⟨-, -, htpre⟩ := htouch
    obtain ⟨hr, hused, hins⟩ := Step.free_head hmfree
    refine ⟨hr, ?_⟩
    have hfree : L₂.free = pre ++ c :: post := by
      apply hins.tail _ htail
      · exact fun d hd => htpre d hd c List.mem_cons_self
      · exact fun d hd => hpre d hd c List.mem_cons_self
    cases L₂
    cases hfree
    cases hused
    rfl

/-! ### The calls -/

/-- **`Mfree` undoes `Malloc`**: the address that a successful `Malloc` returned can be
    given back, both lists are what they were before, and the rover is on the free
    list. -/
theorem mfree_undoes_malloc {s s₁ : State} {L : Lists} {n : Int32} {a : UInt32} (hr : Rep s L)
    (ho : Ordered L.free) (hn : AtLeastOne n) (hmalloc : malloc n s = Except.ok (a, s₁))
    (ha : a ≠ 0) :
    ∃ s₂, mfree a s₁ = Except.ok (tosEOk, s₂) ∧ s₂.lists = Except.ok L ∧
      ∃ p, s₂.rover = some p ∧ p ∈ addrs L.free := by
  obtain ⟨a', s', L₁, hrun, hst, hr₁, -⟩ := malloc_spec hr n
  rw [hmalloc] at hrun
  cases hrun
  obtain ⟨r, s₂, L₂, hrun₂, hst₂, hr₂⟩ := mfree_spec hr₁ a
  obtain ⟨hok, rfl⟩ := Step.undo ho hn ha hst hst₂
  cases hok
  refine ⟨s₂, hrun₂, hr₂.read, ?_⟩
  -- the list is not empty, as `Malloc` found a block on it
  have hne : L₂.free ≠ [] := by
    intro hempty
    cases hst with
    | largest hr => exact absurd hn.1 (by decide)
    | outOfMemory hsize hnone => exact absurd rfl ha
    | exactFit hsize hfit => simp at hempty
    | split p hsize hfit hne => simp at hempty
  have hvalid := hr₂.roverValid
  obtain ⟨p, hp⟩ : ∃ p, s₂.rover = some p :=
    Option.ne_none_iff_exists'.mp fun h => hne (hvalid.null.mp h)
  exact ⟨p, hp, hvalid.onFree p hp⟩

/-- The one free block of the first state is cut and made whole again. -/
theorem mfree_undoes_malloc_first : ∃ s₀ s₁ s₂, malloc 0x800 initMemory =
    Except.ok (0x10000, s₀) ∧ malloc 10 s₀ = Except.ok (0x10800, s₁) ∧
    mfree 0x10800 s₁ = Except.ok (tosEOk, s₂) ∧ s₂.lists = Except.ok bootLists ∧
    ∃ p, s₂.rover = some p ∧ p ∈ addrs bootLists.free := by
  have hboot : ∃ s₀ s₁, malloc 0x800 initMemory = Except.ok (0x10000, s₀) ∧
      malloc 10 s₀ = Except.ok (0x10800, s₁) := ⟨_, _, rfl, rfl⟩
  obtain ⟨s₀, s₁, hboot, hmalloc⟩ := hboot
  obtain ⟨s₂, hrun, hread, hrover⟩ :=
    mfree_undoes_malloc (boot_rep_of hboot) bootLists_merged.ordered (by decide) hmalloc
      (by decide)
  exact ⟨s₀, s₁, s₂, hboot, hmalloc, hrun, hread, hrover⟩

end ParaTos.Mem
