/-
  ParaTos/MemTiling.lean
  ======================
  **The blocks tile the arena.**

  The invariant of the memory manager: the free blocks together with the used
  ones tile `[0x10000, memory_sz)`, in multiples of four bytes.  Every call keeps
  it whose size is rounded up without wrapping, and so does a call with any other
  size that finds nothing to cut (`Admissible`).

  From the invariant follow the two contracts below.  `arena_tiled` is about
  callers that ask for sizes from 0 to `2^31 - 4`.  `call_safe_iff` is about the
  sizes a guest can pass, which the code takes as they come: a negative size, or
  one that wraps when it is rounded up, fits every block and moves its end to or
  in front of its start.
-/
import ParaTos.MemRuns
import ParaTos.Tiling
import Mathlib.Data.Int.Order.Basic

namespace ParaTos.Mem

open LinkedList Words Tiling

/-! ### The invariant -/

/-- The memory that `Malloc` deals in. -/
def arenaStart : Int := 0x10000
def arenaEnd : Int := memorySz.toNat

/-- The bytes of a block. -/
def span (c : Block) : HalfOpen Int := (c.2.start.toNat, c.2.start.toNat + c.2.size.toInt)

/-- The blocks tile the arena, in multiples of four bytes. -/
structure Tiled (l : List Block) : Prop where
  tiles : Tiles arenaStart arenaEnd (l.map span)
  aligned : ∀ c ∈ l, c.2.start.toNat % 4 = 0 ∧ c.2.size.toInt % 4 = 0

/-- A block inside the arena. -/
structure Inside (c : Block) : Prop where
  start : 0x10000 ≤ c.2.start.toNat
  size : 0 ≤ c.2.size.toInt
  fits : c.2.start.toNat + c.2.size.toInt ≤ 0x1000000

theorem Tiled.inside {l : List Block} (ht : Tiled l) {c : Block} (hc : c ∈ l) : Inside c := by
  have hmem : span c ∈ l.map span := List.mem_map_of_mem hc
  have hlo := ht.tiles.lower _ hmem
  have hord := ht.tiles.order _ hmem
  have hhi := ht.tiles.upper _ hmem
  have hsz : memorySz.toNat = 0x1000000 := rfl
  simp only [span, arenaStart, arenaEnd, hsz] at hlo hord hhi
  constructor <;> omega

theorem Tiled.perm {l l' : List Block} (ht : Tiled l) (hp : l.Perm l') : Tiled l' where
  tiles := ht.tiles.perm (hp.map span)
  aligned := fun c hc => ht.aligned c (hp.mem_iff.mpr hc)

/-- The order of the blocks does not matter. -/
theorem Tiled.reorder {l l' : List Block} (ht : Tiled l) (h : ∀ d, l.count d = l'.count d) :
    Tiled l' := ht.perm (List.perm_iff_count.mpr h)

/-! ### Blocks as intervals -/

theorem span_headPart (c : Block) (n : Int32) :
    span (headPart c n) = (↑c.2.start.toNat, ↑c.2.start.toNat + n.toInt) := rfl

theorem tailPart_extent (p : Ptr) {c : Block} {n : Int32} (hc : Inside c) (hn : 0 ≤ n.toInt)
    (hle : n.toInt ≤ c.2.size.toInt) :
    ((tailPart p c n).2.start.toNat : Int) = c.2.start.toNat + n.toInt ∧
      (tailPart p c n).2.size.toInt = c.2.size.toInt - n.toInt := by
  obtain ⟨hlo, hsize, hhi⟩ := hc
  have hword := toNat_toUInt32_of_nonneg hn
  constructor
  · rw [tailPart, uint32_add (by omega)]
    omega
  · exact int32_sub (by omega) (by omega)

theorem span_tailPart (p : Ptr) {c : Block} {n : Int32} (hc : Inside c) (hn : 0 ≤ n.toInt)
    (hle : n.toInt ≤ c.2.size.toInt) :
    span (tailPart p c n) = (↑c.2.start.toNat + n.toInt, ↑c.2.start.toNat + c.2.size.toInt) := by
  obtain ⟨hstart, hsize⟩ := tailPart_extent p hc hn hle
  rw [span, hstart, hsize]
  congr 1
  omega

/-- In the arena the 32-bit sum of `Touches` does not wrap. -/
theorem touches_iff {a b : Block} (ha : Inside a) : Touches a b ↔ (span a).2 = (span b).1 := by
  obtain ⟨hlo, hsize, hhi⟩ := ha
  have hword := toNat_toUInt32_of_nonneg hsize
  have hadd : (a.2.start + a.2.size.toUInt32).toNat =
      a.2.start.toNat + a.2.size.toUInt32.toNat := uint32_add (by omega)
  rw [Touches, ← UInt32.toNat_inj, hadd, span, span]
  simp only
  omega

theorem span_grow {a b : Block} (ha : Inside a) (hb : Inside b) (ht : Touches a b) :
    span (grow a b) = ((span a).1, (span b).2) := by
  have htouch := (touches_iff ha).mp ht
  obtain ⟨halo, hasize, hahi⟩ := ha
  obtain ⟨hblo, hbsize, hbhi⟩ := hb
  simp only [span] at htouch
  have hsum : (grow a b).2.size.toInt = a.2.size.toInt + b.2.size.toInt :=
    int32_add (by omega) (by omega)
  have hstart : (grow a b).2.start = a.2.start := rfl
  simp only [span, hsum, hstart]
  congr 1
  omega

/-! ### Edits that keep the tiling -/

section Edits

variable {l : List Block} {a b c : Block}

theorem Tiled.cut (ht : Tiled (c :: l)) (p : Ptr) {n : Int32} (hn : 0 ≤ n.toInt)
    (hle : n.toInt ≤ c.2.size.toInt) (hfour : n.toInt % 4 = 0) :
    Tiled (headPart c n :: tailPart p c n :: l) := by
  have hin : Inside c := ht.inside (by simp)
  constructor
  · simp only [List.map_cons, span_headPart, span_tailPart p hin hn hle]
    apply Tiles.split
    · exact ht.tiles
    · omega
    · omega
  · obtain ⟨hstart, hsize⟩ := tailPart_extent p hin hn hle
    have hc := ht.aligned c (by simp)
    intro d hd
    simp only [List.mem_cons] at hd
    rcases hd with rfl | rfl | hd
    · exact ⟨hc.1, hfour⟩
    · omega
    · exact ht.aligned d (by simp [hd])

theorem Tiled.join (ht : Tiled (a :: b :: l)) : Tiled (join a b ++ l) := by
  by_cases htouch : Touches a b
  swap
  · rw [Mem.join, if_neg htouch]
    exact ht
  have ha : Inside a := ht.inside (by simp)
  have hb : Inside b := ht.inside (by simp)
  rw [Mem.join, if_pos htouch]
  constructor
  · have htiles := ht.tiles
    have hseam := (touches_iff ha).mp htouch
    simp only [List.cons_append, List.nil_append, List.map_cons, span_grow ha hb htouch]
    apply @Tiles.join _ _ _ _ _ _ (span a).2
    have hsb : span b = ((span a).2, (span b).2) := by rw [hseam]
    simp only [List.map_cons] at htiles
    rw [hsb] at htiles
    exact htiles
  · have hsize : (grow a b).2.size.toInt = a.2.size.toInt + b.2.size.toInt := by
      have hgrow := span_grow ha hb htouch
      have hseam := (touches_iff ha).mp htouch
      have hstart : (grow a b).2.start = a.2.start := rfl
      simp only [span, Prod.mk.injEq, hstart] at hgrow hseam
      omega
    have haln := ht.aligned a (by simp)
    have hbln := ht.aligned b (by simp)
    intro d hd
    simp only [List.cons_append, List.nil_append, List.mem_cons] at hd
    rcases hd with rfl | hd
    · exact ⟨haln.1, by rw [hsize]; omega⟩
    · exact ht.aligned d (by simp [hd])

theorem Tiled.joinNext {post : List Block} (ht : Tiled (c :: post ++ l)) :
    Tiled ((joinNext c post).1 :: (joinNext c post).2 ++ l) := by
  cases post with
  | nil => exact ht
  | cons d post =>
    have hjoin : Tiled (Mem.join c d ++ (post ++ l)) := Tiled.join ht
    by_cases htouch : Touches c d
    · simpa [Mem.join, Mem.joinNext, htouch] using hjoin
    · simpa [Mem.join, Mem.joinNext, htouch] using hjoin

/-- The first half of `freeBlock`: the block has merged with its successor. -/
theorem Tiled.insertedNext {front post : List Block} {prev : Option Block}
    (ht : Tiled (c :: (front ++ prev.toList ++ post) ++ l)) :
    Tiled ((Mem.joinNext c post).1 :: (Mem.joinNext c post).2 ++ (front ++ prev.toList ++ l)) := by
  apply Tiled.joinNext
  apply ht.reorder
  intro d
  simp only [List.cons_append, List.count_cons, List.count_append]
  omega

theorem Tiled.insertion {free free' : List Block} (hins : Insertion c free free')
    (ht : Tiled (c :: free ++ l)) : Tiled (free' ++ l) := by
  obtain ⟨front, prev, post, -, -, -⟩ := hins
  have hnext := ht.insertedNext
  cases prev with
  | none =>
    apply hnext.reorder
    intro d
    simp only [joinPrev, Option.toList_none, List.cons_append, List.append_nil, List.count_cons,
      List.count_append, List.count_nil]
    omega
  | some p =>
    have hboth : Tiled (p :: (Mem.joinNext c post).1 :: (front ++ (Mem.joinNext c post).2 ++ l)) := by
      apply hnext.reorder
      intro d
      simp only [Option.toList_some, List.cons_append, List.count_cons, List.count_append,
        List.count_nil]
      omega
    apply hboth.join.reorder
    intro d
    simp only [joinPrev, List.count_append]
    omega

section Used

variable {free pre post : List Block} {n : Int32}

/-- A used block on its way to the free list. -/
theorem Tiled.unlinked (ht : Tiled (free ++ (pre ++ c :: post))) :
    Tiled (c :: free ++ (pre ++ post)) := by
  apply ht.reorder
  intro d
  simp only [List.cons_append, List.count_cons, List.count_append]
  omega

/-- The part of a used block that `Mshrink` cuts off, on its way there. -/
theorem Tiled.shrunk (p : Ptr) (ht : Tiled (free ++ (pre ++ c :: post))) (hn : 0 ≤ n.toInt)
    (hle : n ≤ c.2.size) (hfour : n.toInt % 4 = 0) :
    Tiled (tailPart p c n :: free ++ (pre ++ headPart c n :: post)) := by
  have hfront : Tiled (c :: (free ++ (pre ++ post))) := ht.unlinked
  have hcut := hfront.cut p hn (Int32.le_iff_toInt_le.mp hle) hfour
  apply hcut.reorder
  intro d
  simp only [List.cons_append, List.count_cons, List.count_append]
  omega

end Used

end Edits

/-! ### The step lemma -/

/-- A size that `Malloc` and `Mshrink` can round up. -/
def InRange (n : Int32) : Prop := 0 ≤ n.toInt ∧ n.toInt ≤ 2 ^ 31 - 4

instance (n : Int32) : Decidable (InRange n) := inferInstanceAs (Decidable (_ ∧ _))

theorem InRange.roundUp4 {n : Int32} (h : InRange n) :
    0 ≤ (roundUp4 n).toInt ∧ n.toInt ≤ (roundUp4 n).toInt ∧ (Words.roundUp4 n).toInt % 4 = 0 := by
  have hle := le_roundUp4 h.2
  exact ⟨le_trans h.1 hle, hle, roundUp4_dvd n⟩

/-- The calls that keep the tiling: sizes in range, and calls with any other size that
    find no block to cut. -/
def Admissible (L : Lists) : Call → Prop
  | .malloc size => size = -1 ∨ InRange size ∨ L.free = []
  | .mfree _ => True
  | .mshrink block newsiz => InRange newsiz ∨ ∀ c ∈ L.used, c.2.start ≠ block

/-- The size of a call that finds its block. -/
theorem Admissible.inRange {free pre post : List Block} {c : Block} {block : UInt32}
    {newsiz : Int32} (h : Admissible ⟨free, pre ++ c :: post⟩ (.mshrink block newsiz))
    (hc : c.2.start = block) : InRange newsiz := by
  rcases h with h | h
  · exact h
  · exact absurd hc (h c (by simp))

/-- **Every admissible call keeps the tiling.** -/
theorem Tiled.step {L L' : Lists} {c : Call} {r : Reply} (hst : Step L c r L')
    (ht : Tiled (L.free ++ L.used)) (hadm : Admissible L c) : Tiled (L'.free ++ L'.used) := by
  induction hst with
  | largest | outOfMemory | freeUnknown | shrinkUnknown | shrinkTooLarge => exact ht
  | exactFit hsize hfit =>
    apply ht.reorder
    intro d
    simp only [List.count_cons, List.count_append]
    omega
  | @split pre post used c size p hsize hfit hne =>
    have hrange : InRange size := by
      rcases hadm with h | h | h
      · exact absurd h hsize
      · exact h
      · simp at h
    obtain ⟨hnonneg, -, hfour⟩ := hrange.roundUp4
    have hfront : Tiled (c :: (pre ++ post ++ used)) := by
      apply ht.perm
      simp
    have hcut := hfront.cut p hnonneg (Int32.le_iff_toInt_le.mp hfit) hfour
    apply hcut.reorder
    intro d
    simp only [List.count_cons, List.count_append]
    omega
  | @free pre post free free' c block hpre hc hins => exact Tiled.insertion hins ht.unlinked
  | shrinkToNothing _ ih => exact ih ht trivial
  | @shrink free free' pre post c block newsiz p hsiz hpre hc hle hins =>
    have hrange : InRange newsiz := hadm.inRange hc
    obtain ⟨hnonneg, -, hfour⟩ := hrange.roundUp4
    exact Tiled.insertion hins (ht.shrunk p hnonneg hle hfour)

theorem bootLists_tiled : Tiled (bootLists.free ++ bootLists.used) := by
  constructor
  · have hwhole : Tiles arenaStart arenaEnd [(arenaStart, arenaEnd)] := tiles_singleton (by decide)
    have hcut : Tiles arenaStart arenaEnd [(0x10000, 0x10800), (0x10800, 0x1000000)] :=
      Tiles.split hwhole (by decide) (by decide)
    exact hcut.perm (List.Perm.swap _ _ _)
  · decide

/-! ### What the calls of a well-behaved program do -/

/-- The calls whose sizes are in range. -/
def Bounded : Call → Prop
  | .malloc size => size = -1 ∨ InRange size
  | .mfree _ => True
  | .mshrink _ newsiz => InRange newsiz

instance : DecidablePred Bounded
  | .malloc _ => inferInstanceAs (Decidable (_ ∨ _))
  | .mfree _ => inferInstanceAs (Decidable True)
  | .mshrink _ newsiz => inferInstanceAs (Decidable (InRange newsiz))

theorem Bounded.admissible {L : Lists} {c : Call} (h : Bounded c) : Admissible L c := by
  cases c with
  | malloc size =>
    rcases h with h | h
    · exact Or.inl h
    · exact Or.inr (Or.inl h)
  | mfree block => trivial
  | mshrink block newsiz => exact Or.inl h

/-- The byte at `x` belongs to a block of the list. -/
def HasByte (l : List Block) (x : Int) : Prop := ∃ c ∈ l, Covers (span c) x

/-- What is left of a used block after `Mshrink`, which releases it when the new size
    is 0. -/
def remnant (c : Block) (newsiz : Int32) : List Block :=
  if newsiz = 0 then [] else [headPart c (roundUp4 newsiz)]

/-- What a call that succeeds has done: `Malloc` returns the start of a used block that
    was wholly free before, `Mshrink` has moved exactly the tail of its own block to the
    free list and left every other used block alone. -/
def Delivers (L : Lists) : Call → Reply → Lists → Prop
  | .malloc size, .address a, L' =>
    size ≠ -1 → a ≠ 0 → ∃ c ∈ L'.used, c.2.start = a ∧ size.toInt ≤ c.2.size.toInt ∧
      ∀ x, Covers (span c) x → HasByte L.free x
  | .mshrink block newsiz, .status r, L' =>
    0 ≤ r.toInt → ∃ pre c post, L.used = pre ++ c :: post ∧ c.2.start = block ∧
      L'.used = pre ++ remnant c newsiz ++ post ∧
      ∀ x, HasByte L'.free x ↔ HasByte L.free x ∨
        (↑block.toNat + r.toInt ≤ x ∧ x < ↑block.toNat + c.2.size.toInt)
  | _, _, _ => True

theorem hasByte_iff {l : List Block} {x : Int} : HasByte l x ↔ 0 < coverCount (l.map span) x := by
  constructor
  · rintro ⟨c, hc, hx⟩
    exact coverCount_pos (List.mem_map_of_mem hc) hx
  · intro h
    obtain ⟨b, hb, hx⟩ := exists_of_coverCount_pos h
    obtain ⟨c, hc, rfl⟩ := List.mem_map.mp hb
    exact ⟨c, hc, hx⟩

theorem Tiled.hasByte_bounds {l : List Block} (ht : Tiled l) {x : Int} (h : HasByte l x) :
    arenaStart ≤ x ∧ x < arenaEnd := by
  obtain ⟨c, hc, hlo, hhi⟩ := h
  have hmem : span c ∈ l.map span := List.mem_map_of_mem hc
  exact ⟨le_trans (ht.tiles.lower _ hmem) hlo, lt_of_lt_of_le hhi (ht.tiles.upper _ hmem)⟩

/-- What the used blocks lose, the free blocks gain. -/
theorem Tiled.freed {L L' : Lists} {t : HalfOpen Int} (ht : Tiled (L.free ++ L.used))
    (ht' : Tiled (L'.free ++ L'.used)) (hlo : arenaStart ≤ t.1) (hhi : t.2 ≤ arenaEnd)
    (hused : ∀ x, coverCount (L.used.map span) x =
      coverCount (L'.used.map span) x + if Covers t x then 1 else 0) (x : Int) :
    HasByte L'.free x ↔ HasByte L.free x ∨ Covers t x := by
  have hsub : ∀ M : Lists, HasByte M.free x → HasByte (M.free ++ M.used) x := by
    rintro M ⟨c, hc, hx⟩
    exact ⟨c, List.mem_append_left _ hc, hx⟩
  by_cases hin : arenaStart ≤ x ∧ x < arenaEnd
  · have hone := ht.tiles.once x hin.1 hin.2
    have hone' := ht'.tiles.once x hin.1 hin.2
    have hlost := hused x
    rw [List.map_append, coverCount_append] at hone hone'
    rw [hasByte_iff, hasByte_iff]
    by_cases hx : Covers t x
    · simp only [hx, if_true, or_true, iff_true] at hlost ⊢
      omega
    · simp only [hx, if_false, or_false] at hlost ⊢
      omega
  · constructor
    · intro h
      exact absurd (ht'.hasByte_bounds (hsub L' h)) hin
    · rintro (h | h)
      · exact absurd (ht.hasByte_bounds (hsub L h)) hin
      · exact absurd ⟨le_trans hlo h.1, lt_of_lt_of_le h.2 hhi⟩ hin

/-- Replacing a used block by its front part loses the tail. -/
theorem coverCount_remnant {pre post : List Block} {c : Block} {n : Int32} (hn : 0 ≤ n.toInt)
    (hle : n.toInt ≤ c.2.size.toInt) (x : Int) :
    coverCount ((pre ++ c :: post).map span) x =
      coverCount ((pre ++ headPart c n :: post).map span) x +
        if Covers ((↑c.2.start.toNat + n.toInt, (span c).2) : HalfOpen Int) x then 1 else 0 := by
  have hcut : (if Covers (span c) x then 1 else 0) =
      (if Covers ((↑c.2.start.toNat, ↑c.2.start.toNat + n.toInt) : HalfOpen Int) x then 1 else 0) +
        if Covers ((↑c.2.start.toNat + n.toInt, (span c).2) : HalfOpen Int) x then 1 else 0 :=
    cover_split (by omega) (by omega) x
  rw [List.map_append, List.map_append, List.map_cons, List.map_cons, coverCount_append,
    coverCount_append, coverCount_cons, coverCount_cons, span_headPart]
  omega

/-- Every answer to a bounded call is what the caller was promised. -/
theorem Tiled.delivers {L L' : Lists} {c : Call} {r : Reply} (hst : Step L c r L')
    (ht : Tiled (L.free ++ L.used)) (hb : Bounded c) : Delivers L c r L' := by
  have ht' : Tiled (L'.free ++ L'.used) := ht.step hst hb.admissible
  cases hst with
  | largest hr =>
    intro hsize
    exact absurd rfl hsize
  | outOfMemory hsize hnone =>
    intro _ ha
    exact absurd rfl ha
  | @exactFit pre post used c size hsize hfit =>
    intro _ _
    have hrange : InRange size := hb.resolve_left hsize
    refine ⟨c, by simp, rfl, ?_, ?_⟩
    · rw [hfit]
      exact hrange.roundUp4.2.1
    · intro x hx
      exact ⟨c, by simp, hx⟩
  | @split pre post used c size p hsize hfit hne =>
    intro _ _
    have hrange : InRange size := hb.resolve_left hsize
    refine ⟨headPart c (roundUp4 size), by simp, rfl, hrange.roundUp4.2.1, ?_⟩
    intro x hx
    refine ⟨c, by simp, hx.1, lt_of_lt_of_le hx.2 ?_⟩
    have hle := Int32.le_iff_toInt_le.mp hfit
    rw [span_headPart]
    simp only [span]
    omega
  | freeUnknown hnone => trivial
  | free hpre hc hins => trivial
  | @shrinkToNothing L L' block r hfree =>
    cases hfree with
    | freeUnknown hnone =>
      intro hr
      exact absurd hr (by decide)
    | @free pre post free free' c block hpre hc hins =>
      intro _
      refine ⟨pre, c, post, rfl, hc, by simp [remnant], ?_⟩
      have hin : Inside c := ht.inside (by simp)
      obtain ⟨hlo, hsize, hhi⟩ := hin
      have hend : arenaEnd = 0x1000000 := rfl
      have hstart : arenaStart = 0x10000 := rfl
      intro x
      have hfreed := @Tiled.freed _ _ (span c) ht ht' (by simp only [span]; omega)
        (by simp only [span]; omega) (by intro y; simp [coverCount_append, coverCount_cons]; omega) x
      rw [hfreed]
      simp only [Covers, span, hc, tosEOk, Int32.toInt_zero, Int.add_zero]
  | shrinkUnknown hsiz hnone =>
    intro hr
    exact absurd hr (by decide)
  | shrinkTooLarge hsiz hpre hc hlt =>
    intro hr
    exact absurd hr (by decide)
  | @shrink free free' pre post c block newsiz p hsiz hpre hc hle hins =>
    intro _
    obtain ⟨hnonneg, -, -⟩ := InRange.roundUp4 hb
    have hle' := Int32.le_iff_toInt_le.mp hle
    refine ⟨pre, c, post, rfl, hc, by simp [remnant, hsiz], ?_⟩
    have hin : Inside c := ht.inside (by simp)
    obtain ⟨hlo, hsize, hhi⟩ := hin
    have hend : arenaEnd = 0x1000000 := rfl
    have hstart : arenaStart = 0x10000 := rfl
    intro x
    have hfreed := Tiled.freed ht ht' (by simp only; omega) (by simp only [span]; omega)
      (coverCount_remnant hnonneg hle') x
    rw [hfreed]
    simp only [Covers, span, hc]

/-- A run of a program that asks for sizes in range. -/
theorem run_tiled {s₀ : State} (hr₀ : Rep s₀ bootLists) {calls : List Call}
    (hcalls : ∀ c ∈ calls, Bounded c) : ∃ s L, Machine.run step calls s₀ = Except.ok s ∧
      Rep s L ∧ Tiled (L.free ++ L.used) :=
  @Machine.Refines.run_invariant _ _ _ _ _ _ _
    (fun L => Tiled (L.free ++ L.used)) (fun _ c => Bounded c) step_refines
    (fun _ _ _ _ _ _ ht hb hst => ht.step hst hb.admissible) calls _ _ hr₀ bootLists_tiled
    (Machine.Meets.of_forall (fun c hc _ => hcalls c hc) s₀)

/-- **The arena stays tiled**, and every call of a program that asks for sizes in range
    does what it was promised. -/
theorem arena_tiled : ∃ s₀, malloc 0x800 initMemory = Except.ok (0x10000, s₀) ∧
    ∀ calls : List Call, (∀ c ∈ calls, Bounded c) → ∃ s L,
      Machine.run step calls s₀ = Except.ok s ∧ s.lists = Except.ok L ∧
      Tiled (L.free ++ L.used) ∧
      ∀ c, Bounded c → ∃ r s' L', step c s = Except.ok (r, s') ∧ s'.lists = Except.ok L' ∧
        Delivers L c r L' := by
  obtain ⟨s₀, hboot, hr₀⟩ := boot_rep
  refine ⟨s₀, hboot, ?_⟩
  intro calls hcalls
  obtain ⟨s, L, hrun, hr, ht⟩ := run_tiled hr₀ hcalls
  refine ⟨s, L, hrun, hr.read, ht, ?_⟩
  intro c hb
  obtain ⟨r, s', L', hstep, hst, hr'⟩ := step_refines s L hr c
  exact ⟨r, s', L', hstep, hr'.read, ht.delivers hst hb⟩

/-- A run with blocks of size 0 from `Malloc` and from `Mshrink`. -/
theorem arena_tiled_zero_sizes : ∃ s₀ s L, malloc 0x800 initMemory = Except.ok (0x10000, s₀) ∧
    Machine.run step [.malloc 0, .malloc 10, .mshrink 0x10000 0x800, .mfree 0x10000] s₀ =
      Except.ok s ∧ s.lists = Except.ok L ∧ Tiled (L.free ++ L.used) ∧
    ∃ r s' L', step (.malloc 4) s = Except.ok (r, s') ∧ s'.lists = Except.ok L' ∧
      Delivers L (.malloc 4) r L' := by
  obtain ⟨s₀, hboot, hall⟩ := arena_tiled
  obtain ⟨s, L, hrun, hread, ht, hnext⟩ :=
    hall [.malloc 0, .malloc 10, .mshrink 0x10000 0x800, .mfree 0x10000] (by decide)
  exact ⟨s₀, s, L, hboot, hrun, hread, ht, hnext (.malloc 4) (by decide)⟩

/-! ### What the calls of any guest do -/

/-- The sizes of a guest are safe: `Malloc` returns 0 and changes nothing, or the start
    of a used block inside the arena that is large enough; `Mshrink` returns an error
    and changes neither list, or leaves a block between the new size and the old one.
    A size out of range is turned down. -/
def Guards (s : State) (L : Lists) : Call → Reply → State → Lists → Prop
  | .malloc size, .address a, s', L' =>
    size ≠ -1 →
      ((a = 0 ∧ s' = s) ∨
        ∃ c ∈ L'.used, c.2.start = a ∧ Inside c ∧ size.toInt ≤ c.2.size.toInt) ∧
      (¬ InRange size → a = 0 ∧ s' = s)
  | .mshrink block newsiz, .status r, _, L' =>
    (((r = tosEimba ∨ r = tosEgsbf) ∧ L' = L) ∨
      ∃ pre c post rest, L.used = pre ++ c :: post ∧ c.2.start = block ∧
        L'.used = pre ++ rest ++ post ∧
        ((newsiz = 0 ∧ rest = []) ∨
          ∃ d, rest = [d] ∧ d.2.start = block ∧ 0 ≤ d.2.size.toInt ∧ d.2.size ≤ c.2.size ∧
            newsiz.toInt ≤ d.2.size.toInt)) ∧
      (¬ InRange newsiz → (r = tosEimba ∨ r = tosEgsbf) ∧ L' = L)
  | _, _, _, _ => True

/-- What the next call does is safe. -/
def CallSafe (s : State) (c : Call) : Prop :=
  ∃ r s' L L', step c s = Except.ok (r, s') ∧ s.lists = Except.ok L ∧
    s'.lists = Except.ok L' ∧ Guards s L c r s' L'

/-- `Malloc` is given a size in range, or finds the free list empty; `Mshrink` is given
    one, or an address where no used block starts. -/
def Sane (s : State) (c : Call) : Prop := ∃ L, s.lists = Except.ok L ∧ Admissible L c

theorem Tiled.guards {s s' : State} {L L' : Lists} {c : Call} {r : Reply} (hst : Step L c r L')
    (ht : Tiled (L.free ++ L.used)) (hadm : Admissible L c)
    (hsame : ∀ size, c = .malloc size → L' = L → s' = s) : Guards s L c r s' L' := by
  have ht' : Tiled (L'.free ++ L'.used) := ht.step hst hadm
  cases hst with
  | largest hr =>
    intro hsize
    exact absurd rfl hsize
  | outOfMemory hsize hnone =>
    intro _
    have hs := hsame _ rfl rfl
    exact ⟨Or.inl ⟨rfl, hs⟩, fun _ => ⟨rfl, hs⟩⟩
  | @exactFit pre post used c size hsize hfit =>
    intro _
    have hrange : InRange size := by
      rcases hadm with h | h | h
      · exact absurd h hsize
      · exact h
      · simp at h
    refine ⟨Or.inr ⟨c, by simp, rfl, ht'.inside (by simp), ?_⟩, fun h => absurd hrange h⟩
    rw [hfit]
    exact hrange.roundUp4.2.1
  | @split pre post used c size p hsize hfit hne =>
    intro _
    have hrange : InRange size := by
      rcases hadm with h | h | h
      · exact absurd h hsize
      · exact h
      · simp at h
    refine ⟨Or.inr ⟨headPart c (roundUp4 size), by simp, rfl, ht'.inside (by simp), ?_⟩,
      fun h => absurd hrange h⟩
    exact hrange.roundUp4.2.1
  | freeUnknown hnone => trivial
  | free hpre hc hins => trivial
  | @shrinkToNothing L L' block r hfree =>
    cases hfree with
    | freeUnknown hnone => exact ⟨Or.inl ⟨Or.inl rfl, rfl⟩, fun _ => ⟨Or.inl rfl, rfl⟩⟩
    | @free pre post free free' c block hpre hc hins =>
      constructor
      · exact Or.inr ⟨pre, c, post, [], rfl, hc, by simp, Or.inl ⟨rfl, rfl⟩⟩
      · intro h
        exact absurd (by decide) h
  | shrinkUnknown hsiz hnone => exact ⟨Or.inl ⟨Or.inl rfl, rfl⟩, fun _ => ⟨Or.inl rfl, rfl⟩⟩
  | shrinkTooLarge hsiz hpre hc hlt =>
    exact ⟨Or.inl ⟨Or.inr rfl, rfl⟩, fun _ => ⟨Or.inr rfl, rfl⟩⟩
  | @shrink free free' pre post c block newsiz p hsiz hpre hc hle hins =>
    have hrange : InRange newsiz := hadm.inRange hc
    obtain ⟨hnonneg, hge, -⟩ := hrange.roundUp4
    constructor
    · exact Or.inr ⟨pre, c, post, [headPart c (roundUp4 newsiz)], rfl, hc, by simp,
        Or.inr ⟨_, rfl, hc, hnonneg, hle, hge⟩⟩
    · intro h
      exact absurd hrange h

/-- A used or free block does not start at 0. -/
theorem Tiled.start_ne_zero {l : List Block} (ht : Tiled l) {c : Block} (hc : c ∈ l) :
    c.2.start ≠ 0 := by
  intro hzero
  have hstart := (ht.inside hc).start
  rw [hzero] at hstart
  simp at hstart

/-- A size out of range is not turned down where there is a block to cut. -/
theorem Tiled.not_guards {s s' : State} {L L' : Lists} {c : Call} {r : Reply}
    (hst : Step L c r L') (ht : Tiled (L.free ++ L.used)) (hnot : ¬ Admissible L c) :
    ¬ Guards s L c r s' L' := by
  have hround : ∀ n : Int32, ¬ InRange n → (roundUp4 n).toInt ≤ 0 := by
    intro n hn
    apply roundUp4_nonpos
    rw [InRange] at hn
    omega
  cases hst with
  | largest hr => exact absurd (Or.inl rfl) hnot
  | @outOfMemory L size hsize hnone =>
    -- a block that the search passed over would have been large enough
    simp only [Admissible, not_or] at hnot
    obtain ⟨c, hc⟩ := List.exists_mem_of_ne_nil _ hnot.2.2
    have hin : Inside c := ht.inside (List.mem_append_left _ hc)
    have hsmall := hround size hnot.2.1
    refine absurd ?_ (hnone c hc)
    rw [Int32.le_iff_toInt_le]
    exact le_trans hsmall hin.size
  | @exactFit pre post used c size hsize hfit =>
    simp only [Admissible, not_or] at hnot
    intro hg
    exact ht.start_ne_zero (by simp) ((hg hsize).2 hnot.2.1).1
  | @split pre post used c size p hsize hfit hne =>
    simp only [Admissible, not_or] at hnot
    intro hg
    exact ht.start_ne_zero (by simp) ((hg hsize).2 hnot.2.1).1
  | freeUnknown hnone => exact absurd trivial hnot
  | free hpre hc hins => exact absurd trivial hnot
  | shrinkToNothing hfree => exact absurd (Or.inl (by decide)) hnot
  | shrinkUnknown hsiz hnone => exact absurd (Or.inr hnone) hnot
  | @shrinkTooLarge free pre post c block newsiz hsiz hpre hc hlt =>
    simp only [Admissible, not_or] at hnot
    have hsmall := hround newsiz hnot.1
    have hin : Inside c := ht.inside (by simp)
    have hsize := hin.size
    have hlt' := Int32.lt_iff_toInt_lt.mp hlt
    omega
  | @shrink free free' pre post c block newsiz p hsiz hpre hc hle hins =>
    simp only [Admissible, not_or] at hnot
    intro hg
    obtain ⟨herr, hsame⟩ := hg.2 hnot.1
    have hin : Inside c := ht.inside (by simp)
    have hsize := hin.size
    -- an unchanged used list still holds `c`, whose size is not an error code
    simp only [Lists.mk.injEq, List.append_cancel_left_eq, List.cons.injEq, and_true] at hsame
    have hcut : c.2.size = roundUp4 newsiz := by
      rw [← hsame.2]
      rfl
    rw [hcut] at hsize
    rcases herr with h | h
    · rw [h] at hsize
      exact absurd hsize (by decide)
    · rw [h] at hsize
      exact absurd hsize (by decide)

/-- **Which calls are safe**: in every run whose calls were all sane, the next call is
    safe exactly when it is sane too. -/
theorem call_safe_iff {s₀ : State} (hboot : malloc 0x800 initMemory = Except.ok (0x10000, s₀))
    (calls : List Call) (hmeets : Machine.Meets step Sane calls s₀) :
    ∃ s, Machine.run step calls s₀ = Except.ok s ∧ ∀ c, CallSafe s c ↔ Sane s c := by
  have hr₀ : Rep s₀ bootLists := boot_rep_of hboot
  obtain ⟨s, L, hrun, hr, ht⟩ := @Machine.Refines.run_invariant _ _ _ _ _ _ _
    (fun L => Tiled (L.free ++ L.used)) Sane step_refines
    (fun _ _ _ _ _ hr ht hs hst => ht.step hst (hr.exists_lists.mp hs)) calls _ _ hr₀
    bootLists_tiled hmeets
  refine ⟨s, hrun, ?_⟩
  intro c
  have hnext : ∃ r s' L', step c s = Except.ok (r, s') ∧ Step L c r L' ∧ Rep s' L' ∧
      ∀ size, c = .malloc size → L' = L → s' = s := by
    cases c with
    | malloc size =>
      obtain ⟨a, s', L', hcall, hst, hr', hsame⟩ := malloc_spec hr size
      exact ⟨.address a, s', L', by simp [step, hcall], hst, hr', fun _ _ => hsame⟩
    | mfree block =>
      obtain ⟨r, s', L', hcall, hst, hr'⟩ := step_refines s L hr (.mfree block)
      exact ⟨r, s', L', hcall, hst, hr', fun _ h => by cases h⟩
    | mshrink block newsiz =>
      obtain ⟨r, s', L', hcall, hst, hr'⟩ := step_refines s L hr (.mshrink block newsiz)
      exact ⟨r, s', L', hcall, hst, hr', fun _ h => by cases h⟩
  obtain ⟨r, s', L', hcall, hst, hr', hsame⟩ := hnext
  rw [Sane, hr.exists_lists]
  constructor
  · rintro ⟨r₁, s₁, L₁, L₁', hcall₁, hread, hread₁, hg⟩
    rw [hcall] at hcall₁
    cases hcall₁
    rw [hr.read] at hread
    rw [hr'.read] at hread₁
    cases hread
    cases hread₁
    apply Classical.byContradiction
    intro hnot
    exact ht.not_guards hst hnot hg
  · intro hadm
    exact ⟨r, s', L, L', hcall, hr.read, hr'.read, ht.guards hst hadm hsame⟩

/-- The first call of a run. -/
theorem call_safe_iff_first : ∃ s₀ s, malloc 0x800 initMemory = Except.ok (0x10000, s₀) ∧
    Machine.run step [.malloc 8] s₀ = Except.ok s ∧ ∀ c, CallSafe s c ↔ Sane s c := by
  obtain ⟨s₀, hboot, hr₀⟩ := boot_rep
  have hsane : Sane s₀ (.malloc 8) := ⟨bootLists, hr₀.read, Or.inr (Or.inl (by decide))⟩
  obtain ⟨s, hrun, hiff⟩ := call_safe_iff hboot [.malloc 8] ⟨hsane, fun _ _ _ => trivial⟩
  exact ⟨s₀, s, hboot, hrun, hiff⟩

/-- `Malloc(-8)` hands out the address of the free block, as a block of -8 bytes, and
    the free block now begins 8 bytes in front of it. -/
theorem malloc_negative : ∃ s₀ s, malloc 0x800 initMemory = Except.ok (0x10000, s₀) ∧
    malloc (-8) s₀ = Except.ok (0x10800, s) ∧
    s.lists = Except.ok ⟨[(.node 2, ⟨0x107f8, 0xfef808⟩)],
      [(.node 1, ⟨0x10800, -8⟩), (.node 0, ⟨0x10000, 0x800⟩)]⟩ ∧
    ¬ CallSafe s₀ (.malloc (-8)) := by
  refine ⟨_, _, rfl, rfl, rfl, ?_⟩
  rintro ⟨r, s', L, L', hcall, -, -, hg⟩
  cases hcall
  have hzero := ((hg (by decide)).2 (by decide)).1
  exact absurd hzero (by decide)

end ParaTos.Mem
