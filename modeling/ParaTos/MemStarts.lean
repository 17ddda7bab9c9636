/-
  ParaTos/MemStarts.lean
  ======================
  **Where used blocks start.**

  `Mfree` and `Mshrink` know a block by its start address alone, so no two used
  blocks may share one.  The tiling of `MemTiling.lean` says so only for sizes
  that round up within an `int32_t`.  A size above `2^31 - 4` rounds to `-2^31`,
  and an `Mshrink` to it is obeyed: it leaves the block with that size, and a
  free block that starts `2^31` behind it.

  The arena is far smaller than `2^31`.  Taken modulo `2^31`, the two parts lie
  where an empty and a full part of the block would lie, so the *places* of the
  blocks still tile the arena.  What the upper half of the address space adds is
  counted apart: there, as many blocks start at an address as end at it.
-/
import ParaTos.MemCanonical

namespace ParaTos.Mem

open LinkedList Words Tiling

/-! ### Places -/

/-- The bytes of a block, in either half of the address space. -/
def place (c : Block) : HalfOpen Int :=
  ((c.2.start.toNat : Int) % 2 ^ 31, (c.2.start.toNat : Int) % 2 ^ 31 + c.2.size.toInt % 2 ^ 31)

/-- The address behind a block, as the source computes it. -/
def ending (c : Block) : UInt32 := c.2.start + c.2.size.toUInt32

/-- The place of a block lies in the arena. -/
structure Fits (c : Block) : Prop where
  lower : 0x10000 ≤ (c.2.start.toNat : Int) % 2 ^ 31
  upper : (c.2.start.toNat : Int) % 2 ^ 31 + c.2.size.toInt % 2 ^ 31 ≤ 0x1000000

theorem ending_toNat (c : Block) :
    ((ending c).toNat : Int) = (c.2.start.toNat + c.2.size.toInt) % 2 ^ 32 :=
  uint32_add_toUInt32 c.2.start c.2.size

theorem place_headPart (c : Block) (n : Int32) :
    place (headPart c n) = ((c.2.start.toNat : Int) % 2 ^ 31,
      (c.2.start.toNat : Int) % 2 ^ 31 + n.toInt % 2 ^ 31) := rfl

theorem place_tailPart (p : Ptr) {c : Block} {n : Int32} (hc : Fits c)
    (hle : n.toInt % 2 ^ 31 ≤ c.2.size.toInt % 2 ^ 31) :
    place (tailPart p c n) = ((c.2.start.toNat : Int) % 2 ^ 31 + n.toInt % 2 ^ 31,
      (c.2.start.toNat : Int) % 2 ^ 31 + c.2.size.toInt % 2 ^ 31) := by
  obtain ⟨hlo, hhi⟩ := hc
  have hstart := uint32_add_toUInt32 c.2.start n
  have hsize := int32_sub_mod c.2.size n
  simp only [place, tailPart, hstart, hsize, Prod.mk.injEq]
  omega

theorem place_grow {a b : Block} (ha : Fits a) (hb : Fits b) (ht : Touches a b) :
    (place a).2 = (place b).1 ∧ place (grow a b) = ((place a).1, (place b).2) := by
  obtain ⟨halo, hahi⟩ := ha
  obtain ⟨hblo, hbhi⟩ := hb
  have hseam : ((ending a).toNat : Int) = b.2.start.toNat := congrArg (fun e => (e.toNat : Int)) ht
  rw [ending_toNat] at hseam
  have hmeet : (a.2.start.toNat : Int) % 2 ^ 31 + a.2.size.toInt % 2 ^ 31 =
      b.2.start.toNat % 2 ^ 31 := by omega
  have hsum : (a.2.size + b.2.size).toInt % 2 ^ 31 =
      a.2.size.toInt % 2 ^ 31 + b.2.size.toInt % 2 ^ 31 := by
    rw [int32_add_mod, Int.add_emod]
    exact Int.emod_eq_of_lt (by omega) (by omega)
  refine ⟨hmeet, ?_⟩
  simp only [place, grow, hsum, Prod.mk.injEq, true_and]
  rw [← Int.add_assoc, hmeet]

theorem Fits.grow {a b : Block} (ha : Fits a) (hb : Fits b) (ht : Touches a b) :
    Fits (grow a b) := by
  obtain ⟨-, hplace⟩ := place_grow ha hb ht
  simp only [place, Prod.mk.injEq] at hplace
  constructor
  · rw [hplace.1]
    exact ha.lower
  · rw [hplace.2]
    exact hb.upper

/-! ### Cuts and joins -/

/-- What a memory call does to the blocks of both lists, in any order. -/
inductive Edit (Cut : Block → Int32 → Prop) : List Block → List Block → Prop where
  | perm {l l' : List Block} (hp : l.Perm l') : Edit Cut l l'
  | cut {l : List Block} {c : Block} {n : Int32} (p : Ptr) (hcut : Cut c n) :
      Edit Cut (c :: l) (headPart c n :: tailPart p c n :: l)
  | join {l : List Block} {a b : Block} (ht : Touches a b) :
      Edit Cut (a :: b :: l) (grow a b :: l)
  | trans {l₁ l₂ l₃ : List Block} (h₁ : Edit Cut l₁ l₂) (h₂ : Edit Cut l₂ l₃) : Edit Cut l₁ l₃

section Edits

variable {Cut : Block → Int32 → Prop} {l : List Block} {a b c : Block}

/-- The order of the blocks does not matter. -/
theorem Edit.reorder {l₁ l₂ l₃ : List Block} (h : Edit Cut l₁ l₂)
    (hcount : ∀ d, l₂.count d = l₃.count d) : Edit Cut l₁ l₃ :=
  h.trans (Edit.perm (List.perm_iff_count.mpr hcount))

theorem Edit.of_count {l₁ l₂ : List Block} (hcount : ∀ d, l₁.count d = l₂.count d) :
    Edit Cut l₁ l₂ := Edit.perm (List.perm_iff_count.mpr hcount)

theorem Edit.of_join : Edit Cut (a :: b :: l) (Mem.join a b ++ l) := by
  by_cases htouch : Touches a b
  · rw [Mem.join, if_pos htouch]
    exact Edit.join htouch
  · rw [Mem.join, if_neg htouch]
    exact Edit.perm (List.Perm.refl _)

theorem Edit.of_joinNext {post : List Block} :
    Edit Cut (c :: post ++ l) ((Mem.joinNext c post).1 :: (Mem.joinNext c post).2 ++ l) := by
  cases post with
  | nil => exact Edit.perm (List.Perm.refl _)
  | cons d post =>
    have hjoin : Edit Cut (c :: d :: (post ++ l)) (Mem.join c d ++ (post ++ l)) := Edit.of_join
    by_cases htouch : Touches c d
    · simpa [Mem.join, Mem.joinNext, htouch] using hjoin
    · simpa [Mem.join, Mem.joinNext, htouch] using hjoin

theorem Edit.of_insertion {free free' : List Block} (hins : Insertion c free free') :
    Edit Cut (c :: free ++ l) (free' ++ l) := by
  obtain ⟨front, prev, post, -, -, -⟩ := hins
  have hnext : Edit Cut (c :: (front ++ prev.toList ++ post) ++ l)
      ((Mem.joinNext c post).1 :: (Mem.joinNext c post).2 ++ (front ++ prev.toList ++ l)) := by
    refine Edit.trans (Edit.of_count ?_) Edit.of_joinNext
    intro d
    simp only [List.cons_append, List.count_cons, List.count_append]
    omega
  cases prev with
  | none =>
    apply hnext.reorder
    intro d
    simp only [joinPrev, Option.toList_none, List.cons_append, List.append_nil, List.count_cons,
      List.count_append, List.count_nil]
    omega
  | some p =>
    have hboth : Edit Cut (c :: (front ++ [p] ++ post) ++ l)
        (p :: (Mem.joinNext c post).1 :: (front ++ (Mem.joinNext c post).2 ++ l)) := by
      apply hnext.reorder
      intro d
      simp only [Option.toList_some, List.cons_append, List.count_cons, List.count_append,
        List.count_nil]
      omega
    apply (hboth.trans Edit.of_join).reorder
    intro d
    simp only [joinPrev, List.count_append]
    omega

/-- **A memory call cuts and joins blocks**, and does nothing else to them. -/
theorem Step.edit {L L' : Lists} {c : Call} {r : Reply} (hst : Step L c r L')
    (hmalloc : ∀ size, c = .malloc size → ∀ d ∈ L.free, roundUp4 size ≤ d.2.size →
      Cut d (roundUp4 size))
    (hshrink : ∀ block newsiz, c = .mshrink block newsiz → ∀ d ∈ L.used, newsiz ≠ 0 →
      roundUp4 newsiz ≤ d.2.size → Cut d (roundUp4 newsiz)) :
    Edit Cut (L.free ++ L.used) (L'.free ++ L'.used) := by
  induction hst with
  | largest | outOfMemory | freeUnknown | shrinkUnknown | shrinkTooLarge =>
    exact Edit.perm (List.Perm.refl _)
  | exactFit hsize hfit =>
    apply Edit.of_count
    intro d
    simp only [List.count_cons, List.count_append]
    omega
  | @split pre post used c size p hsize hfit hne =>
    have hfront : Edit Cut (pre ++ c :: post ++ used) (c :: (pre ++ post ++ used)) :=
      Edit.perm (by simp)
    have hcut := hmalloc size rfl c (by simp) hfit
    apply (hfront.trans (Edit.cut p hcut)).reorder
    intro d
    simp only [List.count_cons, List.count_append]
    omega
  | @free pre post free free' c block hpre hc hins =>
    refine Edit.trans (Edit.of_count ?_) (Edit.of_insertion hins)
    intro d
    simp only [List.cons_append, List.count_cons, List.count_append]
    omega
  | shrinkToNothing _ ih =>
    exact ih (fun _ h => by cases h) (fun _ _ h => by cases h)
  | @shrink free free' pre post c block newsiz p hsiz hpre hc hle hins =>
    have hfront : Edit Cut (free ++ (pre ++ c :: post)) (c :: (free ++ (pre ++ post))) := by
      apply Edit.of_count
      intro d
      simp only [List.count_cons, List.count_append]
      omega
    have hcut := hshrink block newsiz rfl c (by simp) hsiz hle
    refine Edit.trans (Edit.reorder (hfront.trans (Edit.cut p hcut)) ?_) (Edit.of_insertion hins)
    intro d
    simp only [List.cons_append, List.count_cons, List.count_append]
    omega

end Edits

/-! ### The invariant -/

/-- The places of the blocks tile the arena. -/
def Laid (l : List Block) : Prop := Tiles arenaStart arenaEnd (l.map place)

/-- In the upper half of the address space as many blocks start at an address as end
    there. -/
def Closed (l : List Block) : Prop := ∀ e : UInt32, 2 ^ 31 ≤ e.toNat →
  l.countP (fun c => c.2.start = e) = l.countP fun c => ending c = e

/-- A free block in the upper half has no bytes that `Malloc` could hand out. -/
def Spare (c : Block) : Prop :=
  c.2.start.toNat < 2 ^ 31 ∨ -2 ^ 31 < c.2.size.toInt ∧ c.2.size.toInt ≤ 0

/-- A used block starts in the lower half.  It has bytes, or an `Mshrink` to `-2^31` has
    taken them all. -/
structure InUse (c : Block) : Prop where
  start : c.2.start.toNat < 2 ^ 31
  size : 0 < c.2.size.toInt ∨ c.2.size.toInt = -2 ^ 31

/-- What every call keeps, whatever `Mshrink` rounds to. -/
structure Settled (L : Lists) : Prop where
  laid : Laid (L.free ++ L.used)
  closed : Closed (L.free ++ L.used)
  spare : ∀ c ∈ L.free, Spare c
  inUse : ∀ c ∈ L.used, InUse c

theorem Laid.fits {l : List Block} (h : Laid l) {c : Block} (hc : c ∈ l) : Fits c := by
  have hmem : place c ∈ l.map place := List.mem_map_of_mem hc
  have hlo := h.lower _ hmem
  have hhi := h.upper _ hmem
  have hsz : memorySz.toNat = 0x1000000 := rfl
  simp only [place, arenaStart, arenaEnd, hsz] at hlo hhi
  constructor <;> omega

/-- The cuts that have a place. -/
def Cuts (c : Block) (n : Int32) : Prop := n.toInt % 2 ^ 31 ≤ c.2.size.toInt % 2 ^ 31

theorem Edit.laid {l l' : List Block} (h : Edit Cuts l l') (hl : Laid l) : Laid l' := by
  induction h with
  | perm hp => exact hl.perm (hp.map place)
  | @cut l c n p hcut =>
    have hfits : Fits c := hl.fits (by simp)
    simp only [Laid, List.map_cons, place_headPart, place_tailPart p hfits hcut]
    have hnonneg : 0 ≤ n.toInt % 2 ^ 31 := by omega
    have hcut' : n.toInt % 2 ^ 31 ≤ c.2.size.toInt % 2 ^ 31 := hcut
    apply Tiles.split
    · exact hl
    · omega
    · omega
  | @join l a b ht =>
    obtain ⟨hseam, hgrow⟩ := place_grow (hl.fits (by simp)) (hl.fits (by simp)) ht
    simp only [Laid, List.map_cons, hgrow]
    apply @Tiles.join _ _ _ _ _ _ (place a).2
    have hb : place b = ((place a).2, (place b).2) := by rw [hseam]
    rw [← hb]
    exact hl
  | trans _ _ ih₁ ih₂ => exact ih₂ (ih₁ hl)

/-- A cut adds one start and one end at the same address. -/
theorem ending_tailPart (p : Ptr) (c : Block) (n : Int32) : ending (tailPart p c n) = ending c := by
  have hsub : (c.2.size - n).toUInt32 = c.2.size.toUInt32 - n.toUInt32 := rfl
  calc ending (tailPart p c n)
      = c.2.start + n.toUInt32 + (c.2.size.toUInt32 - n.toUInt32) := by
        rw [ending, tailPart, hsub]
    _ = ending c := by
        rw [ending]
        grind

/-- A join removes one of each. -/
theorem ending_grow {a b : Block} (ht : Touches a b) : ending (grow a b) = ending b := by
  have hadd : (a.2.size + b.2.size).toUInt32 = a.2.size.toUInt32 + b.2.size.toUInt32 := rfl
  calc ending (grow a b) = a.2.start + (a.2.size.toUInt32 + b.2.size.toUInt32) := by
        rw [ending, grow, ← hadd]
    _ = ending a + b.2.size.toUInt32 := by
        rw [ending, UInt32.add_assoc]
    _ = ending b := by
        rw [show ending a = b.2.start from ht, ending]

theorem Edit.closed {Cut : Block → Int32 → Prop} {l l' : List Block} (h : Edit Cut l l')
    (hl : Closed l) : Closed l' := by
  induction h with
  | perm hp =>
    intro e he
    rw [← hp.countP_eq, ← hp.countP_eq]
    exact hl e he
  | @cut l c n p hcut =>
    intro e he
    have hold := hl e he
    have hmid : ending (headPart c n) = (tailPart p c n).2.start := rfl
    have hfront : (headPart c n).2.start = c.2.start := rfl
    simp only [List.countP_cons, ending_tailPart, hmid, hfront] at hold ⊢
    omega
  | @join l a b ht =>
    intro e he
    have hold := hl e he
    have hseam : ending a = b.2.start := ht
    have hfront : (grow a b).2.start = a.2.start := rfl
    simp only [List.countP_cons, ending_grow ht, hseam, hfront] at hold ⊢
    omega
  | trans _ _ ih₁ ih₂ => exact ih₂ (ih₁ hl)

/-! ### The two lists -/

/-- A free block that `Malloc` can take starts in the lower half. -/
theorem Spare.low {c : Block} (h : Spare c) (hpos : 0 < c.2.size.toInt) :
    c.2.start.toNat < 2 ^ 31 := by
  rcases h with h | h
  · exact h
  · omega

theorem Spare.grow {a b : Block} (ha : Spare a) (hb : Spare b) (hfits : Fits a)
    (ht : Touches a b) (hle : a.2.start ≤ b.2.start) : Spare (grow a b) := by
  by_cases hlow : a.2.start.toNat < 2 ^ 31
  · exact Or.inl hlow
  -- behind an upper block that has a place begins the lower half, so `a` is empty
  obtain ⟨hlo, hhi⟩ := hfits
  have hseam : ((ending a).toNat : Int) = b.2.start.toNat := congrArg (fun e => (e.toNat : Int)) ht
  rw [ending_toNat] at hseam
  have hle' : a.2.start.toNat ≤ b.2.start.toNat := UInt32.le_iff_toNat_le.mp hle
  have hlt := a.2.start.toNat_lt
  obtain ⟨hasize, hasize'⟩ := ha.resolve_left hlow
  have hempty : a.2.size = 0 := by
    apply Int32.toInt_inj.mp
    have hzero : (0 : Int32).toInt = 0 := rfl
    omega
  have hstart : a.2.start.toNat = b.2.start.toNat := by
    rw [hempty] at hseam
    have hzero : (0 : Int32).toInt = 0 := rfl
    omega
  have hgrown : (Mem.grow a b).2.size = b.2.size := by
    simp only [Mem.grow, hempty, Int32.zero_add]
  rw [Spare, hgrown]
  exact Or.inr (hb.resolve_left (by omega))

/-- The blocks of the free list after `freeBlock`: what holds of the old ones and of the
    new one, and is kept when two of them join, holds of all. -/
theorem Insertion.forall {P : Block → Prop} {c : Block} {free free' : List Block}
    (hins : Insertion c free free') (hc : P c) (hfree : ∀ d ∈ free, P d)
    (hgrow : ∀ a b, P a → P b → Touches a b → a.2.start ≤ b.2.start → P (grow a b)) :
    ∀ d ∈ free', P d := by
  obtain ⟨front, prev, post, -, hbefore, hbehind⟩ := hins
  have hfront : ∀ d ∈ front, P d := fun d hd => hfree d (by simp [hd])
  have hprev : ∀ d ∈ prev, P d := fun d hd => hfree d (by simp [Option.mem_def.mp hd])
  have hpost : ∀ d ∈ post, P d := fun d hd => hfree d (by simp [hd])
  have hnext : P (joinNext c post).1 ∧ (joinNext c post).1.2.start = c.2.start ∧
      ∀ d ∈ (joinNext c post).2, P d := by
    cases post with
    | nil => exact ⟨hc, rfl, hpost⟩
    | cons b post =>
      by_cases htouch : Touches c b
      · rw [joinNext, if_pos htouch]
        have hle : c.2.start ≤ b.2.start := hbehind b rfl
        exact ⟨hgrow c b hc (hpost b (by simp)) htouch hle, rfl, fun d hd => hpost d (by simp [hd])⟩
      · rw [joinNext, if_neg htouch]
        exact ⟨hc, rfl, hpost⟩
  obtain ⟨hmid, hstart, hrest⟩ := hnext
  have hjoin : ∀ d ∈ joinPrev prev (joinNext c post).1, P d := by
    cases prev with
    | none =>
      intro d hd
      rw [List.mem_singleton.mp hd]
      exact hmid
    | some a =>
      have ha : P a := hprev a rfl
      intro d hd
      rw [joinPrev, join] at hd
      split at hd
      · have hlt : a.2.start < c.2.start := hbefore a (by simp)
        rw [List.mem_singleton.mp hd]
        apply hgrow a _ ha hmid ‹_›
        rw [hstart]
        exact UInt32.le_of_lt hlt
      · rcases List.mem_cons.mp hd with rfl | hd
        · exact ha
        · rw [List.mem_singleton.mp hd]
          exact hmid
  intro d hd
  simp only [List.mem_append] at hd
  rcases hd with (hd | hd) | hd
  · exact hfront d hd
  · exact hjoin d hd
  · exact hrest d hd

theorem Insertion.spare {c : Block} {free free' : List Block} (hins : Insertion c free free')
    (hfits : Fits c) (hspare : Spare c) (hfree : ∀ b ∈ free, Fits b)
    (hfreeSpare : ∀ b ∈ free, Spare b) : ∀ b ∈ free', Spare b := by
  intro b hb
  have hall := @Insertion.forall (fun b => Fits b ∧ Spare b) c free free' hins
    ⟨hfits, hspare⟩ (fun b hb => ⟨hfree b hb, hfreeSpare b hb⟩)
    (fun a b ha hb ht hle => ⟨ha.1.grow hb.1 ht, ha.2.grow hb.2 ha.1 ht hle⟩)
  exact (hall b hb).2

/-! ### The step lemma -/

/-- The sizes of a guest that asks for no negative number of bytes. -/
def Natural : Call → Prop
  | .malloc size => 0 ≤ size.toInt
  | .mfree _ => True
  | .mshrink _ newsiz => 0 ≤ newsiz.toInt

instance : DecidablePred Natural
  | .malloc size => inferInstanceAs (Decidable (0 ≤ size.toInt))
  | .mfree _ => inferInstanceAs (Decidable True)
  | .mshrink _ newsiz => inferInstanceAs (Decidable (0 ≤ newsiz.toInt))

/-- A `Malloc` whose block takes up bytes: the size rounds to a positive one, or no free
    block is large enough for it. -/
def Advancing (L : Lists) : Call → Prop
  | .malloc size => AtLeastOne size ∨ ∀ c ∈ L.free, ¬ roundUp4 size ≤ c.2.size
  | _ => True

/-- What `Mshrink` makes of a positive size. -/
theorem roundUp4_pos {n : Int32} (h : 0 < n.toInt) :
    0 < (roundUp4 n).toInt ∨ (roundUp4 n).toInt = -2 ^ 31 := by
  by_cases hle : n.toInt ≤ 2 ^ 31 - 4
  · exact Or.inl (AtLeastOne.roundUp4 ⟨h, hle⟩)
  · exact Or.inr (roundUp4_wrap (by omega))

theorem Natural.pos {block : UInt32} {newsiz : Int32} (h : Natural (.mshrink block newsiz))
    (hne : newsiz ≠ 0) : 0 < newsiz.toInt := by
  have hnonneg : 0 ≤ newsiz.toInt := h
  have hzero : newsiz.toInt ≠ (0 : Int32).toInt := fun heq => hne (Int32.toInt_inj.mp heq)
  have hval : (0 : Int32).toInt = 0 := rfl
  omega

section Cutting

variable {c : Block} {n : Int32}

theorem Cuts.of_size (hn : 0 < n.toInt ∨ n.toInt = -2 ^ 31) (hle : n ≤ c.2.size) : Cuts c n := by
  have hle' := Int32.le_iff_toInt_le.mp hle
  have hlt := c.2.size.toInt_lt
  rw [Cuts]
  omega

theorem Fits.tailPart (p : Ptr) (hc : Fits c) (hcut : Cuts c n) : Fits (tailPart p c n) := by
  have hplace := place_tailPart p hc hcut
  rw [Cuts] at hcut
  obtain ⟨hlo, hhi⟩ := hc
  simp only [place, Prod.mk.injEq] at hplace
  constructor <;> omega

/-- The part behind a cut of at least one byte. -/
theorem spare_tailPart (p : Ptr) (hc : Fits c) (hlow : c.2.start.toNat < 2 ^ 31)
    (hn : 0 < n.toInt) (hle : n ≤ c.2.size) : Spare (tailPart p c n) := by
  obtain ⟨hlo, hhi⟩ := hc
  have hle' := Int32.le_iff_toInt_le.mp hle
  have hlt := c.2.size.toInt_lt
  have hstart : (((Mem.tailPart p c n).2.start).toNat : Int) =
      (c.2.start.toNat + n.toInt) % 2 ^ 32 := uint32_add_toUInt32 c.2.start n
  left
  omega

/-- The part that `Mshrink` cuts off a used block. -/
theorem InUse.spare_tailPart (p : Ptr) (hc : Fits c) (hu : InUse c)
    (hn : 0 < n.toInt ∨ n.toInt = -2 ^ 31) (hle : n ≤ c.2.size) : Spare (tailPart p c n) := by
  rcases hn with hn | hn
  · exact Mem.spare_tailPart p hc hu.start hn hle
  · have hlt := c.2.size.toInt_lt
    have hsize : (Mem.tailPart p c n).2.size.toInt = (c.2.size.toInt - n.toInt).bmod (2 ^ 32) :=
      Int32.toInt_sub c.2.size n
    rw [hn, Int.bmod_def] at hsize
    right
    rcases hu.size with hpos | hneg
    · split at hsize <;> omega
    · split at hsize <;> omega

end Cutting

theorem Step.edit_cuts {L L' : Lists} {c : Call} {r : Reply} (hst : Step L c r L')
    (hnat : Natural c) (hadv : Advancing L c) :
    Edit Cuts (L.free ++ L.used) (L'.free ++ L'.used) := by
  apply hst.edit
  · rintro size rfl d hd hle
    have hone : AtLeastOne size := by
      rcases hadv with hone | hnone
      · exact hone
      · exact absurd hle (hnone d hd)
    exact Cuts.of_size (Or.inl hone.roundUp4) hle
  · rintro block newsiz rfl d - hne hle
    exact Cuts.of_size (roundUp4_pos (hnat.pos hne)) hle

/-- **Every call of a guest that asks for no negative size keeps the lists settled**, as
    long as `Malloc` hands out bytes. -/
theorem Settled.step {L L' : Lists} {c : Call} {r : Reply} (h : Settled L) (hst : Step L c r L')
    (hnat : Natural c) (hadv : Advancing L c) : Settled L' := by
  have hedit := hst.edit_cuts hnat hadv
  have hlaid := hedit.laid h.laid
  have hclosed := hedit.closed h.closed
  induction hst with
  | largest | outOfMemory | freeUnknown | shrinkUnknown | shrinkTooLarge => exact h
  | @exactFit pre post used c size hsize hfit =>
    have hle : roundUp4 size ≤ c.2.size := Int32.le_of_eq hfit.symm
    have hone : AtLeastOne size := hadv.resolve_right fun hnone => hnone c (by simp) hle
    have hpos : 0 < c.2.size.toInt := by
      rw [hfit]
      exact hone.roundUp4
    refine ⟨hlaid, hclosed, ?_, ?_⟩
    · intro d hd
      apply h.spare d
      simp only [List.mem_append, List.mem_cons] at hd ⊢
      tauto
    · intro d hd
      rcases List.mem_cons.mp hd with rfl | hd
      · exact ⟨(h.spare d (by simp)).low hpos, Or.inl hpos⟩
      · exact h.inUse d hd
  | @split pre post used c size p hsize hfit hne =>
    have hone : AtLeastOne size := hadv.resolve_right fun hnone => hnone c (by simp) hfit
    have hround : 0 < (roundUp4 size).toInt := hone.roundUp4
    have hpos : 0 < c.2.size.toInt := lt_of_lt_of_le hround (Int32.le_iff_toInt_le.mp hfit)
    have hlow : c.2.start.toNat < 2 ^ 31 := (h.spare c (by simp)).low hpos
    refine ⟨hlaid, hclosed, ?_, ?_⟩
    · intro d hd
      simp only [List.mem_append, List.mem_cons] at hd
      rcases hd with hd | rfl | hd
      · exact h.spare d (by simp [hd])
      · exact spare_tailPart p (h.laid.fits (by simp)) hlow hround hfit
      · exact h.spare d (by simp [hd])
    · intro d hd
      rcases List.mem_cons.mp hd with rfl | hd
      · exact ⟨hlow, Or.inl hround⟩
      · exact h.inUse d hd
  | @free pre post free free' c block hpre hc hinsert =>
    refine ⟨hlaid, hclosed, ?_, ?_⟩
    · exact hinsert.spare (h.laid.fits (by simp)) (Or.inl (h.inUse c (by simp)).start)
        (fun b hb => h.laid.fits (by simp [hb])) h.spare
    · intro d hd
      apply h.inUse d
      simp only [List.mem_append, List.mem_cons] at hd ⊢
      tauto
  | shrinkToNothing _ ih => exact ih h trivial trivial hedit hlaid hclosed
  | @shrink free free' pre post c block newsiz p hsiz hpre hc hle hinsert =>
    have hround := roundUp4_pos (hnat.pos hsiz)
    have hfits : Fits c := h.laid.fits (by simp)
    have hu : InUse c := h.inUse c (by simp)
    refine ⟨hlaid, hclosed, ?_, ?_⟩
    · exact hinsert.spare (hfits.tailPart p (Cuts.of_size hround hle))
        (hu.spare_tailPart p hfits hround hle) (fun b hb => h.laid.fits (by simp [hb])) h.spare
    · intro d hd
      simp only [List.mem_append, List.mem_cons] at hd
      rcases hd with hd | rfl | hd
      · exact h.inUse d (by simp [hd])
      · exact ⟨hu.start, hround⟩
      · exact h.inUse d (by simp [hd])

/-! ### The start addresses -/

/-- A count of a disjunction. -/
theorem countP_le_add {α : Type} {p q r : α → Bool} {l : List α}
    (h : ∀ a ∈ l, p a → q a ∨ r a) : l.countP p ≤ l.countP q + l.countP r := by
  induction l with
  | nil => simp
  | cons a l ih =>
    have htail := ih fun b hb => h b (by simp [hb])
    have hhead : (if p a then 1 else 0) ≤ (if q a then 1 else 0) + (if r a then 1 else 0) := by
      split
      · rcases h a (by simp) ‹_› with hq | hr
        · rw [if_pos hq]
          exact Nat.le_add_right _ _
        · rw [if_pos hr]
          exact Nat.le_add_left _ _
      · exact Nat.zero_le _
    simp only [List.countP_cons]
    omega

section Starts

variable {c : Block} {x e : UInt32}

/-- A block that starts at an upper address ends there, or its place begins with the
    byte below it. -/
theorem Spare.covers (h : Spare c) (he : e.toNat = x.toNat + 2 ^ 31) (hx : x.toNat < 2 ^ 31)
    (hc : c.2.start = e) : ending c = e ∨ Covers (place c) x.toNat := by
  rw [Spare, hc] at h
  obtain ⟨hlo, hhi⟩ := h.resolve_left (by omega)
  by_cases hzero : c.2.size.toInt = 0
  · left
    apply UInt32.toNat_inj.mp
    have hend := ending_toNat c
    rw [hc] at hend
    omega
  · right
    simp only [Covers, place, hc]
    omega

/-- A used block covers the byte it starts at, or ends `2^31` behind it. -/
theorem InUse.covers (h : InUse c) (he : e.toNat = x.toNat + 2 ^ 31)
    (hc : c.2.start = x) : ending c = e ∨ Covers (place c) x.toNat := by
  have hstart := h.start
  rw [hc] at hstart
  rcases h.size with hsize | hsize
  · right
    have hlt := c.2.size.toInt_lt
    simp only [Covers, place, hc]
    omega
  · left
    apply UInt32.toNat_inj.mp
    have hend := ending_toNat c
    rw [hc] at hend
    omega

end Starts

/-- The blocks that start at an address, if each of them ends at `e` or covers a byte. -/
theorem countP_start_le {l : List Block} {x e : UInt32} {y : Int}
    (h : ∀ c ∈ l, c.2.start = x → ending c = e ∨ Covers (place c) y) :
    (l.countP fun c => c.2.start = x) ≤
      (l.countP fun c => ending c = e) + coverCount (l.map place) y := by
  rw [coverCount, List.countP_map]
  apply countP_le_add
  intro c hc heq
  simpa using h c hc (of_decide_eq_true heq)

/-- No used block starts in the upper half. -/
theorem countP_start_upper {l : List Block} (h : ∀ c ∈ l, InUse c) {x : UInt32}
    (hx : 2 ^ 31 ≤ x.toNat) : (l.countP fun c => c.2.start = x) = 0 := by
  rw [List.countP_eq_zero]
  intro c hc heq
  have hlow := (h c hc).start
  rw [of_decide_eq_true heq] at hlow
  exact absurd hlow (Nat.not_lt.mpr hx)

/-- No byte lies in two places. -/
theorem Laid.count_le_one {l : List Block} (h : Laid l) (x : Int) :
    coverCount (l.map place) x ≤ 1 := by
  by_cases hpos : 0 < coverCount (l.map place) x
  · obtain ⟨b, hb, hx⟩ := exists_of_coverCount_pos hpos
    exact le_of_eq (h.once x (le_trans (h.lower b hb) hx.1) (lt_of_lt_of_le hx.2 (h.upper b hb)))
  · omega

/-- **At every address at most one used block starts.** -/
theorem Settled.starts {L : Lists} (h : Settled L) : (L.used.map fun c => c.2.start).Nodup := by
  rw [List.nodup_iff_count]
  intro x
  have hcount : (L.used.map fun c => c.2.start).count x =
      L.used.countP fun c => c.2.start = x := by
    rw [List.count, List.countP_map]
    congr 1
  rw [hcount]
  by_cases hx : x.toNat < 2 ^ 31
  swap
  · have hnone := countP_start_upper h.inUse (Nat.le_of_not_lt hx)
    exact Nat.le_trans (Nat.le_of_eq hnone) (Nat.zero_le 1)
  -- `e` is the address half the address space behind `x`
  obtain ⟨e, he⟩ : ∃ e : UInt32, e.toNat = x.toNat + 2 ^ 31 :=
    ⟨UInt32.ofNat (x.toNat + 2 ^ 31), by simp; omega⟩
  have hused : (L.used.countP fun c => c.2.start = x) ≤
      (L.used.countP fun c => ending c = e) + coverCount (L.used.map place) x.toNat :=
    countP_start_le fun c hc => (h.inUse c hc).covers he
  have hfree : (L.free.countP fun c => c.2.start = e) ≤
      (L.free.countP fun c => ending c = e) + coverCount (L.free.map place) x.toNat :=
    countP_start_le fun c hc => (h.spare c hc).covers he hx
  have hnone := countP_start_upper h.inUse (show 2 ^ 31 ≤ e.toNat by omega)
  have hclosed := h.closed e (by omega)
  have hone := h.laid.count_le_one x.toNat
  simp only [List.countP_append, List.map_append, coverCount_append] at hclosed hone
  omega

/-- No used block starts at the null address. -/
theorem Settled.start_ne_zero {L : Lists} (h : Settled L) {c : Block} (hc : c ∈ L.used) :
    c.2.start ≠ 0 := by
  intro hzero
  have hfits : Fits c := h.laid.fits (by simp [hc])
  have hlo := hfits.lower
  rw [hzero] at hlo
  exact absurd hlo (by decide)

end ParaTos.Mem
