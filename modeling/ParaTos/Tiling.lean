/-
  ParaTos/Tiling.lean
  ===================
  **Lists of intervals that tile a range.**

  Half-open intervals of a linear order.  A list of them *tiles* `[lo, hi)` when
  every point of the range lies in exactly one of them and none reaches outside.
  Cutting an interval in two and joining two that touch keep a tiling a tiling,
  whatever else is in the list; that is all an allocator does to its blocks.

  A list is *canonical* when it is ascending, without empty intervals, and with
  a gap between any two neighbours; the only canonical tiling of a range is the
  range itself (`Tiles.eq_singleton`).
-/
import Mathlib.Order.Lattice
import Mathlib.Data.List.Count
import Mathlib.Data.List.Chain

namespace ParaTos.Tiling

variable {α : Type*} [LinearOrder α]

/-- The half-open interval from the first component to the second. -/
abbrev HalfOpen (α : Type*) := α × α

/-- `x` lies in the interval. -/
def Covers (b : HalfOpen α) (x : α) : Prop := b.1 ≤ x ∧ x < b.2

instance (b : HalfOpen α) (x : α) : Decidable (Covers b x) := by
  unfold Covers
  infer_instance

/-- In how many members of the list `x` lies. -/
def coverCount (l : List (HalfOpen α)) (x : α) : Nat := l.countP fun b => decide (Covers b x)

/-- The intervals of `l` tile `[lo, hi)`. -/
structure Tiles (lo hi : α) (l : List (HalfOpen α)) : Prop where
  lower : ∀ b ∈ l, lo ≤ b.1
  order : ∀ b ∈ l, b.1 ≤ b.2
  upper : ∀ b ∈ l, b.2 ≤ hi
  once : ∀ x, lo ≤ x → x < hi → coverCount l x = 1

/-! ### Counting -/

@[simp] theorem coverCount_nil (x : α) : coverCount [] x = 0 := rfl

theorem coverCount_cons (b : HalfOpen α) (l : List (HalfOpen α)) (x : α) :
    coverCount (b :: l) x = coverCount l x + if Covers b x then 1 else 0 := by
  simp [coverCount, List.countP_cons]

theorem coverCount_append (l₁ l₂ : List (HalfOpen α)) (x : α) :
    coverCount (l₁ ++ l₂) x = coverCount l₁ x + coverCount l₂ x := List.countP_append

theorem coverCount_perm {l₁ l₂ : List (HalfOpen α)} (hp : l₁.Perm l₂) (x : α) :
    coverCount l₁ x = coverCount l₂ x := hp.countP_eq _

/-- An interval cut at `m` covers a point as often as its two halves do. -/
theorem cover_split {a m b : α} (ham : a ≤ m) (hmb : m ≤ b) (x : α) :
    (if Covers (a, b) x then 1 else 0) =
      (if Covers (a, m) x then 1 else 0) + if Covers (m, b) x then 1 else 0 := by
  by_cases hx : x < m
  · have hl : Covers (a, b) x ↔ Covers (a, m) x :=
      ⟨fun h => ⟨h.1, hx⟩, fun h => ⟨h.1, lt_of_lt_of_le hx hmb⟩⟩
    have hr : ¬ Covers (m, b) x := fun h => absurd h.1 (not_le.mpr hx)
    simp [hl, hr]
  · have hm : m ≤ x := not_lt.mp hx
    have hl : ¬ Covers (a, m) x := fun h => hx h.2
    have hr : Covers (a, b) x ↔ Covers (m, b) x :=
      ⟨fun h => ⟨hm, h.2⟩, fun h => ⟨le_trans ham hm, h.2⟩⟩
    simp [hl, hr]

theorem coverCount_split {a m b : α} (ham : a ≤ m) (hmb : m ≤ b) (l : List (HalfOpen α)) (x : α) :
    coverCount ((a, b) :: l) x = coverCount ((a, m) :: (m, b) :: l) x := by
  rw [coverCount_cons, coverCount_cons, coverCount_cons, cover_split ham hmb x]
  omega

/-- A member that covers `x` is counted. -/
theorem coverCount_pos {b : HalfOpen α} {l : List (HalfOpen α)} (hb : b ∈ l) {x : α}
    (hx : Covers b x) : 0 < coverCount l x :=
  List.countP_pos_iff.mpr ⟨b, hb, decide_eq_true hx⟩

theorem exists_of_coverCount_pos {l : List (HalfOpen α)} {x : α} (h : 0 < coverCount l x) :
    ∃ b ∈ l, Covers b x := by
  obtain ⟨b, hb, hx⟩ := List.countP_pos_iff.mp h
  exact ⟨b, hb, of_decide_eq_true hx⟩

/-! ### Edits that keep a tiling -/

section Edits

variable {lo hi : α} {l l₁ l₂ : List (HalfOpen α)}

theorem Tiles.perm (ht : Tiles lo hi l₁) (hp : l₁.Perm l₂) : Tiles lo hi l₂ where
  lower := fun b hb => ht.lower b (hp.mem_iff.mpr hb)
  order := fun b hb => ht.order b (hp.mem_iff.mpr hb)
  upper := fun b hb => ht.upper b (hp.mem_iff.mpr hb)
  once := fun x h₁ h₂ => by rw [← coverCount_perm hp]; exact ht.once x h₁ h₂

/-- Cutting a member of a tiling at a point inside it. -/
theorem Tiles.split {a m b : α} (ht : Tiles lo hi ((a, b) :: l)) (ham : a ≤ m) (hmb : m ≤ b) :
    Tiles lo hi ((a, m) :: (m, b) :: l) := by
  have hlo : lo ≤ a := ht.lower (a, b) (by simp)
  have hhi : b ≤ hi := ht.upper (a, b) (by simp)
  refine ⟨?_, ?_, ?_, ?_⟩
  · intro c hc
    simp only [List.mem_cons] at hc
    rcases hc with rfl | rfl | hc
    · exact hlo
    · exact le_trans hlo ham
    · exact ht.lower c (by simp [hc])
  · intro c hc
    simp only [List.mem_cons] at hc
    rcases hc with rfl | rfl | hc
    · exact ham
    · exact hmb
    · exact ht.order c (by simp [hc])
  · intro c hc
    simp only [List.mem_cons] at hc
    rcases hc with rfl | rfl | hc
    · exact le_trans hmb hhi
    · exact hhi
    · exact ht.upper c (by simp [hc])
  · intro x h₁ h₂
    rw [← coverCount_split ham hmb]
    exact ht.once x h₁ h₂

/-- Joining two members of a tiling that touch. -/
theorem Tiles.join {a m b : α} (ht : Tiles lo hi ((a, m) :: (m, b) :: l)) :
    Tiles lo hi ((a, b) :: l) := by
  have ham : a ≤ m := ht.order (a, m) (by simp)
  have hmb : m ≤ b := ht.order (m, b) (by simp)
  refine ⟨?_, ?_, ?_, ?_⟩
  · intro c hc
    rcases List.mem_cons.mp hc with rfl | hc
    · exact ht.lower (a, m) (by simp)
    · exact ht.lower c (by simp [hc])
  · intro c hc
    rcases List.mem_cons.mp hc with rfl | hc
    · exact le_trans ham hmb
    · exact ht.order c (by simp [hc])
  · intro c hc
    rcases List.mem_cons.mp hc with rfl | hc
    · exact ht.upper (m, b) (by simp)
    · exact ht.upper c (by simp [hc])
  · intro x h₁ h₂
    rw [coverCount_split ham hmb]
    exact ht.once x h₁ h₂

/-- The whole range, as one interval. -/
theorem tiles_singleton (h : lo ≤ hi) : Tiles lo hi [(lo, hi)] where
  lower := by simp
  order := by simpa using h
  upper := by simp
  once := fun x h₁ h₂ => by simp [coverCount_cons, Covers, h₁, h₂]

/-- A member of one half of a tiling and one of the other lie apart. -/
theorem Tiles.apart {b c : HalfOpen α} (ht : Tiles lo hi (l₁ ++ l₂)) (hb : b ∈ l₁) (hc : c ∈ l₂)
    (hbpos : b.1 < b.2) (hcpos : c.1 < c.2) : b.2 ≤ c.1 ∨ c.2 ≤ b.1 := by
  -- otherwise the later one's first point is counted twice
  have htwice : ∀ x, Covers b x → ¬ Covers c x := by
    intro x hbx hcx
    have hlo : lo ≤ x := le_trans (ht.lower b (List.mem_append_left _ hb)) hbx.1
    have hhi : x < hi := lt_of_lt_of_le hbx.2 (ht.upper b (List.mem_append_left _ hb))
    have hone := ht.once x hlo hhi
    have hbcount := coverCount_pos hb hbx
    have hccount := coverCount_pos hc hcx
    rw [coverCount_append] at hone
    omega
  rcases le_total b.1 c.1 with h | h
  · left
    exact not_lt.mp fun hlt => htwice c.1 ⟨h, hlt⟩ ⟨le_rfl, hcpos⟩
  · right
    exact not_lt.mp fun hlt => htwice b.1 ⟨le_rfl, hbpos⟩ ⟨h, hlt⟩

end Edits

/-! ### Canonical lists -/

/-- Ascending, without empty intervals, and with a gap between neighbours. -/
structure Canonical (l : List (HalfOpen α)) : Prop where
  nonempty : ∀ b ∈ l, b.1 < b.2
  gaps : l.IsChain fun b c => b.2 < c.1

theorem Canonical.of_cons {b : HalfOpen α} {l : List (HalfOpen α)} (hc : Canonical (b :: l)) :
    Canonical l :=
  ⟨fun c hmem => hc.nonempty c (by simp [hmem]), hc.gaps.of_cons⟩

/-- In a canonical list a later interval starts behind an earlier one's end. -/
theorem Canonical.lt_of_mem {b : HalfOpen α} {l : List (HalfOpen α)} (hc : Canonical (b :: l)) :
    ∀ c ∈ l, b.2 < c.1 := by
  induction l generalizing b with
  | nil =>
    intro c hmem
    cases hmem
  | cons d l ih =>
    have hbd : b.2 < d.1 := (List.isChain_cons_cons.mp hc.gaps).1
    have hd : d.1 < d.2 := hc.nonempty d (by simp)
    intro c hmem
    rcases List.mem_cons.mp hmem with rfl | hmem
    · exact hbd
    · exact lt_trans hbd (lt_trans hd (ih hc.of_cons c hmem))

theorem Canonical.pairwise {l : List (HalfOpen α)} (hc : Canonical l) :
    l.Pairwise fun b c => b.2 < c.1 := by
  induction l with
  | nil => exact List.Pairwise.nil
  | cons b l ih => exact List.Pairwise.cons hc.lt_of_mem (ih hc.of_cons)

theorem canonical_iff {l : List (HalfOpen α)} :
    Canonical l ↔ (∀ b ∈ l, b.1 < b.2) ∧ l.Pairwise fun b c => b.2 < c.1 :=
  ⟨fun h => ⟨h.nonempty, h.pairwise⟩, fun h => ⟨h.1, h.2.isChain⟩⟩

theorem Canonical.sublist {l l' : List (HalfOpen α)} (hc : Canonical l) (hs : l'.Sublist l) :
    Canonical l' :=
  canonical_iff.mpr ⟨fun b hb => hc.nonempty b (hs.subset hb), hc.pairwise.sublist hs⟩

section Seams

variable {l₁ l₂ : List (HalfOpen α)} {a b : HalfOpen α}

/-- Two canonical lists with a gap between them. -/
theorem Canonical.link (h₁ : Canonical (l₁ ++ [a])) (h₂ : Canonical (b :: l₂))
    (hgap : a.2 < b.1) : Canonical (l₁ ++ a :: b :: l₂) := by
  have hb : b.1 < b.2 := h₂.nonempty b (by simp)
  have ha : a.1 < a.2 := h₁.nonempty a (by simp)
  obtain ⟨hpre, -, hla⟩ := List.pairwise_append.mp h₁.pairwise
  rw [canonical_iff]
  constructor
  · intro c hc
    simp only [List.mem_append, List.mem_cons] at hc
    rcases hc with hc | rfl | rfl | hc
    · exact h₁.nonempty c (by simp [hc])
    · exact ha
    · exact hb
    · exact h₂.nonempty c (by simp [hc])
  · have hbehind : ∀ c ∈ b :: l₂, a.2 < c.1 := by
      intro c hc
      rcases List.mem_cons.mp hc with rfl | hc
      · exact hgap
      · exact lt_trans hgap (lt_trans hb (h₂.lt_of_mem c hc))
    apply List.pairwise_append.mpr
    refine ⟨hpre, List.Pairwise.cons hbehind h₂.pairwise, ?_⟩
    intro d hd c hc
    have hda : d.2 < a.1 := hla d hd a (by simp)
    rcases List.mem_cons.mp hc with rfl | hc
    · exact hda
    · exact lt_trans hda (lt_trans ha (hbehind c hc))

/-- Two canonical lists, the last interval of one and the first of the other made one. -/
theorem Canonical.merge (h₁ : Canonical (l₁ ++ [a])) (h₂ : Canonical (b :: l₂))
    (hlt : a.1 < b.2) : Canonical (l₁ ++ (a.1, b.2) :: l₂) := by
  obtain ⟨hpre, -, hla⟩ := List.pairwise_append.mp h₁.pairwise
  rw [canonical_iff]
  constructor
  · intro c hc
    simp only [List.mem_append, List.mem_cons] at hc
    rcases hc with hc | rfl | hc
    · exact h₁.nonempty c (by simp [hc])
    · exact hlt
    · exact h₂.nonempty c (by simp [hc])
  · apply List.pairwise_append.mpr
    refine ⟨hpre, List.Pairwise.cons h₂.lt_of_mem h₂.of_cons.pairwise, ?_⟩
    intro d hd c hc
    have hda : d.2 < a.1 := hla d hd a (by simp)
    rcases List.mem_cons.mp hc with rfl | hc
    · exact hda
    · exact lt_trans hda (lt_trans hlt (h₂.lt_of_mem c hc))

end Seams

/-- **A canonical tiling is a single interval.**  The point behind the first
    interval's end lies in no other one, so the first interval must be the whole
    range. -/
theorem Tiles.eq_singleton {lo hi : α} {l : List (HalfOpen α)} (ht : Tiles lo hi l)
    (hc : Canonical l) (hlt : lo < hi) : l = [(lo, hi)] := by
  cases l with
  | nil =>
    have hone := ht.once lo le_rfl hlt
    simp at hone
  | cons b l =>
    have hbehind := hc.lt_of_mem
    have hbpos : b.1 < b.2 := hc.nonempty b (by simp)
    -- `lo` is covered, and only the first interval can start that early
    have hstart : b.1 = lo := by
      obtain ⟨c, hcmem, hcov⟩ :=
        exists_of_coverCount_pos (by rw [ht.once lo le_rfl hlt]; exact Nat.one_pos)
      rcases List.mem_cons.mp hcmem with rfl | hcmem
      · exact le_antisymm hcov.1 (ht.lower c (by simp))
      · have hbc := hbehind c hcmem
        have hlob := ht.lower b (by simp)
        exact absurd hcov.1 (not_le.mpr (lt_of_le_of_lt hlob (lt_trans hbpos hbc)))
    -- the point right behind the first interval is covered by nothing
    have hend : b.2 = hi := by
      refine le_antisymm (ht.upper b (by simp)) (not_lt.mp ?_)
      intro hgap
      have hlo : lo ≤ b.2 := le_trans (ht.lower b (by simp)) hbpos.le
      obtain ⟨c, hcmem, hcov⟩ :=
        exists_of_coverCount_pos (by rw [ht.once b.2 hlo hgap]; exact Nat.one_pos)
      rcases List.mem_cons.mp hcmem with rfl | hcmem
      · exact absurd hcov.2 (lt_irrefl _)
      · exact absurd hcov.1 (not_le.mpr (hbehind c hcmem))
    have hnil : l = [] := by
      cases l with
      | nil => rfl
      | cons c l =>
        have hbc := hbehind c (by simp)
        have hcpos := hc.nonempty c (by simp)
        have hup := ht.upper c (by simp)
        rw [hend] at hbc
        exact absurd hup (not_le.mpr (lt_trans hbc hcpos))
    rw [hnil, ← hstart, ← hend]

end ParaTos.Tiling
