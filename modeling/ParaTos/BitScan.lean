/-
  ParaTos/BitScan.lean
  ====================
  **Walking the one-bits of a number.**

  `ones w x` lists the one-bits of `x` below `w` in ascending order.  A loop that
  looks at the lowest one-bit and clears it with `x &&& (x - 1)` meets exactly
  these (`scan_lowest`), and a search for the lowest one-bit may throw away any
  number of low bits that are zero (`Lowest.shift`).
  Nothing here names a particular program.
-/
import Mathlib.Data.List.Sort
import Mathlib.Data.Nat.Bitwise
import Mathlib.Data.Nat.Find

namespace ParaTos.BitScan

/-! ### The lowest one-bit -/

/-- Bit `n` is set in `x` and no lower one is. -/
def Lowest (x n : Nat) : Prop := x.testBit n = true ∧ ∀ k < n, x.testBit k = false

theorem exists_lowest {x : Nat} (h : x ≠ 0) : ∃ n, Lowest x n := by
  have hbit : ∃ n, x.testBit n = true := Nat.exists_testBit_of_ne_zero h
  refine ⟨Nat.find hbit, Nat.find_spec hbit, ?_⟩
  intro k hk
  exact Bool.eq_false_iff.mpr (Nat.find_min hbit hk)

theorem Lowest.ne_zero {x n : Nat} (h : Lowest x n) : x ≠ 0 := by
  rintro rfl
  simpa using h.1

theorem Lowest.lt {x n w : Nat} (h : Lowest x n) (hx : x < 2 ^ w) : n < w := by
  by_contra hge
  have hpow : 2 ^ w ≤ 2 ^ n := Nat.pow_le_pow_right (by decide) (not_lt.mp hge)
  simpa [Nat.testBit_lt_two_pow (lt_of_lt_of_le hx hpow)] using h.1

theorem Lowest.mod_eq_zero {x n s : Nat} (h : Lowest x n) (hs : s ≤ n) : x % 2 ^ s = 0 := by
  apply Nat.eq_of_testBit_eq
  intro i
  rw [Nat.testBit_mod_two_pow, Nat.zero_testBit]
  by_cases hi : i < s
  · simp [h.2 i (lt_of_lt_of_le hi hs)]
  · simp [hi]

/-- A number is an odd one with as many zeros behind it as its lowest one-bit says. -/
theorem Lowest.eq_odd {x n : Nat} (h : Lowest x n) : ∃ q, x = 2 ^ n * (2 * q + 1) := by
  have hodd : x / 2 ^ n % 2 = 1 := by simpa [Nat.testBit_eq_decide_div_mod_eq] using h.1
  refine ⟨x / 2 ^ n / 2, ?_⟩
  have hquot : 2 * (x / 2 ^ n / 2) + 1 = x / 2 ^ n := by
    rw [← hodd]
    exact Nat.div_add_mod _ 2
  rw [hquot, Nat.mul_div_cancel' (Nat.dvd_of_mod_eq_zero (h.mod_eq_zero le_rfl))]

/-! ### Searching it -/

/-- Low zeros may be shifted out. -/
theorem Lowest.shift {x n s : Nat} (h : Lowest x n) (hzero : x % 2 ^ s = 0) :
    s ≤ n ∧ Lowest (x / 2 ^ s) (n - s) := by
  have hs : s ≤ n := by
    by_contra hlt
    have hbit : (x % 2 ^ s).testBit n = true := by simp [not_le.mp hlt, h.1]
    simp [hzero] at hbit
  refine ⟨hs, ?_, ?_⟩
  · rw [Nat.testBit_div_two_pow, Nat.sub_add_cancel hs]
    exact h.1
  · intro k hk
    rw [Nat.testBit_div_two_pow]
    exact h.2 _ (by omega)

/-- Low bits that are not all zero hold the lowest one-bit. -/
theorem Lowest.lt_of_mod_ne_zero {x n s : Nat} (h : Lowest x n) (hne : x % 2 ^ s ≠ 0) : n < s := by
  by_contra hge
  exact hne (h.mod_eq_zero (not_lt.mp hge))

/-! ### Clearing it -/

theorem Lowest.testBit_clear {x n : Nat} (h : Lowest x n) (k : Nat) :
    (x &&& (x - 1)).testBit k = (x.testBit k && decide (k ≠ n)) := by
  obtain ⟨q, rfl⟩ := h.eq_odd
  have hpos : 0 < 2 ^ n := Nat.two_pow_pos n
  have hpred : 2 ^ n * (2 * q + 1) - 1 = 2 ^ n * (2 * q) + (2 ^ n - 1) := by
    rw [Nat.mul_add, Nat.mul_one, Nat.add_sub_assoc hpos]
  rw [Nat.testBit_and, hpred, Nat.testBit_two_pow_mul,
    Nat.testBit_two_pow_mul_add _ (Nat.sub_lt hpos Nat.one_pos)]
  rcases Nat.lt_trichotomy k n with hk | rfl | hk
  · simp [not_le.mpr hk]
  · simp
  · obtain ⟨j, rfl⟩ := Nat.exists_eq_add_of_lt hk
    have hlt : ¬n + j + 1 < n := by omega
    have hne : n + j + 1 ≠ n := by omega
    have hsub : n + j + 1 - n = j + 1 := by omega
    have hq : (2 * q + 1) / 2 = q := by omega
    simp [hlt, hne, hsub, Nat.testBit_succ, hq]

/-! ### All one-bits -/

/-- The one-bits of `x` below `w`. -/
def ones (w x : Nat) : List Nat := (List.range w).filter x.testBit

theorem mem_ones {w x n : Nat} : n ∈ ones w x ↔ n < w ∧ x.testBit n = true := by
  simp [ones]

theorem ones_pairwise (w x : Nat) : (ones w x).Pairwise (· < ·) :=
  List.Pairwise.filter _ List.pairwise_lt_range

@[simp] theorem ones_zero (w : Nat) : ones w 0 = [] := by
  simp [ones]

/-- The lowest one-bit comes first, and clearing it leaves the others. -/
theorem Lowest.ones_eq_cons {w x n : Nat} (h : Lowest x n) (hn : n < w) :
    ones w x = n :: ones w (x &&& (x - 1)) := by
  apply List.Pairwise.eq_of_mem_iff (ones_pairwise w x)
  · refine List.pairwise_cons.mpr ⟨?_, ones_pairwise w _⟩
    intro k hk
    rw [mem_ones, h.testBit_clear] at hk
    rcases Nat.lt_trichotomy n k with hlt | rfl | hlt
    · exact hlt
    · simp at hk
    · simp [h.2 k hlt] at hk
  · intro k
    rw [List.mem_cons, mem_ones, mem_ones, h.testBit_clear]
    by_cases hk : k = n
    · subst hk
      simp [hn, h.1]
    · simp [hk]

/-- The numbers that a loop of `k` rounds sees when each round clears the lowest one-bit. -/
def scan : Nat → Nat → List Nat
  | 0, _ => []
  | k + 1, x => x :: scan k (x &&& (x - 1))

/-- With a round for each one-bit the loop meets them all, lowest first. -/
theorem scan_lowest {w : Nat} (k : Nat) :
    ∀ x < 2 ^ w, (ones w x).length = k → List.Forall₂ Lowest (scan k x) (ones w x) := by
  induction k with
  | zero =>
    intro x _ hk
    rw [List.length_eq_zero_iff.mp hk]
    exact List.Forall₂.nil
  | succ k ih =>
    intro x hx hk
    have hne : x ≠ 0 := by
      rintro rfl
      simp at hk
    obtain ⟨n, hn⟩ := exists_lowest hne
    have hcons := hn.ones_eq_cons (hn.lt hx)
    rw [hcons, List.length_cons] at hk
    rw [scan, hcons]
    exact List.Forall₂.cons hn (ih _ (lt_of_le_of_lt Nat.and_le_left hx) (Nat.succ.inj hk))

end ParaTos.BitScan
