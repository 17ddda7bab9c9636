/-
  ParaTos/Words.lean
  ==================
  **32-bit words as numbers.**

  C computes with `uint32_t` and `int32_t`, which Lean has as `UInt32` and
  `Int32`.  The lemmas here say what their operations are on numbers as long as
  nothing wraps, how a signed word converts to an unsigned one, and what the
  usual rounding `(n + 3) & ~3` does to a number.
-/
import Mathlib.Logic.Basic
import Mathlib.Algebra.Group.Nat.Defs
import Mathlib.Algebra.Group.Int.Defs
import Mathlib.Order.Basic

namespace ParaTos.Words

theorem uint32_add {a b : UInt32} (h : a.toNat + b.toNat < 2 ^ 32) :
    (a + b).toNat = a.toNat + b.toNat := by
  rw [UInt32.toNat_add]
  omega

theorem int32_add {a b : Int32} (hlo : -2 ^ 31 ≤ a.toInt + b.toInt)
    (hhi : a.toInt + b.toInt < 2 ^ 31) : (a + b).toInt = a.toInt + b.toInt := by
  rw [Int32.toInt_add]
  apply Int.bmod_eq_of_le <;> omega

theorem int32_sub {a b : Int32} (hlo : -2 ^ 31 ≤ a.toInt - b.toInt)
    (hhi : a.toInt - b.toInt < 2 ^ 31) : (a - b).toInt = a.toInt - b.toInt := by
  rw [Int32.toInt_sub]
  apply Int.bmod_eq_of_le <;> omega

/-- Whatever wraps, sums and differences are right modulo half the range. -/
theorem int32_add_mod (a b : Int32) : (a + b).toInt % 2 ^ 31 = (a.toInt + b.toInt) % 2 ^ 31 := by
  rw [Int32.toInt_add, Int.bmod_def]
  split <;> omega

theorem int32_sub_mod (a b : Int32) : (a - b).toInt % 2 ^ 31 = (a.toInt - b.toInt) % 2 ^ 31 := by
  rw [Int32.toInt_sub, Int.bmod_def]
  split <;> omega

/-- A signed word read as an unsigned one. -/
theorem toNat_toUInt32 (a : Int32) : a.toUInt32.toNat = (a.toInt % 2 ^ 32).toNat := by
  have hlt := a.toUInt32.toNat_lt
  have hbits : a.toInt = a.toUInt32.toBitVec.toInt := rfl
  rw [hbits, BitVec.toInt_eq_toNat_cond]
  simp only [UInt32.toNat_toBitVec]
  split <;> omega

/-- An address moved by a signed word. -/
theorem uint32_add_toUInt32 (a : UInt32) (n : Int32) :
    ((a + n.toUInt32).toNat : Int) = (a.toNat + n.toInt) % 2 ^ 32 := by
  have hn := toNat_toUInt32 n
  rw [UInt32.toNat_add, hn]
  omega

theorem toNat_toUInt32_of_nonneg {a : Int32} (h : 0 ≤ a.toInt) :
    (a.toUInt32.toNat : Int) = a.toInt := by
  have hlt := a.toInt_lt
  rw [toNat_toUInt32]
  omega

/-- Clearing the two low bits rounds down to a multiple of four. -/
theorem bitVec_and_not_three (v : BitVec 32) :
    (v &&& ~~~3#32).toNat = v.toNat - v.toNat % 4 := by
  have hdisjoint : (v &&& ~~~3#32) &&& (v &&& 3#32) = 0#32 := by
    ext i hi
    simp only [BitVec.getElem_and, BitVec.getElem_not, BitVec.getElem_zero]
    cases v[i] <;> cases (3#32)[i] <;> rfl
  have hsum : (v &&& ~~~3#32) + (v &&& 3#32) = v := by
    rw [BitVec.add_eq_or_of_and_eq_zero _ _ hdisjoint]
    ext i hi
    simp only [BitVec.getElem_or, BitVec.getElem_and, BitVec.getElem_not]
    cases v[i] <;> cases (3#32)[i] <;> rfl
  have hlow : (v &&& 3#32).toNat = v.toNat % 4 := by
    rw [BitVec.toNat_and]
    exact Nat.and_two_pow_sub_one_eq_mod v.toNat 2
  have hnat := BitVec.toNat_add_of_and_eq_zero hdisjoint
  rw [hsum, hlow] at hnat
  omega

theorem toInt_and_not_three (a : Int32) : (a &&& ~~~3).toInt = a.toInt - a.toInt % 4 := by
  have hbits : ∀ b : Int32, b.toInt = b.toBitVec.toInt := fun _ => rfl
  have hand : (a &&& ~~~3).toBitVec = a.toBitVec &&& ~~~3#32 := rfl
  rw [hbits, hbits, hand, BitVec.toInt_eq_toNat_cond, BitVec.toInt_eq_toNat_cond,
    bitVec_and_not_three]
  have hlt := a.toBitVec.isLt
  split <;> split <;> omega

/-- `(n + 3) & ~3` on `int32_t`. -/
def roundUp4 (n : Int32) : Int32 := (n + 3) &&& ~~~3

theorem roundUp4_dvd (n : Int32) : (roundUp4 n).toInt % 4 = 0 := by
  rw [roundUp4, toInt_and_not_three]
  omega

/-- Rounding up does not wrap below `2^31 - 3`. -/
theorem roundUp4_toInt {n : Int32} (h : n.toInt ≤ 2 ^ 31 - 4) :
    (roundUp4 n).toInt = n.toInt + 3 - (n.toInt + 3) % 4 := by
  have hlo := n.le_toInt
  have hadd : (n + 3).toInt = n.toInt + 3 := int32_add (by simp; omega) (by simp; omega)
  rw [roundUp4, toInt_and_not_three, hadd]

theorem le_roundUp4 {n : Int32} (h : n.toInt ≤ 2 ^ 31 - 4) : n.toInt ≤ (roundUp4 n).toInt := by
  rw [roundUp4_toInt h]
  omega

/-- The three largest words wrap to the smallest one. -/
theorem roundUp4_wrap {n : Int32} (h : 2 ^ 31 - 4 < n.toInt) :
    (roundUp4 n).toInt = -2 ^ 31 := by
  have hhi := n.toInt_lt
  have hadd : (n + 3).toInt = n.toInt + 3 - 2 ^ 32 := by
    have h3 : (3 : Int32).toInt = 3 := rfl
    rw [Int32.toInt_add, h3, Int.bmod_def]
    split <;> omega
  rw [roundUp4, toInt_and_not_three, hadd]
  omega

/-- A negative number, and one that wraps, rounds to a word that is not positive. -/
theorem roundUp4_nonpos {n : Int32} (h : n.toInt < 0 ∨ 2 ^ 31 - 4 < n.toInt) :
    (roundUp4 n).toInt ≤ 0 := by
  rcases h with h | h
  · rw [roundUp4_toInt (by omega)]
    omega
  · rw [roundUp4_wrap h]
    omega

end ParaTos.Words
