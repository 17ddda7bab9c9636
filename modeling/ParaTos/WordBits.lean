/-
  ParaTos/WordBits.lean
  =====================
  **The bits of 32-bit words, and words as parts of a wider number.**

  `bit v i` is bit `i` of a word; what `&`, `|`, `^`, `~` and the shifts do to it is
  the simp set of this module.  A test `v & 0x100` asks for one bit, and the top bit
  of a number says on which side of half the range it lies (`testBit_top`).

  `signed w n` reads the number `n` as a two's complement number of `w` bits.
  Nothing here names a particular program.
-/
import Mathlib.Data.Nat.Bitwise
import Mathlib.Tactic.Zify

namespace ParaTos.WordBits

/-! ### Bits of a word -/

/-- Bit `i` of a word. -/
def bit (v : UInt32) (i : Nat) : Bool := v.toNat.testBit i

theorem bit_of_ge (v : UInt32) {i : Nat} (h : 32 ≤ i) : bit v i = false := by
  have hpow : 2 ^ 32 ≤ 2 ^ i := Nat.pow_le_pow_right (by decide) h
  exact Nat.testBit_lt_two_pow (lt_of_lt_of_le v.toNat_lt hpow)

theorem ext_bits {v w : UInt32} (h : ∀ i < 32, bit v i = bit w i) : v = w := by
  apply UInt32.toNat_inj.mp
  apply Nat.eq_of_testBit_eq
  intro i
  by_cases hi : i < 32
  · exact h i hi
  · have hge : 32 ≤ i := by omega
    exact (bit_of_ge v hge).trans (bit_of_ge w hge).symm

@[simp] theorem bit_zero (i : Nat) : bit 0 i = false := by simp [bit]

@[simp] theorem bit_and (v w : UInt32) (i : Nat) : bit (v &&& w) i = (bit v i && bit w i) := by
  simp [bit]

@[simp] theorem bit_or (v w : UInt32) (i : Nat) : bit (v ||| w) i = (bit v i || bit w i) := by
  simp [bit]

@[simp] theorem bit_xor (v w : UInt32) (i : Nat) : bit (v ^^^ w) i = (bit v i ^^ bit w i) := by
  simp [bit]

theorem bit_not (v : UInt32) (i : Nat) : bit (~~~v) i = (decide (i < 32) && !bit v i) := by
  have hsub : UInt32.size - 1 - v.toNat = 2 ^ 32 - (v.toNat + 1) := by
    have hsize : UInt32.size = 2 ^ 32 := rfl
    omega
  rw [bit, UInt32.toNat_not, hsub, Nat.testBit_two_pow_sub_succ v.toNat_lt]
  rfl

@[simp] theorem bit_not_of_lt (v : UInt32) {i : Nat} (h : i < 32) : bit (~~~v) i = !bit v i := by
  simp [bit_not, h]

/-- Shifts count modulo 32. -/
@[simp] theorem bit_shiftRight (v k : UInt32) (i : Nat) :
    bit (v >>> k) i = bit v (k.toNat % 32 + i) := by
  simp only [bit, UInt32.toNat_shiftRight, Nat.testBit_shiftRight]

@[simp] theorem bit_shiftLeft (v k : UInt32) (i : Nat) :
    bit (v <<< k) i = (decide (i < 32) && (decide (k.toNat % 32 ≤ i) && bit v (i - k.toNat % 32))) := by
  simp only [bit, UInt32.toNat_shiftLeft, Nat.testBit_mod_two_pow, Nat.testBit_shiftLeft, ge_iff_le]

theorem bit_ofNat (n i : Nat) : bit (UInt32.ofNat n) i = (decide (i < 32) && n.testBit i) := by
  rw [bit, UInt32.toNat_ofNat', Nat.testBit_mod_two_pow]

@[simp] theorem bit_literal (n i : Nat) : bit (no_index (OfNat.ofNat n : UInt32)) i =
    (decide (i < 32) && decide (n / 2 ^ i % 2 = 1)) := by
  rw [← Nat.testBit_eq_decide_div_mod_eq]
  exact bit_ofNat n i

@[simp] theorem bit_toUInt32 (b : Bool) (i : Nat) : bit b.toUInt32 i = (decide (i = 0) && b) := by
  have hb : b.toUInt32.toNat = b.toNat := by cases b <;> rfl
  rw [bit, hb]
  cases b with
  | false => simp
  | true => cases i <;> simp [Nat.testBit_succ]

theorem lt_two_pow_iff {v : UInt32} {n : Nat} :
    v.toNat < 2 ^ n ↔ ∀ i < 32, n ≤ i → bit v i = false := by
  constructor
  · intro hv i _ hi
    exact Nat.testBit_lt_two_pow (lt_of_lt_of_le hv (Nat.pow_le_pow_right (by decide) hi))
  · intro hbits
    refine Nat.lt_pow_two_of_testBit _ fun i hi => ?_
    by_cases hlt : i < 32
    · exact hbits i hlt hi
    · exact bit_of_ge v (by omega)

theorem and_eq_zero_iff {v w : UInt32} :
    v &&& w = 0 ↔ ∀ i < 32, bit w i = true → bit v i = false := by
  constructor
  · intro h i _ hw
    have hbit := bit_and v w i
    rw [h, bit_zero, hw, Bool.and_true] at hbit
    exact hbit.symm
  · intro h
    apply ext_bits
    intro i hi
    rw [bit_and, bit_zero]
    cases hw : bit w i with
    | false => simp
    | true => simp [h i hi hw]

/-- Bit `i` of a 64-bit word. -/
def bit64 (v : UInt64) (i : Nat) : Bool := v.toNat.testBit i

@[simp] theorem bit64_and (v w : UInt64) (i : Nat) :
    bit64 (v &&& w) i = (bit64 v i && bit64 w i) := by
  simp [bit64]

@[simp] theorem bit64_or (v w : UInt64) (i : Nat) :
    bit64 (v ||| w) i = (bit64 v i || bit64 w i) := by
  simp [bit64]

/-- Shifts count modulo 64. -/
@[simp] theorem bit64_shiftRight (v k : UInt64) (i : Nat) :
    bit64 (v >>> k) i = bit64 v (k.toNat % 64 + i) := by
  simp only [bit64, UInt64.toNat_shiftRight, Nat.testBit_shiftRight]

@[simp] theorem bit64_shiftLeft (v k : UInt64) (i : Nat) : bit64 (v <<< k) i =
    (decide (i < 64) && (decide (k.toNat % 64 ≤ i) && bit64 v (i - k.toNat % 64))) := by
  simp only [bit64, UInt64.toNat_shiftLeft, Nat.testBit_mod_two_pow, Nat.testBit_shiftLeft, ge_iff_le]

@[simp] theorem bit64_toUInt64 (v : UInt32) (i : Nat) : bit64 v.toUInt64 i = bit v i := by
  rw [bit64, UInt32.toNat_toUInt64]
  rfl

@[simp] theorem bit_toUInt32_of_64 (v : UInt64) (i : Nat) :
    bit v.toUInt32 i = (decide (i < 32) && bit64 v i) := by
  rw [bit, UInt64.toNat_toUInt32, Nat.testBit_mod_two_pow]
  rfl

/-- One bit of a word. -/
theorem and_two_pow (v : UInt32) {i : Nat} (hi : i < 32) :
    v &&& UInt32.ofNat (2 ^ i) = if bit v i then UInt32.ofNat (2 ^ i) else 0 := by
  have hpow : (UInt32.ofNat (2 ^ i)).toNat = 2 ^ i :=
    UInt32.toNat_ofNat_of_lt' (Nat.pow_lt_pow_right (by decide) hi)
  apply UInt32.toNat_inj.mp
  rw [UInt32.toNat_and, hpow, Nat.and_two_pow]
  change (bit v i).toNat * 2 ^ i = _
  cases bit v i with
  | false => simp
  | true => simp [hpow]

theorem and_two_pow_ne_zero (v : UInt32) {i : Nat} (hi : i < 32) :
    v &&& UInt32.ofNat (2 ^ i) ≠ 0 ↔ bit v i = true := by
  have hpow : (UInt32.ofNat (2 ^ i)).toNat = 2 ^ i :=
    UInt32.toNat_ofNat_of_lt' (Nat.pow_lt_pow_right (by decide) hi)
  have hpos : 0 < 2 ^ i := Nat.two_pow_pos i
  rw [and_two_pow v hi, ne_eq, ← UInt32.toNat_inj]
  cases bit v i with
  | false => simp
  | true => simp [hpow]

/-- The low bits of a word. -/
theorem toNat_and_mask (v : UInt32) {k : Nat} (hk : k ≤ 32) :
    (v &&& UInt32.ofNat (2 ^ k - 1)).toNat = v.toNat % 2 ^ k := by
  have hlt : 2 ^ k - 1 < 2 ^ 32 := by
    have hle : 2 ^ k ≤ 2 ^ 32 := Nat.pow_le_pow_right (by decide) hk
    have hpos : 0 < 2 ^ k := Nat.two_pow_pos k
    omega
  rw [UInt32.toNat_and, UInt32.toNat_ofNat_of_lt' hlt, Nat.and_two_pow_sub_one_eq_mod]

theorem bit_ones {k : Nat} (hk : k ≤ 32) (i : Nat) :
    bit (UInt32.ofNat (2 ^ k - 1)) i = decide (i < k) := by
  rw [bit_ofNat, Nat.testBit_two_pow_sub_one]
  by_cases hi : i < k
  · have hlt : i < 32 := by omega
    simp [hi, hlt]
  · simp [hi]

/-- Setting all bits from `k` up. -/
theorem toNat_or_not_mask (v : UInt32) {k : Nat} (hk : k ≤ 32) :
    (v ||| ~~~UInt32.ofNat (2 ^ k - 1)).toNat = 2 ^ k * (2 ^ (32 - k) - 1) + v.toNat % 2 ^ k := by
  apply Nat.eq_of_testBit_eq
  intro i
  have hmod : v.toNat % 2 ^ k < 2 ^ k := Nat.mod_lt _ (Nat.two_pow_pos k)
  have hor : (v ||| ~~~UInt32.ofNat (2 ^ k - 1)).toNat.testBit i =
      (bit v i || (decide (i < 32) && !(decide (i < 32) && (2 ^ k - 1).testBit i))) := by
    rw [← bit_ofNat, ← bit_not, ← bit_or]
    rfl
  rw [hor, Nat.testBit_two_pow_mul_add _ hmod, Nat.testBit_two_pow_sub_one,
    Nat.testBit_two_pow_sub_one, Nat.testBit_mod_two_pow]
  by_cases hik : i < k
  · have hi : i < 32 := by omega
    simp [hik, hi, bit]
  · by_cases hi : i < 32
    · have hdiff : i - k < 32 - k := by omega
      simp [hik, hi, hdiff]
    · have hdiff : ¬i - k < 32 - k := by omega
      have hge : 32 ≤ i := by omega
      simp [hik, hi, hdiff, bit_of_ge v hge]

/-! ### The top bit -/

/-- Below `2 ^ (i + 1)`, bit `i` says whether a number is at least `2 ^ i`. -/
theorem testBit_top {n i : Nat} (h : n < 2 ^ (i + 1)) : n.testBit i = decide (2 ^ i ≤ n) := by
  rw [Nat.testBit_eq_decide_div_mod_eq]
  have hpos : 0 < 2 ^ i := Nat.two_pow_pos i
  have hquot : n / 2 ^ i < 2 := Nat.div_lt_of_lt_mul (by rwa [Nat.pow_succ] at h)
  have hone : 1 ≤ n / 2 ^ i ↔ 2 ^ i ≤ n := by rw [Nat.le_div_iff_mul_le hpos, Nat.one_mul]
  congr 1
  rw [Nat.mod_eq_of_lt hquot, eq_iff_iff]
  omega

/-- The carry out of `w` bits as a number. -/
theorem toNat_decide_le {n w : Nat} (h : n < 2 ^ (w + 1)) : (decide (2 ^ w ≤ n)).toNat = n / 2 ^ w := by
  have hpos : 0 < 2 ^ w := Nat.two_pow_pos w
  by_cases hle : 2 ^ w ≤ n
  · have hquot : n / 2 ^ w < 2 := Nat.div_lt_of_lt_mul (by rwa [Nat.pow_succ] at h)
    have hone : 0 < n / 2 ^ w := Nat.div_pos hle hpos
    simp only [hle, decide_true, Bool.toNat_true]
    omega
  · simp [hle, Nat.div_eq_of_lt (Nat.lt_of_not_le hle)]

/-! ### Two's complement -/

/-- The number `n` below `2 ^ w` read as a two's complement number of `w` bits. -/
def signed (w n : Nat) : Int := if 2 ^ (w - 1) ≤ n then (n : Int) - 2 ^ w else n

section Signed

variable {w a b m : Nat} {x c : Bool}

theorem two_pow_half (hw : 0 < w) : (2 : Int) ^ w = 2 * 2 ^ (w - 1) := by
  obtain ⟨k, rfl⟩ : ∃ k, w = k + 1 := ⟨w - 1, by omega⟩
  rw [Nat.add_sub_cancel, Int.pow_succ, Int.mul_comm]

/-- The signs tell whether a signed sum fits. -/
theorem signed_add_fits (hw : 0 < w) (ha : a < 2 ^ w) (hb : b < 2 ^ w) (hm : m < 2 ^ w)
    (h : m + 2 ^ w * c.toNat = a + b + x.toNat) :
    ((decide (2 ^ (w - 1) ≤ a) ^^ decide (2 ^ (w - 1) ≤ m)) &&
        (decide (2 ^ (w - 1) ≤ b) ^^ decide (2 ^ (w - 1) ≤ m))) = true ↔
      ¬(-2 ^ (w - 1) ≤ signed w a + signed w b + x.toNat ∧
        signed w a + signed w b + x.toNat < 2 ^ (w - 1)) := by
  have hpow := two_pow_half hw
  unfold signed
  zify at ha hb hm h ⊢
  rw [hpow] at ha hb hm h ⊢
  generalize (2 : Int) ^ (w - 1) = half at *
  by_cases hga : half ≤ (a : Int) <;> by_cases hgb : half ≤ (b : Int) <;>
    by_cases hgm : half ≤ (m : Int) <;> cases x <;> cases c <;>
    simp [hga, hgb, hgm] at h ⊢ <;> omega

/-- They tell it of a signed difference. -/
theorem signed_sub_fits (hw : 0 < w) (ha : a < 2 ^ w) (hb : b < 2 ^ w) (hm : m < 2 ^ w)
    (h : m + a + x.toNat = b + 2 ^ w * c.toNat) :
    ((decide (2 ^ (w - 1) ≤ a) ^^ decide (2 ^ (w - 1) ≤ b)) &&
        (decide (2 ^ (w - 1) ≤ m) ^^ decide (2 ^ (w - 1) ≤ b))) = true ↔
      ¬(-2 ^ (w - 1) ≤ signed w b - signed w a - x.toNat ∧
        signed w b - signed w a - x.toNat < 2 ^ (w - 1)) := by
  have hpow := two_pow_half hw
  unfold signed
  zify at ha hb hm h ⊢
  rw [hpow] at ha hb hm h ⊢
  generalize (2 : Int) ^ (w - 1) = half at *
  by_cases hga : half ≤ (a : Int) <;> by_cases hgb : half ≤ (b : Int) <;>
    by_cases hgm : half ≤ (m : Int) <;> cases x <;> cases c <;>
    simp [hga, hgb, hgm] at h ⊢ <;> omega

/-- The sign of a difference, corrected by the overflow, compares the signed numbers. -/
theorem signed_lt_iff (hw : 0 < w) (ha : a < 2 ^ w) (hb : b < 2 ^ w) (hm : m < 2 ^ w)
    (h : m + a = b + 2 ^ w * c.toNat) :
    (decide (2 ^ (w - 1) ≤ m) ^^ ((decide (2 ^ (w - 1) ≤ a) ^^ decide (2 ^ (w - 1) ≤ b)) &&
        (decide (2 ^ (w - 1) ≤ m) ^^ decide (2 ^ (w - 1) ≤ b)))) = true ↔
      signed w b < signed w a := by
  have hpow := two_pow_half hw
  unfold signed
  zify at ha hb hm h ⊢
  rw [hpow] at ha hb hm h ⊢
  generalize (2 : Int) ^ (w - 1) = half at *
  by_cases hga : half ≤ (a : Int) <;> by_cases hgb : half ≤ (b : Int) <;>
    by_cases hgm : half ≤ (m : Int) <;> cases c <;> simp [hga, hgb, hgm] at h ⊢ <;> omega

end Signed

end ParaTos.WordBits
