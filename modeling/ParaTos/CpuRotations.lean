/-
  ParaTos/CpuRotations.lean
  =========================
  **Rotations, and all shifts of registers.**

  The rotations put two shifts together, in a word that is wide enough for the operand and
  the extend bit; for long operands that is a 64-bit word.  With them every handler is
  known to leave what single steps would leave, for every count (`shift_steps`), but for
  the carry of a long rotation to the left by 32 places.
-/
import ParaTos.CpuShifts

namespace ParaTos.Cpu

open Shifts WordBits

/-! ### The two shifts of a rotation -/

section Rotations

variable {sz : Size} {a c w : UInt32}

/-- The two shifts of a rotation, below the top of the register. -/
theorem bit_rotate_right (hw : w.toNat < 32) (hc : c.toNat < w.toNat)
    (ha : ∀ i, w.toNat ≤ i → bit a i = false) {i : Nat} (hi : i < w.toNat) :
    bit ((a >>> c) ||| (a <<< (w - c))) i = roundDown w.toNat c.toNat (bit a) i := by
  have hsub : (w - c).toNat = w.toNat - c.toNat := UInt32.toNat_sub_of_le _ _ hc.le
  have hmod : c.toNat % 32 = c.toNat := Nat.mod_eq_of_lt (by omega)
  have hmod' : (w.toNat - c.toNat) % 32 = w.toNat - c.toNat := Nat.mod_eq_of_lt (by omega)
  have hlt : i < 32 := by omega
  rw [bit_or, bit_shiftRight, bit_shiftLeft, hsub, hmod, hmod', roundDown]
  by_cases hin : i + c.toNat < w.toNat
  · have hle : ¬w.toNat - c.toNat ≤ i := by omega
    simp [hi, hin, hle, Nat.add_comm]
  · have hle : w.toNat - c.toNat ≤ i := by omega
    have hplace : i - (w.toNat - c.toNat) = i + c.toNat - w.toNat := by omega
    simp [hi, hin, hle, hlt, hplace, ha (c.toNat + i) (by omega)]

theorem bit_rotate_left (hw : w.toNat < 32) (hc : c.toNat < w.toNat)
    (ha : ∀ i, w.toNat ≤ i → bit a i = false) {i : Nat} (hi : i < w.toNat) :
    bit ((a <<< c) ||| (a >>> (w - c))) i = roundUp w.toNat c.toNat (bit a) i := by
  have hsub : (w - c).toNat = w.toNat - c.toNat := UInt32.toNat_sub_of_le _ _ hc.le
  have hmod : c.toNat % 32 = c.toNat := Nat.mod_eq_of_lt (by omega)
  have hmod' : (w.toNat - c.toNat) % 32 = w.toNat - c.toNat := Nat.mod_eq_of_lt (by omega)
  have hlt : i < 32 := by omega
  rw [bit_or, bit_shiftRight, bit_shiftLeft, hsub, hmod, hmod', roundUp]
  by_cases hin : i < c.toNat
  · have hle : ¬c.toNat ≤ i := by omega
    have hplace : w.toNat - c.toNat + i = i + w.toNat - c.toNat := by omega
    simp [hi, hin, hle, hplace]
  · have hle : c.toNat ≤ i := by omega
    simp [hi, hin, hle, hlt, ha (w.toNat - c.toNat + i) (by omega)]

section Wide

variable {b : UInt64}

theorem bit64_rotate_right (hw : w.toNat < 64) (hc : c.toNat < w.toNat)
    (hb : ∀ i, w.toNat ≤ i → bit64 b i = false) {i : Nat} (hi : i < w.toNat) :
    bit64 ((b >>> c.toUInt64) ||| (b <<< (w - c).toUInt64)) i =
      roundDown w.toNat c.toNat (bit64 b) i := by
  have hsub : (w - c).toNat = w.toNat - c.toNat := UInt32.toNat_sub_of_le _ _ hc.le
  have hmod : c.toNat % 64 = c.toNat := Nat.mod_eq_of_lt (by omega)
  have hmod' : (w.toNat - c.toNat) % 64 = w.toNat - c.toNat := Nat.mod_eq_of_lt (by omega)
  have hlt : i < 64 := by omega
  rw [bit64_or, bit64_shiftRight, bit64_shiftLeft, UInt32.toNat_toUInt64, UInt32.toNat_toUInt64,
    hsub, hmod, hmod', roundDown]
  by_cases hin : i + c.toNat < w.toNat
  · have hle : ¬w.toNat - c.toNat ≤ i := by omega
    simp [hi, hin, hle, Nat.add_comm]
  · have hle : w.toNat - c.toNat ≤ i := by omega
    have hplace : i - (w.toNat - c.toNat) = i + c.toNat - w.toNat := by omega
    simp [hi, hin, hle, hlt, hplace, hb (c.toNat + i) (by omega)]

theorem bit64_rotate_left (hw : w.toNat < 64) (hc : c.toNat < w.toNat)
    (hb : ∀ i, w.toNat ≤ i → bit64 b i = false) {i : Nat} (hi : i < w.toNat) :
    bit64 ((b <<< c.toUInt64) ||| (b >>> (w - c).toUInt64)) i =
      roundUp w.toNat c.toNat (bit64 b) i := by
  have hsub : (w - c).toNat = w.toNat - c.toNat := UInt32.toNat_sub_of_le _ _ hc.le
  have hmod : c.toNat % 64 = c.toNat := Nat.mod_eq_of_lt (by omega)
  have hmod' : (w.toNat - c.toNat) % 64 = w.toNat - c.toNat := Nat.mod_eq_of_lt (by omega)
  have hlt : i < 64 := by omega
  rw [bit64_or, bit64_shiftRight, bit64_shiftLeft, UInt32.toNat_toUInt64, UInt32.toNat_toUInt64,
    hsub, hmod, hmod', roundUp]
  by_cases hin : i < c.toNat
  · have hle : ¬c.toNat ≤ i := by omega
    have hplace : w.toNat - c.toNat + i = i + w.toNat - c.toNat := by omega
    simp [hi, hin, hle, hplace]
  · have hle : c.toNat ≤ i := by omega
    simp [hi, hin, hle, hlt, hb (w.toNat - c.toNat + i) (by omega)]

/-- The shifts by 32, which the macros keep apart, move all bits out. -/
theorem bit64_lsr32 (hc : c.toNat ≤ 32) (hb : ∀ i, 32 ≤ i → bit64 b i = false) (i : Nat) :
    bit64 (lsr32 b c) i = bit64 (b >>> c.toUInt64) i := by
  by_cases hlt : c < 32
  · rw [lsr32, if_pos hlt]
  · have hge : ¬c.toNat < 32 := fun h => hlt (UInt32.lt_iff_toNat_lt.mpr h)
    have hmod : c.toNat % 64 = 32 := by omega
    rw [lsr32, if_neg hlt, bit64_shiftRight, UInt32.toNat_toUInt64, hmod, hb _ (by omega)]
    exact Nat.zero_testBit i

theorem bit64_lsl32 (hc : c.toNat ≤ 32) {i : Nat} (hi : i < 32) :
    bit64 (lsl32 b c) i = bit64 (b <<< c.toUInt64) i := by
  by_cases hlt : c < 32
  · rw [lsl32, if_pos hlt]
  · have hge : ¬c.toNat < 32 := fun h => hlt (UInt32.lt_iff_toNat_lt.mpr h)
    have hmod : c.toNat % 64 = 32 := by omega
    have hle : ¬32 ≤ i := by omega
    rw [lsl32, if_neg hlt, bit64_shiftLeft, UInt32.toNat_toUInt64, hmod, decide_eq_false hle,
      Bool.false_and, Bool.and_false]
    exact Nat.zero_testBit i

theorem bit64_ones (i : Nat) : bit64 0xffffffff i = decide (i < 32) :=
  @Nat.testBit_two_pow_sub_one 32 i

theorem bit_toUInt32_mask (b : UInt64) (i : Nat) :
    bit (b &&& 0xffffffff).toUInt32 i = (decide (i < 32) && bit64 b i) := by
  rw [bit_toUInt32_of_64, bit64_and, bit64_ones]
  by_cases hi : i < 32 <;> simp [hi]

end Wide

theorem bit_rotateRight (hc : c.toNat < sz.bits) (ha : ∀ i, sz.bits ≤ i → bit a i = false)
    (i : Nat) : bit (rotateRight sz a c) i = roundDown sz.bits c.toNat (bit a) i := by
  cases sz with
  | byte =>
    have hmask : bit 0xff i = decide (i < 8) := @bit_ones 8 (by decide) i
    rw [rotateRight, bit_and, hmask]
    by_cases hi : i < 8
    · rw [@bit_rotate_right a c 8 (by decide) hc ha i hi, decide_eq_true hi, Bool.and_true]
      rfl
    · simp [hi, roundDown, Size.bits]
  | word =>
    have hmask : bit 0xffff i = decide (i < 16) := @bit_ones 16 (by decide) i
    rw [rotateRight, bit_and, hmask]
    by_cases hi : i < 16
    · rw [@bit_rotate_right a c 16 (by decide) hc ha i hi, decide_eq_true hi, Bool.and_true]
      rfl
    · simp [hi, roundDown, Size.bits]
  | long =>
    have hsub : (32 - c).toNat ≤ 32 := by
      rw [UInt32.toNat_sub_of_le _ _ (UInt32.le_iff_toNat_le.mpr hc.le)]
      exact Nat.sub_le _ _
    have hwide : ∀ i, 32 ≤ i → bit64 a.toUInt64 i = false := fun i hi => by
      rw [bit64_toUInt64, bit_of_ge a hi]
    rw [rotateRight, bit_toUInt32_mask]
    by_cases hi : i < 32
    · have hround := @bit64_rotate_right c 32 a.toUInt64 (by decide) hc hwide i hi
      rw [bit64_or] at hround ⊢
      rw [bit64_lsr32 hc.le hwide, bit64_lsl32 hsub hi, hround, decide_eq_true hi, Bool.true_and]
      simp only [roundDown, bit64_toUInt64]
      rfl
    · simp [hi, roundDown, Size.bits]

theorem bit_rotateLeft (hc : c.toNat < sz.bits) (ha : ∀ i, sz.bits ≤ i → bit a i = false)
    (i : Nat) : bit (rotateLeft sz a c) i = roundUp sz.bits c.toNat (bit a) i := by
  cases sz with
  | byte =>
    have hmask : bit 0xff i = decide (i < 8) := @bit_ones 8 (by decide) i
    rw [rotateLeft, bit_and, hmask]
    by_cases hi : i < 8
    · rw [@bit_rotate_left a c 8 (by decide) hc ha i hi, decide_eq_true hi, Bool.and_true]
      rfl
    · simp [hi, roundUp, Size.bits]
  | word =>
    have hmask : bit 0xffff i = decide (i < 16) := @bit_ones 16 (by decide) i
    rw [rotateLeft, bit_and, hmask]
    by_cases hi : i < 16
    · rw [@bit_rotate_left a c 16 (by decide) hc ha i hi, decide_eq_true hi, Bool.and_true]
      rfl
    · simp [hi, roundUp, Size.bits]
  | long =>
    have hsub : (32 - c).toNat ≤ 32 := by
      rw [UInt32.toNat_sub_of_le _ _ (UInt32.le_iff_toNat_le.mpr hc.le)]
      exact Nat.sub_le _ _
    have hwide : ∀ i, 32 ≤ i → bit64 a.toUInt64 i = false := fun i hi => by
      rw [bit64_toUInt64, bit_of_ge a hi]
    rw [rotateLeft, bit_toUInt32_mask]
    by_cases hi : i < 32
    · have hround := @bit64_rotate_left c 32 a.toUInt64 (by decide) hc hwide i hi
      rw [bit64_or] at hround ⊢
      rw [bit64_lsl32 hc.le hi, bit64_lsr32 hsub hwide, hround, decide_eq_true hi, Bool.true_and]
      simp only [roundUp, bit64_toUInt64]
      rfl
    · simp [hi, roundUp, Size.bits]

end Rotations

/-! ### `ror` and `rol` -/

section Handlers

variable (sz : Size) (s : Cpu)

theorem roundDown_top {n : Nat} (hn : n ≠ 0) (bits : Nat → Bool) :
    roundDown sz.bits (n % sz.bits) bits (sz.bits - 1) = bits ((n - 1) % sz.bits) := by
  have hpos := bits_pos sz
  have hmod := succ_mod_eq hpos (n - 1)
  have hsucc : n - 1 + 1 = n := by omega
  have hlt := Nat.mod_lt (n - 1) hpos
  rw [hsucc] at hmod
  rw [hmod]
  unfold roundDown
  split_ifs <;> grind

theorem roundUp_bottom {n : Nat} (bits : Nat → Bool) :
    roundUp sz.bits (n % sz.bits) bits 0 =
      bits (if n % sz.bits = 0 then 0 else sz.bits - n % sz.bits) := by
  have hpos := bits_pos sz
  unfold roundUp
  grind

theorem toNat_rotateCount (shift : UInt32) :
    (rotateCount sz shift).toNat = shift.toNat % sz.bits := by
  cases sz with
  | byte => exact @toNat_and_mask shift 3 (by decide)
  | word => exact @toNat_and_mask shift 4 (by decide)
  | long => exact @toNat_and_mask shift 5 (by decide)

theorem toNat_rotatePlaces : (rotatePlaces sz s.countS).toNat = s.countS.toNat % sz.bits := by
  obtain ⟨-, h₈⟩ := countS_bounds s
  cases sz with
  | byte => exact @toNat_and_mask s.countS 3 (by decide)
  | word => exact (Nat.mod_eq_of_lt (show s.countS.toNat < 16 by omega)).symm
  | long => exact (Nat.mod_eq_of_lt (show s.countS.toNat < 32 by omega)).symm

theorem shifted_rorS : Shifted sz (steps sz.bits .ror s.countS.toNat (shifter .ror sz s)) s
    (rorS sz s) := by
  obtain ⟨h₁, h₈⟩ := countS_bounds s
  have hle := countS_le_bits sz s
  have hpos := bits_pos sz
  have hnarrow := shifter_narrow .ror sz s
  have hne : s.countS.toNat ≠ 0 := by omega
  have hsteps := steps_ror hpos hnarrow s.countS.toNat
  have hcarry := @bit_carry_s (low sz (s.dar s.dy)) s.countS h₁ (by omega)
  rw [← Nat.mod_eq_of_lt (show s.countS.toNat - 1 < sz.bits by omega)] at hcarry
  rw [if_neg hne, roundDown_top sz hne] at hsteps
  have hc := toNat_rotatePlaces sz s
  rw [← hc] at hsteps
  exact shifted_of hsteps (bit_rotateRight (hc ▸ Nat.mod_lt _ hpos) hnarrow) rfl rfl hcarry
    (bit_zero 7) (nflag_bit sz _) Iff.rfl

/-- One place less, all the way round. -/
theorem toNat_rotateCount_pred {shift : UInt32} {n : Nat} (hn : n ≠ 0)
    (hshift : shift.toNat = n % sz.bits) :
    (rotateCount sz (shift - 1)).toNat = (n - 1) % sz.bits := by
  have hdvd : 2 ^ 32 % sz.bits = 0 := by cases sz <;> rfl
  have hpos := bits_pos sz
  have hmod := succ_mod_eq hpos (n - 1)
  have hsucc : n - 1 + 1 = n := by omega
  rw [hsucc] at hmod
  rw [toNat_rotateCount]
  have hlt := Nat.mod_lt (n - 1) hpos
  have hone : (1 : UInt32).toNat = 1 := rfl
  split_ifs at hmod with hlast
  · -- from zero to the last place
    have hzero : shift = 0 := UInt32.toNat_inj.mp (hshift.trans hmod)
    have hlast' : (n - 1) % sz.bits = sz.bits - 1 := by omega
    rw [hzero, hlast']
    cases sz <;> rfl
  · have hsub : (shift - 1).toNat = shift.toNat - 1 :=
      UInt32.toNat_sub_of_le _ _ (UInt32.le_iff_toNat_le.mpr (by omega))
    rw [hsub, hshift, hmod, Nat.add_sub_cancel, Nat.mod_mod]

theorem bit_carryRorR {src shift : UInt32} {n : Nat} (hn : n ≠ 0)
    (hshift : shift.toNat = n % sz.bits) :
    bit (carryRorR sz src shift) 8 = bit src ((n - 1) % sz.bits) := by
  have hpred := toNat_rotateCount_pred sz hn hshift
  have hlt := Nat.mod_lt (n - 1) (bits_pos sz)
  have hbits := bits_le sz
  cases sz with
  | byte =>
    change ((shift - 1) &&& 7).toNat = (n - 1) % 8 at hpred
    change (n - 1) % 8 < 8 at hlt
    have hle : ((shift - 1) &&& 7) ≤ 8 := UInt32.le_iff_toNat_le.mpr (hpred.trans_le hlt.le)
    have hsub : (8 - ((shift - 1) &&& 7)).toNat = 8 - (n - 1) % 8 := by
      rw [UInt32.toNat_sub_of_le _ _ hle, hpred]
      rfl
    have hmod : (8 - (n - 1) % 8) % 32 = 8 - (n - 1) % 8 := Nat.mod_eq_of_lt (by omega)
    have hplace : 8 - (8 - (n - 1) % 8) = (n - 1) % 8 := by omega
    simp [carryRorR, hsub, hmod, hplace, Size.bits]
  | word =>
    change ((shift - 1) &&& 15).toNat = (n - 1) % 16 at hpred
    have hmod : (n - 1) % 16 % 32 = (n - 1) % 16 := Nat.mod_eq_of_lt (by omega)
    simp only [carryRorR, bit_shiftLeft, bit_shiftRight, hpred, hmod]
    rfl
  | long =>
    change ((shift - 1) &&& 31).toNat = (n - 1) % 32 at hpred
    have hmod : (n - 1) % 32 % 64 = (n - 1) % 32 := Nat.mod_eq_of_lt (by omega)
    simp only [carryRorR, bit_toUInt32_of_64, bit64_shiftLeft, bit64_shiftRight, bit64_toUInt64,
      UInt32.toNat_toUInt64, hpred, hmod]
    rfl

theorem shifted_rorR : Shifted sz (steps sz.bits .ror s.countR.toNat (shifter .ror sz s)) s
    (rorR sz s) := by
  have hpos := bits_pos sz
  have hnarrow := shifter_narrow .ror sz s
  have hsteps := steps_ror hpos hnarrow s.countR.toNat
  unfold rorR
  dsimp only
  by_cases hzero : s.countR = 0
  · rw [if_neg (not_not_intro hzero), hzero]
    exact shifted_zero sz s (by decide)
  have hcount := countR_pos hzero
  have hne : s.countR.toNat ≠ 0 := by omega
  rw [if_neg hne, roundDown_top sz hne] at hsteps
  rw [if_pos hzero]
  have hshift := toNat_rotateCount sz s.countR
  rw [← hshift] at hsteps
  exact shifted_of hsteps (bit_rotateRight (hshift ▸ Nat.mod_lt _ hpos) hnarrow) rfl rfl
    (bit_carryRorR sz hne hshift) (bit_zero 7) (nflag_bit sz _) Iff.rfl

theorem shifted_rolS : Shifted sz (steps sz.bits .rol s.countS.toNat (shifter .rol sz s)) s
    (rolS sz s) := by
  obtain ⟨h₁, h₈⟩ := countS_bounds s
  have hle := countS_le_bits sz s
  have hpos := bits_pos sz
  have hnarrow := shifter_narrow .rol sz s
  have hne : s.countS.toNat ≠ 0 := by omega
  have hsteps := steps_rol hpos hnarrow s.countS.toNat
  have hcarry := @bit_carryLeftS sz (low sz (s.dar s.dy)) s.countS h₁ h₈
  have hplace : (if s.countS.toNat % sz.bits = 0 then 0 else sz.bits - s.countS.toNat % sz.bits) =
      sz.bits - s.countS.toNat := by
    rcases Nat.lt_or_eq_of_le hle with hlt | heq
    · rw [Nat.mod_eq_of_lt hlt, if_neg hne]
    · rw [heq, Nat.mod_self, if_pos rfl, Nat.sub_self]
  rw [if_neg hne, roundUp_bottom, hplace] at hsteps
  have hc := toNat_rotatePlaces sz s
  rw [← hc] at hsteps
  exact shifted_of hsteps (bit_rotateLeft (hc ▸ Nat.mod_lt _ hpos) hnarrow) rfl rfl hcarry
    (bit_zero 7) (nflag_bit sz _) Iff.rfl

/-- What the handlers leave: single steps, but for the carry of a long rotation to the left
    by 32 places, which is a shift of the 64-bit operand by 32. -/
def expected (kind : Kind) (sz : Size) (n : Nat) (s : Cpu) : Shifter :=
  let e := steps sz.bits kind n (shifter kind sz s)
  if kind = .rol ∧ sz = .long ∧ n = 32 then { e with c := false } else e

theorem shifted_rolR_long :
    Shifted .long (expected .rol .long s.countR.toNat s) s (rolR .long s) := by
  have hlt := countR_lt s
  have hnarrow := shifter_narrow .rol .long s
  have hsteps := steps_rol (bits_pos .long) hnarrow s.countR.toNat
  unfold rolR expected
  dsimp only
  by_cases hzero : s.countR = 0
  · have hne : ¬(0 : UInt32).toNat = 32 := by decide
    rw [if_neg (not_not_intro hzero), hzero, if_neg (fun h => hne h.2.2)]
    exact shifted_zero .long s (by decide)
  have hcount := countR_pos hzero
  have hne : s.countR.toNat ≠ 0 := by omega
  rw [if_neg hne, roundUp_bottom] at hsteps
  rw [if_pos hzero]
  have hshift := toNat_rotateCount .long s.countR
  have hround : (rotateCount .long s.countR).toNat < Size.long.bits :=
    hshift ▸ Nat.mod_lt _ (by decide)
  have hcarry : bit ((((low .long (s.dar s.dy)).toUInt64 >>>
      (32 - rotateCount .long s.countR).toUInt64) <<< (8 : UInt64)).toUInt32) 8 =
      bit (low .long (s.dar s.dy)) (32 - s.countR.toNat % 32) := by
    have hsub : (32 - rotateCount .long s.countR).toNat = 32 - s.countR.toNat % 32 := by
      rw [UInt32.toNat_sub_of_le _ _ (UInt32.le_iff_toNat_le.mpr hround.le), hshift]
      rfl
    have hmod : (32 - s.countR.toNat % 32) % 64 = 32 - s.countR.toNat % 32 :=
      Nat.mod_eq_of_lt (by omega)
    simp only [bit_toUInt32_of_64, bit64_shiftLeft, bit64_shiftRight, bit64_toUInt64,
      UInt32.toNat_toUInt64, hsub, hmod]
    rfl
  have hres := @bit_rotateLeft .long (low .long (s.dar s.dy)) _ hround hnarrow
  rw [hshift] at hres
  by_cases hfull : s.countR.toNat = 32
  · rw [if_pos ⟨rfl, rfl, hfull⟩]
    have hsteps' := narrow_steps hnarrow .rol s.countR.toNat
    rw [hsteps] at hsteps' ⊢
    refine shifted_result hsteps' hres rfl rfl (hcarry.trans ?_) (bit_zero 7) (nflag_bit .long _)
      Iff.rfl
    rw [hfull]
    exact bit_of_ge _ (le_refl 32)
  · rw [if_neg (fun h => hfull h.2.2)]
    have hplace : s.countR.toNat % 32 ≠ 0 := by omega
    refine shifted_of hsteps hres rfl rfl (hcarry.trans ?_) (bit_zero 7) (nflag_bit .long _) Iff.rfl
    exact congrArg _ (if_neg hplace).symm

theorem shifted_rolR_short (hshort : sz ≠ .long) :
    Shifted sz (steps sz.bits .rol s.countR.toNat (shifter .rol sz s)) s (rolR sz s) := by
  have hpos := bits_pos sz
  have hbits : sz.bits < 32 := by
    cases sz with
    | byte => decide
    | word => decide
    | long => exact absurd rfl hshort
  have hnarrow := shifter_narrow .rol sz s
  have hsteps := steps_rol hpos hnarrow s.countR.toNat
  by_cases hzero : s.countR = 0
  · unfold rolR
    dsimp only
    rw [if_neg (not_not_intro hzero), hzero]
    exact shifted_zero sz s (by decide)
  have hcount := countR_pos hzero
  have hne : s.countR.toNat ≠ 0 := by omega
  rw [if_neg hne, roundUp_bottom] at hsteps
  have hshift := toNat_rotateCount sz s.countR
  have hround : (rotateCount sz s.countR).toNat < sz.bits := hshift ▸ Nat.mod_lt _ hpos
  have hres := @bit_rotateLeft sz (low sz (s.dar s.dy)) _ hround hnarrow
  have hcode : rolR sz s = if rotateCount sz s.countR ≠ 0 then
      { s.setReg s.dy (maskInto sz (s.dar s.dy)
          (rotateLeft sz (low sz (s.dar s.dy)) (rotateCount sz s.countR))) with
        nFlag := nflag sz (rotateLeft sz (low sz (s.dar s.dy)) (rotateCount sz s.countR)),
        notZFlag := rotateLeft sz (low sz (s.dar s.dy)) (rotateCount sz s.countR), vFlag := 0,
        cFlag := carryLeftR sz (low sz (s.dar s.dy)) (rotateCount sz s.countR) }
      else
        { s with
          cFlag := (low sz (s.dar s.dy) &&& 1) <<< (8 : UInt32),
          nFlag := nflag sz (low sz (s.dar s.dy)), notZFlag := low sz (s.dar s.dy), vFlag := 0 } := by
    unfold rolR
    dsimp only
    rw [if_pos hzero]
    cases sz with
    | byte => rfl
    | word =>
      have hmask : maskOutAbove .word (rotateLeft .word (low .word (s.dar s.dy))
          (rotateCount .word s.countR)) = rotateLeft .word (low .word (s.dar s.dy))
          (rotateCount .word s.countR) := by
        rw [maskOutAbove, rotateLeft, UInt32.and_assoc, UInt32.and_self]
      simp only [hmask]
    | long => exact absurd rfl hshort
  rw [hcode]
  rw [← hshift] at hsteps
  by_cases hfull : rotateCount sz s.countR = 0
  · -- all the way round: only the carry is new
    rw [if_neg (not_not_intro hfull)]
    rw [hfull] at hsteps
    have hcarry : bit ((low sz (s.dar s.dy) &&& 1) <<< (8 : UInt32)) 8 =
        bit (low sz (s.dar s.dy)) 0 := by simp
    have hshifted := shifted_of hsteps (fun i => (congrFun (roundUp_zero hnarrow) i).symm)
      (maskInto_low sz (s.dar s.dy)).symm rfl hcarry (bit_zero 7) (nflag_bit sz _) Iff.rfl
    rwa [setReg_same] at hshifted
  · have hplace : (rotateCount sz s.countR).toNat ≠ 0 :=
      fun h => hfull (UInt32.toNat_inj.mp h)
    have hcarry := @bit_carryLeftR sz (low sz (s.dar s.dy)) (rotateCount sz s.countR) (by omega)
      hround.le (by omega)
    rw [if_neg hplace] at hsteps
    rw [if_pos hfull]
    exact shifted_of hsteps hres rfl rfl hcarry (bit_zero 7) (nflag_bit sz _) Iff.rfl

/-! ### Rotations with the extend bit -/

theorem bit_xflagAs1 (i : Nat) : bit s.xflagAs1 i = (decide (i = 0) && bit s.xFlag 8) := by
  have hone : bit 1 i = decide (i < 1) := @bit_ones 1 (by decide) i
  rw [xflagAs1, bit_and, hone]
  by_cases hi : i = 0
  · simp [hi]
  · have hlt : ¬i < 1 := by omega
    simp [hi, hlt]

/-- The operand with the extend bit above it. -/
theorem bit_joined {w : UInt32} (hw : w.toNat = sz.bits) (hlt : sz.bits < 32) (i : Nat) :
    bit (low sz (s.dar s.dy) ||| (s.xflagAs1 <<< w)) i =
      join sz.bits (bit s.xFlag 8) (bit (low sz (s.dar s.dy))) i := by
  have hmod : sz.bits % 32 = sz.bits := Nat.mod_eq_of_lt hlt
  rw [bit_or, bit_shiftLeft, hw, hmod, bit_xflagAs1, join]
  by_cases hi : i = sz.bits
  · simp [hi, hlt, bit_low]
  · by_cases hge : sz.bits ≤ i
    · have hne : i - sz.bits ≠ 0 := by omega
      simp [hi, hne]
    · simp [hi, hge]

theorem bit64_joined (i : Nat) :
    bit64 ((low .long (s.dar s.dy)).toUInt64 ||| (s.xflagAs1.toUInt64 <<< 32)) i =
      join Size.long.bits (bit s.xFlag 8) (bit (low .long (s.dar s.dy))) i := by
  rw [bit64_or, bit64_shiftLeft, bit64_toUInt64, bit64_toUInt64, bit_xflagAs1, join, Size.bits]
  by_cases hi : i = 32
  · simp [hi, bit_of_ge _ (le_refl 32)]
  · by_cases hge : 32 ≤ i
    · have hne : i - 32 ≠ 0 := by omega
      simp [hi, hne]
    · simp [hi, hge]

def roxKind (right : Bool) : Kind := if right then .roxr else .roxl

/-- The wider register after the rotation. -/
def roundTo (right : Bool) (w k : Nat) (bits : Nat → Bool) : Nat → Bool :=
  if right then roundDown w k bits else roundUp w k bits

theorem steps_rox (right : Bool) (n : Nat) :
    join sz.bits (steps sz.bits (roxKind right) n (shifter (roxKind right) sz s)).x
        (steps sz.bits (roxKind right) n (shifter (roxKind right) sz s)).bits =
      roundTo right (sz.bits + 1) (n % (sz.bits + 1))
        (join sz.bits (bit s.xFlag 8) (bit (low sz (s.dar s.dy)))) := by
  cases right with
  | true => exact steps_roxr (bits_pos sz) (shifter_narrow .roxr sz s) n
  | false => exact steps_roxl (bits_pos sz) (shifter_narrow .roxl sz s) n

/-- A result with the bits of the wider register. -/
theorem shifted_rox {right : Bool} {n : Nat} (wide : Nat → Bool) {res dst x : UInt32}
    (hwide : ∀ i < sz.bits + 1, wide i = roundTo right (sz.bits + 1) (n % (sz.bits + 1))
      (join sz.bits (bit s.xFlag 8) (bit (low sz (s.dar s.dy)))) i)
    (hres : ∀ i, bit res i = (decide (i < sz.bits) && wide i))
    (hdst : dst = maskInto sz (s.dar s.dy) res) (hx : bit x 8 = wide sz.bits) :
    Shifted sz (steps sz.bits (roxKind right) n (shifter (roxKind right) sz s)) s
      { s.setReg s.dy dst with
        xFlag := x, nFlag := nflag sz res, notZFlag := res, vFlag := 0, cFlag := x } := by
  have hnarrow := narrow_steps (shifter_narrow (roxKind right) sz s) (roxKind right) n
  have hjoin := steps_rox sz s right n
  have hkind : roxKind right = .roxr ∨ roxKind right = .roxl := by cases right <;> decide
  have hcx := steps_rox_c (w := sz.bits) hkind (s := shifter (roxKind right) sz s)
    (by simp [shifter, hkind]) n
  have hv := steps_rox_v (w := sz.bits) hkind (s := shifter (roxKind right) sz s) n
  have hbits : ∀ i < sz.bits, wide i =
      (steps sz.bits (roxKind right) n (shifter (roxKind right) sz s)).bits i := fun i hi => by
    rw [hwide i (by omega), ← hjoin, join, if_neg (by omega)]
  have htop : wide sz.bits =
      (steps sz.bits (roxKind right) n (shifter (roxKind right) sz s)).x := by
    rw [hwide _ (Nat.lt_succ_self _), ← hjoin, join, if_pos rfl]
  refine shifted_result hnarrow (fun i => ?_) hdst (hx.trans htop) ((hx.trans htop).trans hcx.symm)
    ((bit_zero 7).trans hv.symm) (nflag_bit sz _) Iff.rfl
  rw [hres]
  by_cases hi : i < sz.bits
  · rw [decide_eq_true hi, Bool.true_and, hbits i hi]
  · rw [decide_eq_false hi, Bool.false_and, hnarrow i (Nat.le_of_not_lt hi)]

theorem join_above {w i : Nat} {x : Bool} {bits : Nat → Bool} (hbits : ∀ i, w ≤ i → bits i = false)
    (hi : w + 1 ≤ i) : join w x bits i = false := by
  rw [join, if_neg (by omega)]
  exact hbits i (by omega)

theorem shifted_roxResult {right : Bool} {n : Nat} {shift : UInt32}
    (hshift : shift.toNat = n % (sz.bits + 1)) :
    Shifted sz (steps sz.bits (roxKind right) n (shifter (roxKind right) sz s)) s
      (roxResult right sz shift s) := by
  have hlt : shift.toNat < sz.bits + 1 := hshift ▸ Nat.mod_lt _ (Nat.succ_pos _)
  have hsrc : ∀ i, sz.bits ≤ i → bit (low sz (s.dar s.dy)) i = false := shifter_narrow .roxr sz s
  cases sz with
  | byte =>
    have ha := bit_joined .byte s (w := 8) rfl (by decide)
    have habove : ∀ i, 9 ≤ i → bit (low .byte (s.dar s.dy) ||| (s.xflagAs1 <<< 8)) i = false :=
      fun i hi => by rw [ha, join_above hsrc hi]
    refine shifted_rox .byte s (bit (if right then
      ror9 (low .byte (s.dar s.dy) ||| (s.xflagAs1 <<< 8)) shift else
      rol9 (low .byte (s.dar s.dy) ||| (s.xflagAs1 <<< 8)) shift)) (fun i hi => ?_)
      (bit_maskOutAbove .byte _) rfl rfl
    rw [← hshift, ← funext ha]
    cases right with
    | true => exact @bit_rotate_right _ shift 9 (by decide) hlt habove i hi
    | false => exact @bit_rotate_left _ shift 9 (by decide) hlt habove i hi
  | word =>
    have ha := bit_joined .word s (w := 16) rfl (by decide)
    have habove : ∀ i, 17 ≤ i → bit (low .word (s.dar s.dy) ||| (s.xflagAs1 <<< 16)) i = false :=
      fun i hi => by rw [ha, join_above hsrc hi]
    refine shifted_rox .word s (bit (if right then
      ror17 (low .word (s.dar s.dy) ||| (s.xflagAs1 <<< 16)) shift else
      rol17 (low .word (s.dar s.dy) ||| (s.xflagAs1 <<< 16)) shift)) (fun i hi => ?_)
      (bit_maskOutAbove .word _) rfl (bit_shiftRight _ 8 8)
    rw [← hshift, ← funext ha]
    cases right with
    | true => exact @bit_rotate_right _ shift 17 (by decide) hlt habove i hi
    | false => exact @bit_rotate_left _ shift 17 (by decide) hlt habove i hi
  | long =>
    have ha := bit64_joined s
    have habove : ∀ i, 33 ≤ i →
        bit64 ((low .long (s.dar s.dy)).toUInt64 ||| (s.xflagAs1.toUInt64 <<< 32)) i = false :=
      fun i hi => by rw [ha, join_above hsrc hi]
    refine shifted_rox .long s (bit64 (if right then
      ror33 ((low .long (s.dar s.dy)).toUInt64 ||| (s.xflagAs1.toUInt64 <<< 32)) shift else
      rol33 ((low .long (s.dar s.dy)).toUInt64 ||| (s.xflagAs1.toUInt64 <<< 32)) shift))
      (fun i hi => ?_) (bit_toUInt32_mask _) rfl ?_
    · rw [← hshift, ← funext ha]
      cases right with
      | true => exact @bit64_rotate_right shift 33 _ (by decide) hlt habove i hi
      | false => exact @bit64_rotate_left shift 33 _ (by decide) hlt habove i hi
    · rw [bit_toUInt32_of_64, bit64_shiftRight]
      rfl

theorem shifted_roxS (right : Bool) :
    Shifted sz (steps sz.bits (roxKind right) s.countS.toNat (shifter (roxKind right) sz s)) s
      (roxResult right sz s.countS s) := by
  have hle := countS_le_bits sz s
  exact shifted_roxResult sz s (Nat.mod_eq_of_lt (by omega)).symm

theorem shifted_roxR (right : Bool) :
    Shifted sz (steps sz.bits (roxKind right) s.countR.toNat (shifter (roxKind right) sz s)) s
      (roxByRegister right sz s) := by
  unfold roxByRegister
  dsimp only
  by_cases hzero : s.countR = 0
  · have hsteps : steps sz.bits (roxKind right) 0 (shifter (roxKind right) sz s) =
        shifter (roxKind right) sz s := rfl
    have hc : (shifter (roxKind right) sz s).c = bit s.xFlag 8 := by
      cases right <;> simp [shifter, roxKind]
    have hsign : bit (nflag sz (s.dar s.dy)) 7 = bit (low sz (s.dar s.dy)) (sz.bits - 1) := by
      have hlt : sz.bits - 1 < sz.bits := by have hpos := bits_pos sz; omega
      rw [nflag_bit, bit_low, decide_eq_true hlt, Bool.true_and]
    have hshift := shifted_of hsteps (fun _ => rfl) (maskInto_low sz (s.dar s.dy)).symm rfl hc.symm
      (bit_zero 7) hsign Iff.rfl
    rw [if_neg (not_not_intro hzero), hzero]
    rwa [setReg_same] at hshift
  · have hmod : (roxCount sz s.countR).toNat = s.countR.toNat % (sz.bits + 1) := by
      cases sz <;> exact UInt32.toNat_mod ..
    rw [if_pos hzero]
    exact shifted_roxResult sz s hmod

end Handlers

/-! ### All shifts -/

/-- Where the count of a shift comes from. -/
inductive Form where
  | s
  | r
deriving DecidableEq, Repr

def count : Form → Cpu → UInt32
  | .s => countS
  | .r => countR

/-- The handler for each mnemonic. -/
def shift : Kind → Form → Size → Cpu → Cpu
  | .asr, .s => asrS
  | .asr, .r => asrR
  | .lsr, .s => lsrS
  | .lsr, .r => lsrR
  | .asl, .s => aslS
  | .asl, .r => aslR
  | .lsl, .s => lslS
  | .lsl, .r => lslR
  | .ror, .s => rorS
  | .ror, .r => rorR
  | .rol, .s => rolS
  | .rol, .r => rolR
  | .roxr, .s => roxrS
  | .roxr, .r => roxrR
  | .roxl, .s => roxlS
  | .roxl, .r => roxlR

theorem expected_of {kind : Kind} {sz : Size} {n : Nat} (s : Cpu)
    (h : ¬(kind = .rol ∧ sz = .long ∧ n = 32)) :
    expected kind sz n s = steps sz.bits kind n (shifter kind sz s) := if_neg h

/-- **Shifts.**  Every handler leaves in its register, and in the flags, what as many shifts
    by one place leave there, and changes nothing else; the exception is in `expected`. -/
theorem shift_steps (kind : Kind) (form : Form) (sz : Size) (s : Cpu) :
    Shifted sz (expected kind sz (count form s).toNat s) s (shift kind form sz s) := by
  have hcount := countS_bounds s
  cases form with
  | s =>
    have hnot : ¬(kind = .rol ∧ sz = .long ∧ (count .s s).toNat = 32) := by
      rintro ⟨-, -, h⟩
      exact absurd hcount.2 (by rw [show s.countS.toNat = 32 from h]; decide)
    rw [expected_of s hnot]
    cases kind with
    | asr => exact shifted_asrS sz s
    | lsr => exact shifted_lsrS sz s
    | asl => exact shifted_aslS sz s
    | lsl => exact shifted_lslS sz s
    | ror => exact shifted_rorS sz s
    | rol => exact shifted_rolS sz s
    | roxr => exact shifted_roxS sz s true
    | roxl => exact shifted_roxS sz s false
  | r =>
    by_cases hrol : kind = .rol ∧ sz = .long
    · obtain ⟨rfl, rfl⟩ := hrol
      exact shifted_rolR_long s
    rw [expected_of s (fun h => hrol ⟨h.1, h.2.1⟩)]
    cases kind with
    | asr => exact shifted_asrR sz s
    | lsr => exact shifted_lsrR sz s
    | asl => exact shifted_aslR sz s
    | lsl => exact shifted_lslR sz s
    | ror => exact shifted_rorR sz s
    | rol => exact shifted_rolR_short sz s (fun h => hrol ⟨rfl, h⟩)
    | roxr => exact shifted_roxR sz s true
    | roxl => exact shifted_roxR sz s false

end ParaTos.Cpu
