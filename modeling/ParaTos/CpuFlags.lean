/-
  ParaTos/CpuFlags.lean
  =====================
  **Sums, differences and the conditions** (`mushashi/m68kcpu.h`, `mushashi/m68k_in.c`).

  The code computes with 32-bit words and leaves each flag as some bit of a word: the
  carry of a byte or word operation is the bit above the operand, that of a long one
  is put together from the signs.  The first half says what these bits are for the
  numbers: carry and borrow (`add_carry`, `sub_borrow`), overflow (`add_overflow`,
  `sub_overflow`) and sign (`nflag_bit`).

  The conditions are macros over the flags.  After a comparison they mean what their
  names say of the two operands, and a conditional branch goes where the comparison
  sends it (`cmp_bcc`).
-/
import ParaTos.Cpu
import Mathlib.Tactic.SplitIfs

namespace ParaTos.Cpu

open Bytes WordBits

/-! ### Flag calculation -/

/-- `CFLAG_8(R)`, `CFLAG_16(R)` and `CFLAG_ADD_32(S, D, R)`. -/
def cflagAdd : Size → UInt32 → UInt32 → UInt32 → UInt32
  | .byte, _, _, r => r
  | .word, _, _, r => r >>> 8
  | .long, s, d, r => ((s &&& d) ||| (~~~r &&& (s ||| d))) >>> 23

/-- `CFLAG_8(R)`, `CFLAG_16(R)` and `CFLAG_SUB_32(S, D, R)`. -/
def cflagSub : Size → UInt32 → UInt32 → UInt32 → UInt32
  | .byte, _, _, r => r
  | .word, _, _, r => r >>> 8
  | .long, s, d, r => ((s &&& r) ||| (~~~d &&& (s ||| r))) >>> 23

/-- `VFLAG_ADD_8`, `VFLAG_ADD_16` and `VFLAG_ADD_32`. -/
def vflagAdd : Size → UInt32 → UInt32 → UInt32 → UInt32
  | .byte, s, d, r => (s ^^^ r) &&& (d ^^^ r)
  | .word, s, d, r => ((s ^^^ r) &&& (d ^^^ r)) >>> 8
  | .long, s, d, r => ((s ^^^ r) &&& (d ^^^ r)) >>> 24

/-- `VFLAG_SUB_8`, `VFLAG_SUB_16` and `VFLAG_SUB_32`. -/
def vflagSub : Size → UInt32 → UInt32 → UInt32 → UInt32
  | .byte, s, d, r => (s ^^^ d) &&& (r ^^^ d)
  | .word, s, d, r => ((s ^^^ d) &&& (r ^^^ d)) >>> 8
  | .long, s, d, r => ((s ^^^ d) &&& (r ^^^ d)) >>> 24

/-- `NFLAG_8`, `NFLAG_16` and `NFLAG_32`. -/
def nflag : Size → UInt32 → UInt32
  | .byte, r => r
  | .word, r => r >>> 8
  | .long, r => r >>> 24

/-- The operand in a register: `MASK_OUT_ABOVE_8(DY)`, `MASK_OUT_ABOVE_16(DY)`, and `DY`. -/
def low : Size → UInt32 → UInt32
  | .byte, v => v &&& 0xff
  | .word, v => v &&& 0xffff
  | .long, v => v

/-- `XFLAG_AS_1()`. -/
def xflagAs1 (s : Cpu) : UInt32 := (s.xFlag >>> 8) &&& 1

/-! ### The flags as numbers -/

section Numbers

variable {src dst x : UInt32}

theorem toNat_low (sz : Size) (v : UInt32) : (low sz v).toNat = v.toNat % 2 ^ sz.bits := by
  cases sz with
  | byte => exact @toNat_and_mask v 8 (by decide)
  | word => exact @toNat_and_mask v 16 (by decide)
  | long => exact (Nat.mod_eq_of_lt v.toNat_lt).symm

theorem low_lt (sz : Size) (v : UInt32) : (low sz v).toNat < 2 ^ sz.bits := by
  rw [toNat_low]
  exact Nat.mod_lt _ (Nat.two_pow_pos _)

theorem toNat_xflagAs1 (s : Cpu) : s.xflagAs1.toNat = (bit s.xFlag 8).toNat := by
  have hand : s.xflagAs1.toNat = (s.xFlag >>> 8).toNat % 2 ^ 1 :=
    @toNat_and_mask (s.xFlag >>> 8) 1 (by decide)
  have hbit : bit s.xFlag 8 = bit (s.xFlag >>> 8) 0 := by simp
  rw [hand, hbit, bit, Nat.testBit_zero]
  rcases Nat.mod_two_eq_zero_or_one (s.xFlag >>> 8).toNat with h | h <;> simp only [pow_one, h] <;>
    rfl

theorem xflagAs1_le (s : Cpu) : s.xflagAs1.toNat ≤ 1 := by
  rw [toNat_xflagAs1]
  exact Bool.toNat_le _

theorem bit_31 (v : UInt32) : bit v 31 = decide (2 ^ 31 ≤ v.toNat) := testBit_top v.toNat_lt

/-- The sign bit of an operand. -/
theorem sign_bit (sz : Size) (v : UInt32) :
    bit v (sz.bits - 1) = decide (2 ^ (sz.bits - 1) ≤ (maskOutAbove sz v).toNat) := by
  have hlt := maskOutAbove_lt sz v
  have htop : sz.bits - 1 + 1 = sz.bits := by cases sz <;> rfl
  have hbit : bit v (sz.bits - 1) = (maskOutAbove sz v).toNat.testBit (sz.bits - 1) := by
    rw [toNat_maskOutAbove, Nat.testBit_mod_two_pow]
    cases sz <;> simp [bit, Size.bits]
  rw [hbit]
  exact testBit_top (by rwa [htop])

theorem nflag_bit (sz : Size) (r : UInt32) : bit (nflag sz r) 7 = bit r (sz.bits - 1) := by
  cases sz <;> simp [nflag, Size.bits]

theorem maskOutAbove_of_lt {sz : Size} {v : UInt32} (h : v.toNat < 2 ^ sz.bits) :
    maskOutAbove sz v = v := by
  apply UInt32.toNat_inj.mp
  rw [toNat_maskOutAbove, Nat.mod_eq_of_lt h]

/-- **Carry.**  The result and the carry flag are the sum of the operands. -/
theorem add_carry (sz : Size) (hs : src.toNat < 2 ^ sz.bits) (hd : dst.toNat < 2 ^ sz.bits)
    (hx : x.toNat ≤ 1) :
    (maskOutAbove sz (src + dst + x)).toNat +
        2 ^ sz.bits * (bit (cflagAdd sz src dst (src + dst + x)) 8).toNat =
      src.toNat + dst.toNat + x.toNat := by
  obtain ⟨n, hn⟩ : ∃ n, n = src.toNat + dst.toNat + x.toNat := ⟨_, rfl⟩
  have hr : (src + dst + x).toNat = n % 2 ^ 32 := by
    simp only [UInt32.toNat_add]
    omega
  have hlt : n < 2 ^ (sz.bits + 1) := by
    rw [Nat.pow_succ]
    omega
  have hbit : bit (cflagAdd sz src dst (src + dst + x)) 8 = decide (2 ^ sz.bits ≤ n) := by
    cases sz with
    | byte =>
      rw [cflagAdd, bit, hr, Nat.mod_eq_of_lt (lt_trans hlt (by decide))]
      exact testBit_top hlt
    | word =>
      have hshift : bit ((src + dst + x) >>> 8) 8 = bit (src + dst + x) 16 := by simp
      rw [cflagAdd, hshift, bit, hr, Nat.mod_eq_of_lt (lt_trans hlt (by decide))]
      exact testBit_top hlt
    | long =>
      have hshift : bit (cflagAdd .long src dst (src + dst + x)) 8 =
          ((bit src 31 && bit dst 31) || (!bit (src + dst + x) 31 && (bit src 31 || bit dst 31))) := by
        simp [cflagAdd]
      rw [hshift, bit_31, bit_31, bit_31, hr, Bool.eq_iff_iff, decide_eq_true_eq]
      simp only [Size.bits, Bool.or_eq_true, Bool.and_eq_true, Bool.not_eq_true', decide_eq_true_eq,
        decide_eq_false_iff_not] at hs hd ⊢
      omega
  have hdvd : 2 ^ sz.bits ∣ 2 ^ 32 := by cases sz <;> decide
  rw [hbit, toNat_decide_le hlt, toNat_maskOutAbove, hr, Nat.mod_mod_of_dvd _ hdvd,
    Nat.mod_add_div, hn]

/-- **Borrow.**  The result and the subtrahend are the minuend and what was borrowed. -/
theorem sub_borrow (sz : Size) (hs : src.toNat < 2 ^ sz.bits) (hd : dst.toNat < 2 ^ sz.bits)
    (hx : x.toNat ≤ 1) :
    (maskOutAbove sz (dst - src - x)).toNat + src.toNat + x.toNat =
      dst.toNat + 2 ^ sz.bits * (bit (cflagSub sz src dst (dst - src - x)) 8).toNat := by
  have hr : (dst - src - x).toNat = (2 ^ 33 + dst.toNat - src.toNat - x.toNat) % 2 ^ 32 := by
    have hlt := src.toNat_lt
    simp only [UInt32.toNat_sub]
    omega
  have hbit : bit (cflagSub sz src dst (dst - src - x)) 8 =
      decide (dst.toNat < src.toNat + x.toNat) := by
    cases sz with
    | byte =>
      rw [cflagSub, bit, hr, Nat.testBit_eq_decide_div_mod_eq]
      simp only [Size.bits] at hs hd
      congr 1
      rw [eq_iff_iff]
      omega
    | word =>
      have hshift : bit ((dst - src - x) >>> 8) 8 = bit (dst - src - x) 16 := by simp
      rw [cflagSub, hshift, bit, hr, Nat.testBit_eq_decide_div_mod_eq]
      simp only [Size.bits] at hs hd
      congr 1
      rw [eq_iff_iff]
      omega
    | long =>
      have hshift : bit (cflagSub .long src dst (dst - src - x)) 8 =
          ((bit src 31 && bit (dst - src - x) 31) ||
            (!bit dst 31 && (bit src 31 || bit (dst - src - x) 31))) := by
        simp [cflagSub]
      rw [hshift, bit_31, bit_31, bit_31, hr, Bool.eq_iff_iff]
      simp only [Size.bits, Bool.or_eq_true, Bool.and_eq_true, Bool.not_eq_true', decide_eq_true_eq,
        decide_eq_false_iff_not] at hs hd ⊢
      omega
  rw [hbit, toNat_maskOutAbove, hr]
  by_cases hlt : dst.toNat < src.toNat + x.toNat
  · rw [decide_eq_true hlt, Bool.toNat_true]
    cases sz <;> simp only [Size.bits] at hs hd ⊢ <;> omega
  · rw [decide_eq_false hlt, Bool.toNat_false]
    cases sz <;> simp only [Size.bits] at hs hd ⊢ <;> omega

theorem bits_pos (sz : Size) : 0 < sz.bits := by cases sz <;> decide

/-- **Overflow.**  The overflow flag says that the signed sum is out of range. -/
theorem add_overflow (sz : Size) (hs : src.toNat < 2 ^ sz.bits) (hd : dst.toNat < 2 ^ sz.bits)
    {b : Bool} (hx : x.toNat = b.toNat) :
    bit (vflagAdd sz src dst (src + dst + x)) 7 = true ↔
      ¬(-2 ^ (sz.bits - 1) ≤ signed sz.bits src.toNat + signed sz.bits dst.toNat + b.toNat ∧
        signed sz.bits src.toNat + signed sz.bits dst.toNat + b.toNat < 2 ^ (sz.bits - 1)) := by
  have hsum := add_carry sz hs hd (by rw [hx]; exact Bool.toNat_le b)
  have hbit : bit (vflagAdd sz src dst (src + dst + x)) 7 =
      ((bit src (sz.bits - 1) ^^ bit (src + dst + x) (sz.bits - 1)) &&
        (bit dst (sz.bits - 1) ^^ bit (src + dst + x) (sz.bits - 1))) := by
    cases sz <;> simp [vflagAdd, Size.bits]
  rw [hbit, sign_bit, sign_bit, sign_bit, maskOutAbove_of_lt hs, maskOutAbove_of_lt hd]
  rw [hx] at hsum
  exact signed_add_fits (bits_pos sz) hs hd (maskOutAbove_lt sz _) hsum

theorem vflagSub_bit (sz : Size) (hs : src.toNat < 2 ^ sz.bits) (hd : dst.toNat < 2 ^ sz.bits)
    (r : UInt32) : bit (vflagSub sz src dst r) 7 =
      ((decide (2 ^ (sz.bits - 1) ≤ src.toNat) ^^ decide (2 ^ (sz.bits - 1) ≤ dst.toNat)) &&
        (decide (2 ^ (sz.bits - 1) ≤ (maskOutAbove sz r).toNat) ^^
          decide (2 ^ (sz.bits - 1) ≤ dst.toNat))) := by
  have hbit : bit (vflagSub sz src dst r) 7 =
      ((bit src (sz.bits - 1) ^^ bit dst (sz.bits - 1)) &&
        (bit r (sz.bits - 1) ^^ bit dst (sz.bits - 1))) := by
    cases sz <;> simp [vflagSub, Size.bits]
  rw [hbit, sign_bit, sign_bit, sign_bit, maskOutAbove_of_lt hs, maskOutAbove_of_lt hd]

theorem sub_overflow (sz : Size) (hs : src.toNat < 2 ^ sz.bits) (hd : dst.toNat < 2 ^ sz.bits)
    {b : Bool} (hx : x.toNat = b.toNat) :
    bit (vflagSub sz src dst (dst - src - x)) 7 = true ↔
      ¬(-2 ^ (sz.bits - 1) ≤ signed sz.bits dst.toNat - signed sz.bits src.toNat - b.toNat ∧
        signed sz.bits dst.toNat - signed sz.bits src.toNat - b.toNat < 2 ^ (sz.bits - 1)) := by
  have hdiff := sub_borrow sz hs hd (by rw [hx]; exact Bool.toNat_le b)
  rw [vflagSub_bit sz hs hd]
  rw [hx] at hdiff
  exact signed_sub_fits (bits_pos sz) hs hd (maskOutAbove_lt sz _) hdiff

end Numbers

/-! ### Conditions -/

def condCs (s : Cpu) : Bool := s.cFlag &&& 0x100 ≠ 0
def condCc (s : Cpu) : Bool := !condCs s
def condVs (s : Cpu) : Bool := s.vFlag &&& 0x80 ≠ 0
def condVc (s : Cpu) : Bool := !condVs s
def condNe (s : Cpu) : Bool := s.notZFlag ≠ 0
def condEq (s : Cpu) : Bool := !condNe s
def condMi (s : Cpu) : Bool := s.nFlag &&& 0x80 ≠ 0
def condPl (s : Cpu) : Bool := !condMi s
def condLt (s : Cpu) : Bool := (s.nFlag ^^^ s.vFlag) &&& 0x80 ≠ 0
def condGe (s : Cpu) : Bool := !condLt s
def condHi (s : Cpu) : Bool := condCc s && condNe s
def condLs (s : Cpu) : Bool := condCs s || condEq s
def condGt (s : Cpu) : Bool := condGe s && condNe s
def condLe (s : Cpu) : Bool := condLt s || condEq s

/-- The conditions of `g_cc_table` that come from the flags. -/
inductive Condition where
  | hi | ls | cc | cs | ne | eq | vc | vs | pl | mi | ge | lt | gt | le
deriving DecidableEq, Repr

/-- `COND_HI()` to `COND_LE()`. -/
def cond : Condition → Cpu → Bool
  | .hi => condHi
  | .ls => condLs
  | .cc => condCc
  | .cs => condCs
  | .ne => condNe
  | .eq => condEq
  | .vc => condVc
  | .vs => condVs
  | .pl => condPl
  | .mi => condMi
  | .ge => condGe
  | .lt => condLt
  | .gt => condGt
  | .le => condLe

/-- What the name of a condition says after `CMP src,dst` of `w` bits. -/
def Condition.Compares (w src dst : Nat) : Condition → Prop
  | .hi => src < dst
  | .ls => dst ≤ src
  | .cc => src ≤ dst
  | .cs => dst < src
  | .ne => dst ≠ src
  | .eq => dst = src
  | .vc => -2 ^ (w - 1) ≤ signed w dst - signed w src ∧ signed w dst - signed w src < 2 ^ (w - 1)
  | .vs => ¬(-2 ^ (w - 1) ≤ signed w dst - signed w src ∧ signed w dst - signed w src < 2 ^ (w - 1))
  | .pl => (dst + 2 ^ w - src) % 2 ^ w < 2 ^ (w - 1)
  | .mi => 2 ^ (w - 1) ≤ (dst + 2 ^ w - src) % 2 ^ w
  | .ge => signed w src ≤ signed w dst
  | .lt => signed w dst < signed w src
  | .gt => signed w src < signed w dst
  | .le => signed w dst ≤ signed w src

instance (w src dst : Nat) : (c : Condition) → Decidable (c.Compares w src dst)
  | .hi => inferInstanceAs (Decidable (src < dst))
  | .ls => inferInstanceAs (Decidable (dst ≤ src))
  | .cc => inferInstanceAs (Decidable (src ≤ dst))
  | .cs => inferInstanceAs (Decidable (dst < src))
  | .ne => inferInstanceAs (Decidable (dst ≠ src))
  | .eq => inferInstanceAs (Decidable (dst = src))
  | .vc => inferInstanceAs (Decidable (_ ∧ _))
  | .vs => inferInstanceAs (Decidable (¬(_ ∧ _)))
  | .pl => inferInstanceAs (Decidable ((dst + 2 ^ w - src) % 2 ^ w < 2 ^ (w - 1)))
  | .mi => inferInstanceAs (Decidable (2 ^ (w - 1) ≤ (dst + 2 ^ w - src) % 2 ^ w))
  | .ge => inferInstanceAs (Decidable (signed w src ≤ signed w dst))
  | .lt => inferInstanceAs (Decidable (signed w dst < signed w src))
  | .gt => inferInstanceAs (Decidable (signed w src < signed w dst))
  | .le => inferInstanceAs (Decidable (signed w dst ≤ signed w src))

/-! ### Comparing and branching -/

/-- The flags that `cmp` leaves. -/
def cmp (sz : Size) (src dst : UInt32) (s : Cpu) : Cpu :=
  let res := dst - src
  { s with
    nFlag := nflag sz res
    notZFlag := maskOutAbove sz res
    vFlag := vflagSub sz src dst res
    cFlag := cflagSub sz src dst res }

/-- `cmp, 8, ., d`, `cmp, 16, ., d` and `cmp, 32, ., d`. -/
def cmpD (sz : Size) (s : Cpu) : Cpu := cmp sz (low sz (s.dar s.dy)) (low sz (s.dar s.dx)) s

theorem condCs_eq (s : Cpu) : condCs s = bit s.cFlag 8 := by
  rw [Bool.eq_iff_iff, ← and_two_pow_ne_zero s.cFlag (by decide)]
  simp [condCs]

theorem condVs_eq (s : Cpu) : condVs s = bit s.vFlag 7 := by
  rw [Bool.eq_iff_iff, ← and_two_pow_ne_zero s.vFlag (by decide)]
  simp [condVs]

theorem condMi_eq (s : Cpu) : condMi s = bit s.nFlag 7 := by
  rw [Bool.eq_iff_iff, ← and_two_pow_ne_zero s.nFlag (by decide)]
  simp [condMi]

theorem condLt_eq (s : Cpu) : condLt s = (bit s.nFlag 7 ^^ bit s.vFlag 7) := by
  rw [← bit_xor, Bool.eq_iff_iff, ← and_two_pow_ne_zero (s.nFlag ^^^ s.vFlag) (by decide)]
  simp [condLt]

section Comparison

variable {sz : Size} {src dst : UInt32}

/-- The difference that a comparison forms, and the carry. -/
theorem cmp_difference (hs : src.toNat < 2 ^ sz.bits) (hd : dst.toNat < 2 ^ sz.bits) :
    (maskOutAbove sz (dst - src)).toNat + src.toNat =
      dst.toNat + 2 ^ sz.bits * (bit (cflagSub sz src dst (dst - src)) 8).toNat := by
  have h := sub_borrow sz hs hd (x := 0) (by decide)
  rw [UInt32.sub_zero] at h
  simpa using h

theorem condCs_cmp (hs : src.toNat < 2 ^ sz.bits) (hd : dst.toNat < 2 ^ sz.bits) (s : Cpu) :
    condCs (cmp sz src dst s) = true ↔ dst.toNat < src.toNat := by
  have h := cmp_difference hs hd
  have hlt := maskOutAbove_lt sz (dst - src)
  rw [condCs_eq, cmp]
  cases hc : bit (cflagSub sz src dst (dst - src)) 8 <;> simp [hc] at h ⊢ <;> omega

theorem condNe_cmp (hs : src.toNat < 2 ^ sz.bits) (hd : dst.toNat < 2 ^ sz.bits) (s : Cpu) :
    condNe (cmp sz src dst s) = true ↔ dst.toNat ≠ src.toNat := by
  have h := cmp_difference hs hd
  have hlt := maskOutAbove_lt sz (dst - src)
  have hne : condNe (cmp sz src dst s) = true ↔ (maskOutAbove sz (dst - src)).toNat ≠ 0 := by
    rw [condNe, cmp, decide_eq_true_eq, ne_eq, ne_eq, ← UInt32.toNat_inj]
    rfl
  rw [hne]
  cases hc : bit (cflagSub sz src dst (dst - src)) 8 <;> simp [hc] at h ⊢ <;> omega

theorem condVs_cmp (hs : src.toNat < 2 ^ sz.bits) (hd : dst.toNat < 2 ^ sz.bits) (s : Cpu) :
    condVs (cmp sz src dst s) = true ↔ Condition.vs.Compares sz.bits src.toNat dst.toNat := by
  have h := sub_overflow sz hs hd (x := 0) (b := false) rfl
  rw [UInt32.sub_zero] at h
  rw [condVs_eq, cmp, h, Condition.Compares]
  simp

theorem condMi_cmp (hs : src.toNat < 2 ^ sz.bits) (hd : dst.toNat < 2 ^ sz.bits) (s : Cpu) :
    condMi (cmp sz src dst s) = true ↔ Condition.mi.Compares sz.bits src.toNat dst.toNat := by
  have h := cmp_difference hs hd
  have hlt := maskOutAbove_lt sz (dst - src)
  have hres : (maskOutAbove sz (dst - src)).toNat =
      (dst.toNat + 2 ^ sz.bits - src.toNat) % 2 ^ sz.bits := by
    cases hc : bit (cflagSub sz src dst (dst - src)) 8 with
    | true =>
      simp only [hc, Bool.toNat_true, Nat.mul_one] at h
      rw [← h, Nat.add_sub_cancel, Nat.mod_eq_of_lt hlt]
    | false =>
      simp only [hc, Bool.toNat_false, Nat.mul_zero, Nat.add_zero] at h
      rw [← h, Nat.add_right_comm, Nat.add_sub_cancel, Nat.add_mod_right, Nat.mod_eq_of_lt hlt]
  rw [condMi_eq, cmp, nflag_bit, sign_bit, hres, decide_eq_true_eq]
  rfl

theorem condLt_cmp (hs : src.toNat < 2 ^ sz.bits) (hd : dst.toNat < 2 ^ sz.bits) (s : Cpu) :
    condLt (cmp sz src dst s) = true ↔
      signed sz.bits dst.toNat < signed sz.bits src.toNat := by
  rw [condLt_eq, cmp, nflag_bit, sign_bit, vflagSub_bit sz hs hd]
  exact signed_lt_iff (bits_pos sz) hs hd (maskOutAbove_lt sz _) (cmp_difference hs hd)

theorem signed_inj {w a b : Nat} (hw : 0 < w) (ha : a < 2 ^ w) (hb : b < 2 ^ w) :
    signed w a = signed w b ↔ a = b := by
  have hpow := two_pow_half hw
  unfold signed
  zify at ha hb ⊢
  rw [hpow] at ha hb ⊢
  generalize (2 : Int) ^ (w - 1) = half at *
  split_ifs <;> omega

/-- **The conditions after a comparison.** -/
theorem cond_cmp (hs : src.toNat < 2 ^ sz.bits) (hd : dst.toNat < 2 ^ sz.bits) (c : Condition)
    (s : Cpu) : cond c (cmp sz src dst s) = true ↔ c.Compares sz.bits src.toNat dst.toNat := by
  have hcs := condCs_cmp hs hd s
  have hne := condNe_cmp hs hd s
  have hvs := condVs_cmp hs hd s
  have hmi := condMi_cmp hs hd s
  have hlt := condLt_cmp hs hd s
  have hinj := signed_inj (bits_pos sz) hd hs
  have hnot : ∀ b : Bool, (!b) = true ↔ ¬b = true := by decide
  cases c with
  | cs => exact hcs
  | cc => rw [cond, condCc, hnot, hcs, Condition.Compares, Nat.not_lt]
  | ne => exact hne
  | eq => rw [cond, condEq, hnot, hne, Condition.Compares, not_not]
  | vs => exact hvs
  | vc => rw [cond, condVc, hnot, hvs, Condition.Compares, Condition.Compares, not_not]
  | mi => exact hmi
  | pl => rw [cond, condPl, hnot, hmi, Condition.Compares, Condition.Compares, Nat.not_le]
  | lt => exact hlt
  | ge => rw [cond, condGe, hnot, hlt, Condition.Compares, Int.not_lt]
  | hi =>
    rw [cond, condHi, condCc, Bool.and_eq_true, hnot, hcs, hne, Condition.Compares]
    omega
  | ls =>
    rw [cond, condLs, condEq, Bool.or_eq_true, hnot, hcs, hne, Condition.Compares]
    omega
  | gt =>
    rw [cond, condGt, condGe, Bool.and_eq_true, hnot, hlt, hne, Condition.Compares, ne_eq, ← hinj]
    omega
  | le =>
    rw [cond, condLe, condEq, Bool.or_eq_true, hnot, hlt, hne, Condition.Compares, ne_eq, ← hinj]
    omega

end Comparison

/-- `m68ki_branch_8`, `m68ki_branch_16` and `m68ki_branch_32`. -/
def branch8 (offset : UInt32) (s : Cpu) : Cpu := s.setPc (s.pc + makeInt .byte offset)
def branch16 (offset : UInt32) (s : Cpu) : Cpu := s.setPc (s.pc + makeInt .word offset)
def branch32 (offset : UInt32) (s : Cpu) : Cpu := s.setPc (s.pc + offset)

/-- `bcc, 8`: the displacement is in the opcode. -/
def bcc8 (c : Condition) (s : Cpu) : Cpu :=
  if cond c s then branch8 (s.ir &&& 0xff) s else s

def bcc16 (c : Condition) (s : Cpu) : Run Cpu :=
  if cond c s then do
    let (offset, s) ← readImm16 s
    return branch16 offset (s.setPc (s.pc - 2))
  else return s.setPc (s.pc + 2)

def bcc32 (c : Condition) (s : Cpu) : Run Cpu :=
  if cond c s then do
    let (offset, s) ← readImm32 s
    return branch32 offset (s.setPc (s.pc - 4))
  else return s.setPc (s.pc + 4)

/-- Where a branch goes: by a displacement of `w` bits from the word behind the opcode, or
    on, past the displacement. -/
def branched (taken : Prop) [Decidable taken] (pc w d len : Nat) : Int :=
  if taken then (pc + signed w d) % 2 ^ 32 else (pc + len) % 2 ^ 32

theorem cond_fetch {s t : Cpu} (h : fetch s = Except.ok t) (c : Condition) : cond c t = cond c s := by
  obtain ⟨v, -, rfl⟩ := fetch_eq_ok.mp h
  cases c <;> rfl

theorem pc_add_makeInt (sz : Size) (pc v : UInt32) :
    ((pc + makeInt sz v).toNat : Int) =
      (pc.toNat + signed sz.bits (v.toNat % 2 ^ sz.bits)) % 2 ^ 32 := by
  have h := toNat_makeInt sz v
  rw [UInt32.toNat_add]
  omega

section Branches

variable {c : Condition} {t u : Cpu} {taken : Prop} [Decidable taken]

theorem bcc8_branched (h : cond c t = true ↔ taken) :
    ((bcc8 c t).pc.toNat : Int) = branched taken t.pc.toNat 8 (t.ir.toNat % 2 ^ 8) 0 ∧
      bcc8 c t = t.setPc (bcc8 c t).pc := by
  have hlow : (t.ir &&& 0xff).toNat = t.ir.toNat % 2 ^ 8 := @toNat_and_mask t.ir 8 (by decide)
  have hadd := pc_add_makeInt .byte t.pc (t.ir &&& 0xff)
  have hlt := t.pc.toNat_lt
  rw [hlow, Size.bits, Nat.mod_mod] at hadd
  unfold bcc8 branched
  by_cases htaken : taken
  · rw [if_pos (h.mpr htaken), if_pos htaken]
    exact ⟨hadd, rfl⟩
  · rw [if_neg (fun hc => htaken (h.mp hc)), if_neg htaken]
    refine ⟨?_, rfl⟩
    omega

theorem bcc16_branched (h : cond c t = true ↔ taken) (hu : bcc16 c t = Except.ok u) :
    (u.pc.toNat : Int) = branched taken t.pc.toNat 16 (ofBigEndian (slice t.memory t.pc.toNat 2)) 2 ∧
      u = t.setPc u.pc := by
  have hlt := ofBigEndian_slice_lt t.memory t.pc.toNat 2
  unfold bcc16 at hu
  unfold branched
  by_cases htaken : taken
  · simp only [if_pos (h.mpr htaken), Run.bind_eq_ok, Prod.exists, readImm16_eq_ok,
      Run.pure_eq_ok, Run.ok_inj] at hu
    obtain ⟨offset, -, ⟨hread, rfl⟩, rfl⟩ := hu
    have hadd := pc_add_makeInt .word t.pc offset
    rw [(read16_eq_ok.mp hread).2, Size.bits, Nat.mod_eq_of_lt hlt] at hadd
    simpa [branch16, htaken] using hadd
  · simp only [if_neg (fun hc => htaken (h.mp hc)), Run.pure_eq_ok, Run.ok_inj] at hu
    subst hu
    simp [htaken]

theorem bcc32_branched (h : cond c t = true ↔ taken) (hu : bcc32 c t = Except.ok u) :
    (u.pc.toNat : Int) = branched taken t.pc.toNat 32 (ofBigEndian (slice t.memory t.pc.toNat 4)) 4 ∧
      u = t.setPc u.pc := by
  have hlt := ofBigEndian_slice_lt t.memory t.pc.toNat 4
  unfold bcc32 at hu
  unfold branched
  by_cases htaken : taken
  · simp only [if_pos (h.mpr htaken), Run.bind_eq_ok, Prod.exists, readImm32_eq_ok,
      Run.pure_eq_ok, Run.ok_inj] at hu
    obtain ⟨offset, -, ⟨hread, rfl⟩, rfl⟩ := hu
    have hadd := pc_add_makeInt .long t.pc offset
    rw [(read32_eq_ok.mp hread).2, Size.bits, Nat.mod_eq_of_lt hlt] at hadd
    simpa [branch32, makeInt, htaken] using hadd
  · simp only [if_neg (fun hc => htaken (h.mp hc)), Run.pure_eq_ok, Run.ok_inj] at hu
    subst hu
    simp [htaken]

end Branches

/-- **A comparison and a branch.**  The branch after `cmp` is taken when the comparison that
    it is named after holds of the operands, and nothing but the program counter changes. -/
theorem cmp_bcc (sz : Size) (c : Condition) {s t : Cpu} (h : fetch (cmpD sz s) = Except.ok t) :
    let taken := c.Compares sz.bits ((s.dar s.dy).toNat % 2 ^ sz.bits)
      ((s.dar s.dx).toNat % 2 ^ sz.bits)
    (((bcc8 c t).pc.toNat : Int) = branched taken t.pc.toNat 8 (t.ir.toNat % 2 ^ 8) 0 ∧
      bcc8 c t = t.setPc (bcc8 c t).pc) ∧
    (∀ u, bcc16 c t = Except.ok u →
      (u.pc.toNat : Int) =
        branched taken t.pc.toNat 16 (ofBigEndian (slice t.memory t.pc.toNat 2)) 2 ∧
      u = t.setPc u.pc) ∧
    (∀ u, bcc32 c t = Except.ok u →
      (u.pc.toNat : Int) =
        branched taken t.pc.toNat 32 (ofBigEndian (slice t.memory t.pc.toNat 4)) 4 ∧
      u = t.setPc u.pc) := by
  have hcond := cond_cmp (low_lt sz (s.dar s.dy)) (low_lt sz (s.dar s.dx)) c s
  rw [toNat_low, toNat_low] at hcond
  have htaken := (cond_fetch h c).symm ▸ hcond
  exact ⟨bcc8_branched htaken, fun u => bcc16_branched htaken, fun u => bcc32_branched htaken⟩

theorem cmp_bcc_eq : ∃ t, fetch (cmpD .word m68kiCpu) = Except.ok t ∧
    ((bcc8 .eq t).pc.toNat : Int) =
      branched (Condition.eq.Compares 16 0 0) t.pc.toNat 8 (t.ir.toNat % 2 ^ 8) 0 := by
  obtain ⟨t, ht⟩ : ∃ t, fetch (cmpD .word m68kiCpu) = Except.ok t := ⟨_, rfl⟩
  exact ⟨t, ht, (cmp_bcc .word .eq ht).1.1⟩

end ParaTos.Cpu
