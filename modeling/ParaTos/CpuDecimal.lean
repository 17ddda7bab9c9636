/-
  ParaTos/CpuDecimal.lean
  =======================
  **Decimal numbers** (`mushashi/m68k_in.c`: `abcd`, `sbcd`).

  A byte holds two decimal digits, one in each nibble.  The code adds the low nibbles,
  corrects by 6 past 9, adds the high nibbles and corrects by 0xa0 past 99; `sbcd` goes
  the other way, through words that wrap.  On decimal bytes this is a limb of base 100,
  so runs of them are long decimal sums and differences.
-/
import ParaTos.CpuChains

namespace ParaTos.Cpu

open Bytes Limbs Memory WordBits

/-! ### The instructions -/

/-- `(res > 0x99) << 8`. -/
def decimalCarry (res : UInt32) : UInt32 := (decide (res > 0x99)).toUInt32 <<< 8

/-- The low nibbles, corrected, and the high ones. -/
def abcdSum (src dst x : UInt32) : UInt32 :=
  let res := (src &&& 0x0f) + (dst &&& 0x0f) + x
  (if res > 9 then res + 6 else res) + ((src &&& 0xf0) + (dst &&& 0xf0))

def sbcdDifference (src dst x : UInt32) : UInt32 :=
  let res := (dst &&& 0x0f) - (src &&& 0x0f) - x
  (if res > 9 then res - 6 else res) + ((dst &&& 0xf0) - (src &&& 0xf0))

/-- The result of `abcd`, and the flags that it leaves. -/
def abcd (src dst : UInt32) (s : Cpu) : UInt32 × Cpu :=
  let sum := abcdSum src dst s.xflagAs1
  let carry := decimalCarry sum
  let res := if carry ≠ 0 then sum - 0xa0 else sum
  (maskOutAbove .byte res,
    { s with
      vFlag := ~~~((src &&& 0x0f) + (dst &&& 0x0f) + s.xflagAs1) &&& res
      xFlag := carry
      cFlag := carry
      nFlag := nflag .byte res
      notZFlag := s.notZFlag ||| maskOutAbove .byte res })

/-- The result of `sbcd`; here the sign and the overflow come from the masked byte. -/
def sbcd (src dst : UInt32) (s : Cpu) : UInt32 × Cpu :=
  let difference := sbcdDifference src dst s.xflagAs1
  let carry := decimalCarry difference
  let res := maskOutAbove .byte (if carry ≠ 0 then difference + 0xa0 else difference)
  (res,
    { s with
      vFlag := ~~~((dst &&& 0x0f) - (src &&& 0x0f) - s.xflagAs1) &&& res
      xFlag := carry
      cFlag := carry
      nFlag := nflag .byte res
      notZFlag := s.notZFlag ||| res })

/-- `abcd, 8, rr, .` and `sbcd, 8, rr, .`: only the low bytes of the registers are looked at. -/
def digitsRr (op : UInt32 → UInt32 → Cpu → UInt32 × Cpu) (s : Cpu) : Cpu :=
  let (res, t) := op (s.dar s.dy) (s.dar s.dx) s
  t.setReg s.dx (maskInto .byte (s.dar s.dx) res)

def abcd8Rr : Cpu → Cpu := digitsRr abcd
def sbcd8Rr : Cpu → Cpu := digitsRr sbcd

/-- `abcd, 8, mm, .`, and its forms for the stack pointer. -/
def abcd8Mm (s : Cpu) : Run Cpu := limbMm abcd .byte s.ay 1 s.ax 1 s
def abcd8MmAx7 (s : Cpu) : Run Cpu := limbMm abcd .byte s.ay 1 regSp 2 s
def abcd8MmAy7 (s : Cpu) : Run Cpu := limbMm abcd .byte regSp 2 s.ax 1 s
def abcd8MmAxy7 (s : Cpu) : Run Cpu := limbMm abcd .byte regSp 2 regSp 2 s

def sbcd8Mm (s : Cpu) : Run Cpu := limbMm sbcd .byte s.ay 1 s.ax 1 s
def sbcd8MmAx7 (s : Cpu) : Run Cpu := limbMm sbcd .byte s.ay 1 regSp 2 s
def sbcd8MmAy7 (s : Cpu) : Run Cpu := limbMm sbcd .byte regSp 2 s.ax 1 s
def sbcd8MmAxy7 (s : Cpu) : Run Cpu := limbMm sbcd .byte regSp 2 regSp 2 s

/-! ### Decimal bytes -/

/-- Two decimal digits. -/
def Decimal (b : UInt8) : Prop := b.toNat % 16 ≤ 9 ∧ b.toNat / 16 ≤ 9

instance : DecidablePred Decimal := fun _ => inferInstanceAs (Decidable (_ ∧ _))

def decimal (b : UInt8) : Nat := b.toNat / 16 * 10 + b.toNat % 16

theorem toNat_lowNibble (v : UInt32) : (v &&& 0x0f).toNat = v.toNat % 16 :=
  @toNat_and_mask v 4 (by decide)

theorem toNat_highNibble {v : UInt32} (h : v.toNat < 256) :
    (v &&& 0xf0).toNat = v.toNat / 16 * 16 := by
  have hall : ∀ n : Fin 256, n.val &&& 0xf0 = n.val / 16 * 16 := by decide +kernel
  exact (UInt32.toNat_and v 0xf0).trans (hall ⟨_, h⟩)

theorem decimalCarry_bit (v : UInt32) : bit (decimalCarry v) 8 = decide (0x99 < v.toNat) := by
  have hgt : v > 0x99 ↔ 0x99 < v.toNat := UInt32.lt_iff_toNat_lt
  rw [← decide_eq_decide.mpr hgt, decimalCarry]
  cases decide (v > 0x99) <;> decide

theorem decimalCarry_ne_zero (v : UInt32) : decimalCarry v ≠ 0 ↔ 0x99 < v.toNat := by
  have hgt : v > 0x99 ↔ 0x99 < v.toNat := UInt32.lt_iff_toNat_lt
  rw [← hgt, ← decide_eq_true_iff (p := v > 0x99), decimalCarry]
  cases decide (v > 0x99) <;> decide

/-- A word that holds two decimal digits. -/
structure Digits (v : UInt32) (high low : Nat) : Prop where
  value : v.toNat = 16 * high + low
  low : low ≤ 9
  high : high ≤ 9

section Digits

variable {src dst x : UInt32} {sh sl dh dl : Nat}

theorem Digits.lowNibble (h : Digits src sh sl) : (src &&& 0x0f).toNat = sl := by
  have hl := h.low
  rw [toNat_lowNibble, h.value]
  omega

theorem Digits.highNibble (h : Digits src sh sl) : (src &&& 0xf0).toNat = 16 * sh := by
  have hl := h.low
  have hh := h.high
  have hv := h.value
  rw [toNat_highNibble (by omega), hv]
  omega

theorem toNat_abcdSum (hs : Digits src sh sl) (hd : Digits dst dh dl) (hx : x.toNat ≤ 1) :
    (abcdSum src dst x).toNat = 16 * sh + sl + (16 * dh + dl) + x.toNat +
      if 9 < sl + dl + x.toNat then 6 else 0 := by
  have hsl := hs.low
  have hsh := hs.high
  have hdl := hd.low
  have hdh := hd.high
  obtain ⟨res, hres⟩ : ∃ res, res = (src &&& 0x0f) + (dst &&& 0x0f) + x := ⟨_, rfl⟩
  have hn : res.toNat = sl + dl + x.toNat := by
    rw [hres, UInt32.toNat_add, UInt32.toNat_add, hs.lowNibble, hd.lowNibble]
    omega
  have h9 : res > 9 ↔ 9 < sl + dl + x.toNat := by
    rw [← hn]
    exact UInt32.lt_iff_toNat_lt
  have h6 : (6 : UInt32).toNat = 6 := rfl
  simp only [abcdSum, ← hres]
  rw [UInt32.toNat_add, UInt32.toNat_add, hs.highNibble, hd.highNibble]
  by_cases h : 9 < sl + dl + x.toNat
  · rw [if_pos (h9.mpr h), if_pos h, UInt32.toNat_add, hn, h6]
    omega
  · rw [if_neg (fun hlt => h (h9.mp hlt)), if_neg h, hn]
    omega

/-- The difference may wrap, by one turn at most. -/
theorem toNat_sbcdDifference (hs : Digits src sh sl) (hd : Digits dst dh dl) (hx : x.toNat ≤ 1) :
    ((sbcdDifference src dst x).toNat + (16 * sh + sl + x.toNat +
      if dl < sl + x.toNat then 6 else 0)) % 2 ^ 32 = 16 * dh + dl := by
  have hsl := hs.low
  have hsh := hs.high
  have hdl := hd.low
  have hdh := hd.high
  obtain ⟨res, hres⟩ : ∃ res, res = (dst &&& 0x0f) - (src &&& 0x0f) - x := ⟨_, rfl⟩
  have hn : (res.toNat + (sl + x.toNat)) % 2 ^ 32 = dl := by
    rw [hres, UInt32.toNat_sub, UInt32.toNat_sub, hs.lowNibble, hd.lowNibble]
    omega
  have hlt := res.toNat_lt
  have h9 : res > 9 ↔ dl < sl + x.toNat := by
    have h9n : (9 : UInt32).toNat = 9 := rfl
    rw [gt_iff_lt, UInt32.lt_iff_toNat_lt, h9n]
    omega
  have h6 : (6 : UInt32).toNat = 6 := rfl
  simp only [sbcdDifference, ← hres]
  rw [UInt32.toNat_add, UInt32.toNat_sub, hs.highNibble, hd.highNibble]
  by_cases h : dl < sl + x.toNat
  · rw [if_pos (h9.mpr h), if_pos h, UInt32.toNat_sub, h6]
    omega
  · rw [if_neg (fun hlt => h (h9.mp hlt)), if_neg h]
    omega

/-- The two digits of a sum, and its carry. -/
theorem abcd_digits (s : Cpu) (hs : Digits src sh sl) (hd : Digits dst dh dl) :
    ∃ high low, Digits (abcd src dst s).1 high low ∧
      10 * high + low + 100 * (bit (abcd src dst s).2.xFlag 8).toNat =
        10 * dh + dl + (10 * sh + sl) + (bit s.xFlag 8).toNat := by
  have hsl := hs.low
  have hsh := hs.high
  have hdl := hd.low
  have hdh := hd.high
  have hx := xflagAs1_le s
  have hsum := toNat_abcdSum hs hd hx
  have hcarry : bit (abcd src dst s).2.xFlag 8 =
      decide (0x99 < (abcdSum src dst s.xflagAs1).toNat) := decimalCarry_bit _
  have h160 : (0xa0 : UInt32).toNat = 160 := rfl
  rw [← toNat_xflagAs1 s, hcarry]
  refine ⟨(abcd src dst s).1.toNat / 16, (abcd src dst s).1.toNat % 16, ?_⟩
  by_cases h : 0x99 < (abcdSum src dst s.xflagAs1).toNat
  · have hres : (abcd src dst s).1.toNat + 160 = (abcdSum src dst s.xflagAs1).toNat := by
      simp only [abcd, if_pos ((decimalCarry_ne_zero _).mpr h), toNat_maskOutAbove, Size.bits]
      rw [UInt32.toNat_sub, h160]
      split at hsum <;> omega
    rw [decide_eq_true h, Bool.toNat_true]
    refine ⟨⟨?_, ?_, ?_⟩, ?_⟩ <;> split at hsum <;> omega
  · have hres : (abcd src dst s).1.toNat = (abcdSum src dst s.xflagAs1).toNat := by
      simp only [abcd, if_neg (fun hc => h ((decimalCarry_ne_zero _).mp hc)), toNat_maskOutAbove,
        Size.bits]
      omega
    rw [decide_eq_false h, Bool.toNat_false]
    refine ⟨⟨?_, ?_, ?_⟩, ?_⟩ <;> split at hsum <;> omega

/-- The two digits of a difference, and its borrow. -/
theorem sbcd_digits (s : Cpu) (hs : Digits src sh sl) (hd : Digits dst dh dl) :
    ∃ high low, Digits (sbcd src dst s).1 high low ∧
      10 * high + low + (10 * sh + sl) + (bit s.xFlag 8).toNat =
        10 * dh + dl + 100 * (bit (sbcd src dst s).2.xFlag 8).toNat := by
  have hsl := hs.low
  have hsh := hs.high
  have hdl := hd.low
  have hdh := hd.high
  have hx := xflagAs1_le s
  have hsum := toNat_sbcdDifference hs hd hx
  have hlt := (sbcdDifference src dst s.xflagAs1).toNat_lt
  have hcarry : bit (sbcd src dst s).2.xFlag 8 =
      decide (0x99 < (sbcdDifference src dst s.xflagAs1).toNat) := decimalCarry_bit _
  have h160 : (0xa0 : UInt32).toNat = 160 := rfl
  rw [← toNat_xflagAs1 s, hcarry]
  refine ⟨(sbcd src dst s).1.toNat / 16, (sbcd src dst s).1.toNat % 16, ?_⟩
  by_cases h : 0x99 < (sbcdDifference src dst s.xflagAs1).toNat
  · have hres : (sbcd src dst s).1.toNat + 2 ^ 32 =
        (sbcdDifference src dst s.xflagAs1).toNat + 160 := by
      simp only [sbcd, if_pos ((decimalCarry_ne_zero _).mpr h), toNat_maskOutAbove, Size.bits]
      rw [UInt32.toNat_add, h160]
      split at hsum <;> omega
    rw [decide_eq_true h, Bool.toNat_true]
    refine ⟨⟨?_, ?_, ?_⟩, ?_⟩ <;> split at hsum <;> omega
  · have hres : (sbcd src dst s).1.toNat = (sbcdDifference src dst s.xflagAs1).toNat := by
      simp only [sbcd, if_neg (fun hc => h ((decimalCarry_ne_zero _).mp hc)), toNat_maskOutAbove,
        Size.bits]
      omega
    rw [decide_eq_false h, Bool.toNat_false]
    refine ⟨⟨?_, ?_, ?_⟩, ?_⟩ <;> split at hsum <;> omega

end Digits

/-! ### Long decimal numbers -/

theorem digits_of_decimal {v : UInt32} (hv : v.toNat < 256)
    (h : ∀ b ∈ bigEndian 1 v.toNat, Decimal b) : Digits v (v.toNat / 16) (v.toNat % 16) := by
  have hd : Decimal (UInt8.ofNat v.toNat) := h _ (by simp [bigEndian])
  rw [Decimal, UInt8.toNat_ofNat_of_lt' hv] at hd
  exact ⟨(Nat.div_add_mod _ 16).symm, hd.1, hd.2⟩

theorem Digits.positional {v : UInt32} {high low : Nat} (h : Digits v high low) :
    positional 100 decimal (bigEndian 1 v.toNat) = 10 * high + low ∧
      ∀ b ∈ bigEndian 1 v.toNat, Decimal b := by
  have hv := h.value
  have hl := h.low
  have hh := h.high
  have hbyte : (UInt8.ofNat v.toNat).toNat = v.toNat := UInt8.toNat_ofNat_of_lt' (by
    have hsize : UInt8.size = 256 := rfl
    omega)
  have hone : bigEndian 1 v.toNat = [UInt8.ofNat v.toNat] := by simp [bigEndian]
  rw [hone]
  constructor
  · rw [Limbs.positional, List.foldl_cons, List.foldl_nil, decimal, hbyte]
    omega
  · intro b hb
    obtain rfl := List.mem_singleton.mp hb
    rw [Decimal, hbyte]
    omega

/-- Both instructions work on decimal bytes. -/
theorem decimal_limbOp {R : Nat → Nat → Nat → Nat → Bool → Bool → Prop}
    {op : UInt32 → UInt32 → Cpu → UInt32 × Cpu}
    (hrest : ∀ src dst s, rest (op src dst s).2 = rest s)
    (hdar : ∀ src dst s, (op src dst s).2.dar = s.dar)
    (hmemory : ∀ src dst s, (op src dst s).2.memory = s.memory)
    (hzero : ∀ src dst s, (op src dst s).2.notZFlag = s.notZFlag ||| (op src dst s).1)
    (hop : ∀ {src dst sh sl dh dl} s, Digits src sh sl → Digits dst dh dl →
      ∃ high low, Digits (op src dst s).1 high low ∧
        R 100 (10 * dh + dl) (10 * sh + sl) (10 * high + low) (bit s.xFlag 8)
          (bit (op src dst s).2.xFlag 8)) :
    LimbOp R 100 decimal Decimal Size.byte.bytes op where
  rest := hrest
  dar := hdar
  memory := hmemory
  result := by
    intro src dst s hs hd hgs hgd
    have hsrc := digits_of_decimal hs hgs
    have hdst := digits_of_decimal hd hgd
    obtain ⟨high, low, hres, hR⟩ := hop s hsrc hdst
    rw [Size.bytes, pow_one, hsrc.positional.1, hdst.positional.1, hres.positional.1]
    refine ⟨hR, ?_, hres.positional.2⟩
    have hv := hres.value
    rw [hzero, or_eq_zero]
    refine and_congr_right fun _ => ?_
    omega

theorem abcd_limbOp : LimbOp Adds 100 decimal Decimal Size.byte.bytes abcd :=
  decimal_limbOp (fun _ _ _ => rfl) (fun _ _ _ => rfl) (fun _ _ _ => rfl) (fun _ _ _ => rfl)
    abcd_digits

theorem sbcd_limbOp : LimbOp Subs 100 decimal Decimal Size.byte.bytes sbcd :=
  decimal_limbOp (fun _ _ _ => rfl) (fun _ _ _ => rfl) (fun _ _ _ => rfl) (fun _ _ _ => rfl)
    sbcd_digits

/-- **Long decimal sums.**  `n` times `abcd -(Ay),-(Ax)` adds two numbers of `2 * n` decimal
    digits; the result is decimal again. -/
theorem abcd_run (n : Nat) {s : Cpu} (hne : s.ax ≠ s.ay) (hx : Below Decimal s s.ax n)
    (hy : Below Decimal s s.ay n)
    (happ : (s.dar s.ay).toNat ≤ (s.dar s.ax).toNat ∨
      (s.dar s.ax).toNat + n ≤ (s.dar s.ay).toNat) :
    ∃ t, times abcd8Mm n s = Except.ok t ∧ LongResult Adds 100 decimal Decimal n s t := by
  have hrun := limbMm_run adds_chains (by decide : 0 < 100) abcd_limbOp (fun _ => rfl) n hne
  simp only [Size.bytes, Nat.one_mul] at hrun
  exact hrun hx hy happ

/-- The processor before `abcd -(A1),-(A0)`, with 99999 and 1. -/
def beforeAbcd : Cpu :=
  { m68kiCpu with
    ir := 0xc109
    dar := fun r => if r = 8 then 0x10003 else if r = 9 then 0x20003 else 0
    memory := Bytes.write (Bytes.write initM68KMemory 0x10000 [0x09, 0x99, 0x99]) 0x20002 [0x01] }

theorem abcd_run_three : ∃ t, times abcd8Mm 3 beforeAbcd = Except.ok t ∧
    LongResult Adds 100 decimal Decimal 3 beforeAbcd t :=
  abcd_run 3 (by decide) (by decide) (by decide) (by decide)

/-- **Long decimal differences.** -/
theorem sbcd_run (n : Nat) {s : Cpu} (hne : s.ax ≠ s.ay) (hx : Below Decimal s s.ax n)
    (hy : Below Decimal s s.ay n)
    (happ : (s.dar s.ay).toNat ≤ (s.dar s.ax).toNat ∨
      (s.dar s.ax).toNat + n ≤ (s.dar s.ay).toNat) :
    ∃ t, times sbcd8Mm n s = Except.ok t ∧ LongResult Subs 100 decimal Decimal n s t := by
  have hrun := limbMm_run subs_chains (by decide : 0 < 100) sbcd_limbOp (fun _ => rfl) n hne
  simp only [Size.bytes, Nat.one_mul] at hrun
  exact hrun hx hy happ

theorem sbcd_run_three : ∃ t, times sbcd8Mm 3 beforeAbcd = Except.ok t ∧
    LongResult Subs 100 decimal Decimal 3 beforeAbcd t :=
  sbcd_run 3 (by decide) (by decide) (by decide) (by decide)

end ParaTos.Cpu
