/-
  ParaTos/CpuStatus.lean
  ======================
  **The status register and the three stack pointers** (`mushashi/m68kcpu.h`).

  The status register is kept in pieces, one word a flag.  There is one active stack
  pointer, `REG_SP`; the others lie in `REG_SP_BASE`, at an index made of the flags `S`
  and `M`, and they are exchanged when the flags change.

  For a program there are three stack pointers, one for each bank, and a status register
  of 16 bits.  `pointer` and `getSr` are this view: writing the status register sets it,
  but for the bits that are not there (`getSr_setSrNoint`), and leaves all three pointers
  (`pointer_setSrNoint`); writing the active stack pointer changes that of its bank
  (`pointer_setReg`).
-/
import ParaTos.CpuFlags
import Mathlib.Tactic.IntervalCases

namespace ParaTos.Cpu

open WordBits

/-! ### Reading and writing -/

/-- `m68ki_get_ccr`. -/
def getCcr (s : Cpu) : UInt32 :=
  ((s.xFlag &&& 0x100) >>> 4) ||| ((s.nFlag &&& 0x80) >>> 4) ||| ((condEq s).toUInt32 <<< 2) |||
    ((s.vFlag &&& 0x80) >>> 6) ||| ((s.cFlag &&& 0x100) >>> 8)

/-- `m68ki_get_sr`. -/
def getSr (s : Cpu) : UInt32 :=
  s.t1Flag ||| s.t0Flag ||| (s.sFlag <<< 11) ||| (s.mFlag <<< 11) ||| s.intMask ||| getCcr s

/-- `m68ki_set_ccr`. -/
def setCcr (value : UInt32) (s : Cpu) : Cpu :=
  { s with
    xFlag := (value &&& 0x10) <<< 4
    nFlag := (value &&& 0x8) <<< 4
    notZFlag := (decide (value &&& 0x4 = 0)).toUInt32
    vFlag := (value &&& 0x2) <<< 6
    cFlag := (value &&& 0x1) <<< 8 }

/-- `FLAG_S | ((FLAG_S>>1) & FLAG_M)`. -/
def spIndex (sFlag mFlag : UInt32) : Fin 7 := Fin.ofNat 7 (sFlag ||| ((sFlag >>> 1) &&& mFlag)).toNat

/-- The active stack pointer goes to its place, the flags change, and the one of the new
    flags becomes active. -/
def changeSp (sFlag mFlag : UInt32) (s : Cpu) : Cpu :=
  let sp := Function.update s.sp (spIndex s.sFlag s.mFlag) (s.dar regSp)
  { s with sp := sp, sFlag := sFlag, mFlag := mFlag }.setReg regSp (sp (spIndex sFlag mFlag))

/-- `m68ki_set_s_flag`. -/
def setSFlag (value : UInt32) (s : Cpu) : Cpu := changeSp value s.mFlag s

/-- `m68ki_set_sm_flag`. -/
def setSmFlag (value : UInt32) (s : Cpu) : Cpu := changeSp (value &&& 4) (value &&& 2) s

/-- The pieces but for `S` and `M`. -/
def setUpper (value : UInt32) (s : Cpu) : Cpu :=
  { s with t1Flag := value &&& 0x8000, t0Flag := value &&& 0x4000, intMask := value &&& 0x700 }

/-- `m68ki_set_sr_noint`. -/
def setSrNoint (value : UInt32) (s : Cpu) : Cpu :=
  let value := value &&& 0xf71f
  setSmFlag ((value >>> 11) &&& 6) (setCcr value (setUpper value s))

/-! ### The flags in their places -/

/-- Every flag of the upper byte is in its bit. -/
structure Status (s : Cpu) : Prop where
  t1 : s.t1Flag &&& 0x8000 = s.t1Flag
  t0 : s.t0Flag &&& 0x4000 = s.t0Flag
  sFlag : s.sFlag &&& 4 = s.sFlag
  mFlag : s.mFlag &&& 2 = s.mFlag
  intMask : s.intMask &&& 0x700 = s.intMask

instance (s : Cpu) : Decidable (Status s) :=
  decidable_of_iff (s.t1Flag &&& 0x8000 = s.t1Flag ∧ s.t0Flag &&& 0x4000 = s.t0Flag ∧
      s.sFlag &&& 4 = s.sFlag ∧ s.mFlag &&& 2 = s.mFlag ∧ s.intMask &&& 0x700 = s.intMask)
    ⟨fun ⟨t1, t0, sf, mf, im⟩ => ⟨t1, t0, sf, mf, im⟩, fun ⟨t1, t0, sf, mf, im⟩ => ⟨t1, t0, sf, mf, im⟩⟩

theorem and_four (v : UInt32) : v &&& 4 = if bit v 2 then 4 else 0 := @and_two_pow v 2 (by decide)

theorem and_four_cases (v : UInt32) : v &&& 4 = 0 ∨ v &&& 4 = 4 := by
  rw [and_four]
  cases bit v 2 <;> simp

theorem and_two (v : UInt32) : v &&& 2 = if bit v 1 then 2 else 0 := @and_two_pow v 1 (by decide)

theorem and_two_cases (v : UInt32) : v &&& 2 = 0 ∨ v &&& 2 = 2 := by
  rw [and_two]
  cases bit v 1 <;> simp

theorem Status.sFlag_cases {s : Cpu} (h : Status s) : s.sFlag = 0 ∨ s.sFlag = 4 :=
  h.sFlag ▸ and_four_cases s.sFlag

theorem Status.mFlag_cases {s : Cpu} (h : Status s) : s.mFlag = 0 ∨ s.mFlag = 2 :=
  h.mFlag ▸ and_two_cases s.mFlag

theorem and_mask_self (v m : UInt32) : v &&& m &&& m = v &&& m := by
  rw [UInt32.and_assoc, UInt32.and_self]

theorem condEq_setCcr (v : UInt32) (s : Cpu) : condEq (setCcr v s) = bit v 2 := by
  simp only [condEq, condNe, setCcr, and_four]
  cases bit v 2 <;> decide

theorem getCcr_setCcr (v : UInt32) (s : Cpu) : getCcr (setCcr v s) = v &&& 0x1f := by
  apply ext_bits
  intro i hi
  rw [getCcr, condEq_setCcr]
  simp only [setCcr]
  interval_cases i <;> simp

/-! ### Stack pointers -/

/-- The stack pointers of the processor. -/
inductive Bank where
  | user
  | interrupt
  | master
deriving DecidableEq, Repr

/-- Their places in `REG_SP_BASE`: `REG_USP`, `REG_ISP` and `REG_MSP`. -/
def Bank.index : Bank → Fin 7
  | .user => 0
  | .interrupt => 4
  | .master => 6

/-- The bank that the flags `S` and `M` make active. -/
def bankOf (sFlag mFlag : UInt32) : Bank :=
  if sFlag = 0 then .user else if mFlag = 0 then .interrupt else .master

def bank (s : Cpu) : Bank := bankOf s.sFlag s.mFlag

/-- The stack pointer of a bank, as `m68k_get_reg` tells it for `M68K_REG_USP`,
    `M68K_REG_ISP` and `M68K_REG_MSP`. -/
def pointer : Bank → Cpu → UInt32
  | .user, s => if s.sFlag ≠ 0 then s.sp 0 else s.dar regSp
  | .interrupt, s => if s.sFlag ≠ 0 ∧ s.mFlag = 0 then s.dar regSp else s.sp 4
  | .master, s => if s.sFlag ≠ 0 ∧ s.mFlag ≠ 0 then s.dar regSp else s.sp 6

theorem pointer_eq (b : Bank) (s : Cpu) :
    pointer b s = if s.bank = b then s.dar regSp else s.sp b.index := by
  unfold bank bankOf
  cases b <;> by_cases hs : s.sFlag = 0 <;> by_cases hm : s.mFlag = 0 <;>
    simp [pointer, Bank.index, hs, hm]

theorem spIndex_eq {sFlag mFlag : UInt32} (hs : sFlag = 0 ∨ sFlag = 4)
    (hm : mFlag = 0 ∨ mFlag = 2) : spIndex sFlag mFlag = (bankOf sFlag mFlag).index := by
  rcases hs with rfl | rfl <;> rcases hm with rfl | rfl <;> rfl

theorem Bank.index_inj {b b' : Bank} : b.index = b'.index ↔ b = b' := by
  cases b <;> cases b' <;> decide

/-- Changing the mode exchanges the stack pointers and leaves each of them as it is. -/
theorem pointer_changeSp {s : Cpu} {sFlag mFlag : UInt32} (h : Status s)
    (hs : sFlag = 0 ∨ sFlag = 4) (hm : mFlag = 0 ∨ mFlag = 2) (b : Bank) :
    pointer b (changeSp sFlag mFlag s) = pointer b s := by
  have hold := spIndex_eq h.sFlag_cases h.mFlag_cases
  have hnew := spIndex_eq hs hm
  have hbank : (changeSp sFlag mFlag s).bank = bankOf sFlag mFlag := rfl
  rw [pointer_eq, pointer_eq, hbank]
  simp only [changeSp, hold, hnew, setReg_self]
  change (if _ then _ else Function.update s.sp (bankOf s.sFlag s.mFlag).index (s.dar regSp) b.index) = _
  simp only [Function.update_apply, Bank.index_inj, bank]
  by_cases hb : bankOf sFlag mFlag = b
  · simp [hb, eq_comm]
  · simp [hb, eq_comm]

/-- Writing the active stack pointer changes that of its bank and no other. -/
theorem pointer_setReg_sp (b : Bank) (v : UInt32) (s : Cpu) :
    pointer b (s.setReg regSp v) = if s.bank = b then v else pointer b s := by
  have hbank : (s.setReg regSp v).bank = s.bank := rfl
  rw [pointer_eq, pointer_eq, hbank, setReg_self]
  split <;> rfl

theorem pointer_setReg_of_ne {r : Fin 16} (h : r ≠ regSp) (b : Bank) (v : UInt32) (s : Cpu) :
    pointer b (s.setReg r v) = pointer b s := by
  have hbank : (s.setReg r v).bank = s.bank := rfl
  rw [pointer_eq, pointer_eq, hbank, setReg_of_ne h.symm]
  rfl

/-! ### Setting the status register -/

theorem status_setSrNoint (v : UInt32) (s : Cpu) : Status (setSrNoint v s) where
  t1 := and_mask_self ..
  t0 := and_mask_self ..
  sFlag := and_mask_self ..
  mFlag := and_mask_self ..
  intMask := and_mask_self ..

theorem pointer_setSrNoint {s : Cpu} (h : Status s) (v : UInt32) (b : Bank) :
    pointer b (setSrNoint v s) = pointer b s := by
  have hstatus : Status (setCcr (v &&& 0xf71f) (setUpper (v &&& 0xf71f) s)) :=
    ⟨and_mask_self .., and_mask_self .., h.sFlag, h.mFlag, and_mask_self ..⟩
  have hsame : pointer b (setCcr (v &&& 0xf71f) (setUpper (v &&& 0xf71f) s)) = pointer b s := by
    cases b <;> rfl
  rw [← hsame]
  exact pointer_changeSp hstatus (and_four_cases _) (and_two_cases _) b

/-- The status register is what was written, but for the bits that a 68020 has not. -/
theorem getSr_setSrNoint (v : UInt32) (s : Cpu) : getSr (setSrNoint v s) = v &&& 0xf71f := by
  have hccr : getCcr (setSrNoint v s) = getCcr (setCcr (v &&& 0xf71f) s) := rfl
  apply ext_bits
  intro i hi
  rw [getSr, hccr, getCcr_setCcr]
  simp only [setSrNoint, setSmFlag, changeSp, setCcr, setUpper, setReg]
  interval_cases i <;> simp

/-- The bank that a status register selects. -/
theorem bank_setSrNoint (v : UInt32) (s : Cpu) : (setSrNoint v s).bank =
    if bit v 13 then if bit v 12 then .master else .interrupt else .user := by
  have hs : (setSrNoint v s).sFlag = if bit v 13 then 4 else 0 := by
    have hbit : bit (((v &&& 0xf71f) >>> (11 : UInt32)) &&& (6 : UInt32)) 2 = bit v 13 := by simp
    rw [← hbit, ← and_four]
    rfl
  have hm : (setSrNoint v s).mFlag = if bit v 12 then 2 else 0 := by
    have hbit : bit (((v &&& 0xf71f) >>> (11 : UInt32)) &&& (6 : UInt32)) 1 = bit v 12 := by simp
    rw [← hbit, ← and_two]
    rfl
  rw [bank, hs, hm]
  cases bit v 13 <;> cases bit v 12 <;> rfl

end ParaTos.Cpu
