/-
  ParaTos/CpuRegisters.lean
  =========================
  **The registers, as the host and as programs reach them** (`m68k_get_reg` and
  `m68k_set_reg` of `mushashi/m68kcpu.c`; `move usp` and `movec` of
  `mushashi/m68k_in.c`).

  The system calls of the host read and write the registers of the processor by name.
  Behind the names of the stack pointers lie the active one and the places of the others,
  and writing the status register exchanges them.  `RegisterFile` is what the names
  stand for: three stack pointers that depend on nothing, of which the status register
  selects one as `A7`.  Any run of reads and writes answers as this file does
  (`registers_run`).

  Programs reach the same registers by `movec`, which does what the host's names do
  (`movecRc_eq`, `movecCr_eq`).
-/
import ParaTos.CpuNesting
import ParaTos.Machine

namespace ParaTos.Cpu

open Machine WordBits

/-! ### The names -/

/-- `m68k_register_t`: the data and address registers are `da`. -/
inductive Register where
  | da (r : Fin 16)
  | pc
  | sr
  | sp
  | usp
  | isp
  | msp
  | sfc
  | dfc
  | vbr
  | cacr
  | caar
  | ppc
  | ir
deriving DecidableEq

/-- `m68k_get_reg` of the running processor. -/
def m68kGetReg : Register → Cpu → UInt32
  | .da r, s => s.dar r
  | .pc, s => s.pc
  | .sr, s => getSr s
  | .sp, s => s.dar regSp
  | .usp, s => pointer .user s
  | .isp, s => pointer .interrupt s
  | .msp, s => pointer .master s
  | .sfc, s => s.sfc
  | .dfc, s => s.dfc
  | .vbr, s => s.vbr
  | .cacr, s => s.cacr
  | .caar, s => s.caar
  | .ppc, s => s.ppc
  | .ir, s => s.ir

/-- A stack pointer that is not active: `REG_USP`, `REG_ISP` or `REG_MSP`. -/
def setSpBase (b : Bank) (value : UInt32) (s : Cpu) : Cpu :=
  { s with sp := Function.update s.sp b.index value }

/-- `m68k_set_reg`. -/
def m68kSetReg : Register → UInt32 → Cpu → Run Cpu
  | .da r, value, s => return s.setReg r value
  | .pc, value, s => return s.setPc value
  | .sr, value, s => setSr value s
  | .sp, value, s => return s.setReg regSp value
  | .usp, value, s =>
    if s.sFlag ≠ 0 then return setSpBase .user value s else return s.setReg regSp value
  | .isp, value, s =>
    if s.sFlag ≠ 0 ∧ s.mFlag = 0 then return s.setReg regSp value
    else return setSpBase .interrupt value s
  | .msp, value, s =>
    if s.sFlag ≠ 0 ∧ s.mFlag ≠ 0 then return s.setReg regSp value
    else return setSpBase .master value s
  | .sfc, value, s => return { s with sfc := value &&& 7 }
  | .dfc, value, s => return { s with dfc := value &&& 7 }
  | .vbr, value, s => return { s with vbr := value }
  | .cacr, value, s => return { s with cacr := value }
  | .caar, value, s => return { s with caar := value }
  | .ppc, value, s => return { s with ppc := value }
  | .ir, value, s => return { s with ir := value &&& 0xffff }

/-- What the host does with a register; a write answers nothing. -/
inductive Access where
  | get (r : Register)
  | set (r : Register) (value : UInt32)

def access : Access → Cpu → Run (Option UInt32 × Cpu)
  | .get r, s => return (some (m68kGetReg r s), s)
  | .set r value, s => do
    let s ← m68kSetReg r value s
    return (none, s)

/-! ### The register file -/

/-- The bits that a register has. -/
def Register.mask : Register → UInt32
  | .sr => 0xf71f
  | .sfc => 7
  | .dfc => 7
  | .ir => 0xffff
  | _ => 0xffffffff

/-- Registers that have but one name, and no part in the choice of the stack pointer. -/
def Register.Plain : Register → Prop
  | .da r => r ≠ regSp
  | .sr => False
  | .sp => False
  | .usp => False
  | .isp => False
  | .msp => False
  | _ => True

instance : DecidablePred Register.Plain
  | .da r => inferInstanceAs (Decidable (r ≠ regSp))
  | .sr => inferInstanceAs (Decidable False)
  | .sp => inferInstanceAs (Decidable False)
  | .usp => inferInstanceAs (Decidable False)
  | .isp => inferInstanceAs (Decidable False)
  | .msp => inferInstanceAs (Decidable False)
  | .pc => inferInstanceAs (Decidable True)
  | .sfc => inferInstanceAs (Decidable True)
  | .dfc => inferInstanceAs (Decidable True)
  | .vbr => inferInstanceAs (Decidable True)
  | .cacr => inferInstanceAs (Decidable True)
  | .caar => inferInstanceAs (Decidable True)
  | .ppc => inferInstanceAs (Decidable True)
  | .ir => inferInstanceAs (Decidable True)

/-- Three stack pointers, a status register, and the rest. -/
structure RegisterFile where
  pointer : Bank → UInt32
  sr : UInt32
  plain : Register → UInt32

namespace RegisterFile

/-- The bank that the status register selects. -/
def bank (f : RegisterFile) : Bank :=
  if bit f.sr 13 then if bit f.sr 12 then .master else .interrupt else .user

/-- The bank that a name of a stack pointer stands for. -/
def bankOfName (f : RegisterFile) : Register → Bank
  | .usp => .user
  | .isp => .interrupt
  | .msp => .master
  | _ => f.bank

def get (f : RegisterFile) (r : Register) : UInt32 :=
  if r.Plain then f.plain r else if r = .sr then f.sr else f.pointer (f.bankOfName r)

def set (f : RegisterFile) (r : Register) (v : UInt32) : RegisterFile :=
  if r.Plain then { f with plain := Function.update f.plain r (v &&& r.mask) }
  else if r = .sr then { f with sr := v &&& r.mask }
  else { f with pointer := Function.update f.pointer (f.bankOfName r) v }

end RegisterFile

/-- The file answers. -/
def fileAccess : Access → RegisterFile → Option UInt32 × RegisterFile
  | .get r, f => (some (f.get r), f)
  | .set r value, f => (none, f.set r value)

/-- The file of a processor. -/
def registerFile (s : Cpu) : RegisterFile where
  pointer b := pointer b s
  sr := getSr s
  plain r := m68kGetReg r s

/-- The processor holds what is in the file; no interrupt is pending. -/
structure Represents (s : Cpu) (f : RegisterFile) : Prop where
  status : Status s
  intLevel : s.intLevel = 0
  pointer : ∀ b, pointer b s = f.pointer b
  sr : getSr s = f.sr
  plain : ∀ r, Register.Plain r → m68kGetReg r s = f.plain r

theorem registerFile_represents {s : Cpu} (h : Status s) (hlevel : s.intLevel = 0) :
    Represents s (registerFile s) := ⟨h, hlevel, fun _ => rfl, rfl, fun _ _ => rfl⟩

theorem and_all (v : UInt32) : v &&& 0xffffffff = v := by
  apply ext_bits
  intro i hi
  interval_cases i <;> simp

/-- Each name of a stack pointer finds it, active or not. -/
theorem setReg_usp (v : UInt32) (s : Cpu) : m68kSetReg .usp v s =
    Except.ok (if s.bank = .user then s.setReg regSp v else setSpBase .user v s) := by
  unfold bank bankOf
  by_cases hs : s.sFlag = 0 <;> by_cases hm : s.mFlag = 0 <;> simp [m68kSetReg, hs, hm]

theorem setReg_isp (v : UInt32) (s : Cpu) : m68kSetReg .isp v s =
    Except.ok (if s.bank = .interrupt then s.setReg regSp v else setSpBase .interrupt v s) := by
  unfold bank bankOf
  by_cases hs : s.sFlag = 0 <;> by_cases hm : s.mFlag = 0 <;> simp [m68kSetReg, hs, hm]

theorem setReg_msp (v : UInt32) (s : Cpu) : m68kSetReg .msp v s =
    Except.ok (if s.bank = .master then s.setReg regSp v else setSpBase .master v s) := by
  unfold bank bankOf
  by_cases hs : s.sFlag = 0 <;> by_cases hm : s.mFlag = 0 <;> simp [m68kSetReg, hs, hm]

section Represents

variable {s t : Cpu} {f : RegisterFile}

theorem Represents.bank (h : Represents s f) : s.bank = f.bank := by
  rw [bank_eq h.status, h.sr, RegisterFile.bank]

theorem Represents.get (h : Represents s f) (r : Register) : m68kGetReg r s = f.get r := by
  unfold RegisterFile.get
  by_cases hplain : r.Plain
  · rw [if_pos hplain, h.plain r hplain]
  · rw [if_neg hplain]
    cases r with
    | da r =>
      obtain rfl : r = regSp := not_not.mp hplain
      exact (sp_eq_pointer s).trans (h.bank ▸ h.pointer _)
    | sr => exact h.sr
    | sp => exact (sp_eq_pointer s).trans (h.bank ▸ h.pointer _)
    | usp => exact h.pointer .user
    | isp => exact h.pointer .interrupt
    | msp => exact h.pointer .master
    | _ => exact absurd trivial hplain

/-- Writing the pointer of a bank, wherever it is. -/
theorem Represents.set_pointer (h : Represents s f) (b : Bank) (v : UInt32) :
    Represents (if s.bank = b then s.setReg regSp v else setSpBase b v s)
      { f with pointer := Function.update f.pointer b v } := by
  by_cases hb : s.bank = b
  · rw [if_pos hb]
    refine ⟨status_of_eq h.status rfl rfl rfl rfl rfl, h.intLevel, ?_, h.sr, ?_⟩
    · intro b'
      rw [pointer_setReg_sp, hb]
      by_cases hbb : b = b'
      · simp [hbb]
      · simp [hbb, Ne.symm hbb, h.pointer]
    · intro r hr
      rw [← h.plain r hr]
      cases r with
      | da r => exact setReg_of_ne hr ..
      | _ => first | rfl | exact absurd hr id
  · rw [if_neg hb]
    refine ⟨status_of_eq h.status rfl rfl rfl rfl rfl, h.intLevel, ?_, h.sr, ?_⟩
    · intro b'
      have hbank : (setSpBase b v s).bank = s.bank := rfl
      rw [pointer_eq, hbank]
      change (if s.bank = b' then s.dar regSp else Function.update s.sp b.index v b'.index) =
        Function.update f.pointer b v b'
      rw [Function.update_apply, Function.update_apply, ← h.pointer b', pointer_eq]
      simp only [Bank.index_inj]
      by_cases hbb : b' = b
      · subst hbb
        simp [hb]
      · simp [hbb]
    · intro r hr
      rw [← h.plain r hr]
      cases r <;> first | rfl | exact absurd hr id

/-- Writing a register that stands for itself. -/
theorem Represents.set_plain (h : Represents s f) {r : Register} (v : UInt32) (hr : r.Plain)
    (hstatus : Status t) (hlevel : t.intLevel = s.intLevel)
    (hpointer : ∀ b, Cpu.pointer b t = Cpu.pointer b s) (hsr : getSr t = getSr s)
    (hself : m68kGetReg r t = v) (hothers : ∀ r', r' ≠ r → r'.Plain → m68kGetReg r' t = m68kGetReg r' s) :
    Represents t { f with plain := Function.update f.plain r v } := by
  refine ⟨hstatus, hlevel.trans h.intLevel, fun b => (hpointer b).trans (h.pointer b),
    hsr.trans h.sr, ?_⟩
  intro r' hr'
  by_cases heq : r' = r
  · subst heq
    simpa using hself
  · simpa [heq, ← h.plain r' hr'] using hothers r' heq hr'

theorem Represents.set_sr (h : Represents s f) (v : UInt32) :
    Represents (setSrNoint v s) { f with sr := v &&& 0xf71f } := by
  refine ⟨status_setSrNoint .., h.intLevel, ?_, getSr_setSrNoint .., ?_⟩
  · intro b
    rw [pointer_setSrNoint h.status, h.pointer]
  · intro r hr
    rw [← h.plain r hr]
    cases r with
    | da r => exact setSrNoint_dar hr ..
    | _ => first | rfl | exact absurd hr id

theorem Represents.set (h : Represents s f) (r : Register) (v : UInt32) :
    ∃ t, m68kSetReg r v s = Except.ok t ∧ Represents t (f.set r v) := by
  have hnoint : ∀ u : Cpu, u.intLevel = 0 → checkInterrupts u = Except.ok u := by
    intro u hu
    have hnot : ¬(0 : UInt32) > u.intMask := UInt32.not_lt_zero
    rw [checkInterrupts, hu, if_neg hnot]
    rfl
  unfold RegisterFile.set
  by_cases hplain : r.Plain
  · rw [if_pos hplain]
    cases r with
    | da r =>
      refine ⟨_, rfl, h.set_plain _ hplain (status_of_eq h.status rfl rfl rfl rfl rfl) rfl
        (fun b => pointer_setReg_of_ne hplain b v s) rfl ?_ ?_⟩
      · exact (setReg_self ..).trans (and_all v).symm
      · intro r' hne hr'
        cases r' with
        | da r' => exact setReg_of_ne (fun heq => hne (congrArg Register.da heq)) ..
        | _ => first | rfl | exact absurd hr' id
    | sr => exact absurd hplain id
    | sp => exact absurd hplain id
    | usp => exact absurd hplain id
    | isp => exact absurd hplain id
    | msp => exact absurd hplain id
    | _ =>
      refine ⟨_, rfl, h.set_plain _ hplain (status_of_eq h.status rfl rfl rfl rfl rfl) rfl
        (fun b => by cases b <;> rfl) rfl ?_ ?_⟩
      · first | rfl | exact (and_all v).symm
      · intro r' hne hr'
        cases r' <;> first | rfl | exact absurd rfl hne
  · rw [if_neg hplain]
    cases r with
    | da r =>
      obtain rfl : r = regSp := not_not.mp hplain
      have hset := h.set_pointer s.bank v
      rw [if_pos rfl, h.bank] at hset
      exact ⟨_, rfl, hset⟩
    | sr => exact ⟨_, hnoint _ h.intLevel, h.set_sr v⟩
    | sp =>
      have hset := h.set_pointer s.bank v
      rw [if_pos rfl, h.bank] at hset
      exact ⟨_, rfl, hset⟩
    | usp => exact ⟨_, setReg_usp v s, h.set_pointer .user v⟩
    | isp => exact ⟨_, setReg_isp v s, h.set_pointer .interrupt v⟩
    | msp => exact ⟨_, setReg_msp v s, h.set_pointer .master v⟩
    | _ => exact absurd trivial hplain

end Represents

theorem access_simulates (s : Cpu) (f : RegisterFile) (c : Access) (h : Represents s f) :
    ∃ s', access c s = Except.ok ((fileAccess c f).1, s') ∧ Represents s' (fileAccess c f).2 := by
  cases c with
  | get r =>
    refine ⟨s, ?_, h⟩
    rw [access, h.get]
    rfl
  | set r value =>
    obtain ⟨t, ht, hrep⟩ := h.set r value
    refine ⟨t, ?_, hrep⟩
    rw [access, ht]
    rfl

/-- **The registers are independent.**  Any run of reads and writes by name answers as the
    register file does, in which each stack pointer is kept for itself. -/
theorem registers_run {s : Cpu} (h : Status s) (hlevel : s.intLevel = 0) (cs : List Access) :
    ∃ t, trace access cs s = Except.ok ((play fileAccess cs (registerFile s)).1, t) ∧
      Represents t (play fileAccess cs (registerFile s)).2 :=
  trace_eq_play access_simulates cs (registerFile_represents h hlevel)

theorem registers_run_exchanged : ∃ t, trace access
    [.set .isp 0x1000, .set .sp 0x2000, .set .sr 0x2000, .get .sp, .get .usp] m68kiCpu =
      Except.ok ([none, none, none, some 0x1000, some 0x2000], t) := by
  obtain ⟨t, ht, -⟩ := registers_run (s := m68kiCpu) (by decide) rfl
    [.set .isp 0x1000, .set .sp 0x2000, .set .sr 0x2000, .get .sp, .get .usp]
  exact ⟨t, ht⟩

/-! ### The instructions -/

/-- `REG_DA[(word2 >> 12) & 15]`. -/
def movecDa (word2 : UInt32) : Fin 16 := Fin.ofNat 16 (word2 >>> 12).toNat

/-- `move, 32, fru` and `move, 32, tou`. -/
def moveFru (s : Cpu) : Run Cpu :=
  if s.sFlag ≠ 0 then return s.setReg s.ay (s.sp 0) else exceptionPrivilegeViolation s

def moveTou (s : Cpu) : Run Cpu :=
  if s.sFlag ≠ 0 then return setSpBase .user (s.dar s.ay) s else exceptionPrivilegeViolation s

/-- `movec, 32, cr`. -/
def movecCr (s : Cpu) : Run Cpu :=
  if s.sFlag ≠ 0 then do
    let (word2, s) ← readImm16 s
    match word2 &&& 0xfff with
    | 0x000 => return s.setReg (movecDa word2) s.sfc
    | 0x001 => return s.setReg (movecDa word2) s.dfc
    | 0x002 => return s.setReg (movecDa word2) s.cacr
    | 0x800 => return s.setReg (movecDa word2) (s.sp 0)
    | 0x801 => return s.setReg (movecDa word2) s.vbr
    | 0x802 => return s.setReg (movecDa word2) s.caar
    | 0x803 => return s.setReg (movecDa word2) (if s.mFlag ≠ 0 then s.dar regSp else s.sp 6)
    | 0x804 => return s.setReg (movecDa word2) (if s.mFlag ≠ 0 then s.sp 4 else s.dar regSp)
    | _ => exceptionIllegal s
  else exceptionPrivilegeViolation s

/-- `movec, 32, rc`. -/
def movecRc (s : Cpu) : Run Cpu :=
  if s.sFlag ≠ 0 then do
    let (word2, s) ← readImm16 s
    let value := s.dar (movecDa word2)
    match word2 &&& 0xfff with
    | 0x000 => return { s with sfc := value &&& 7 }
    | 0x001 => return { s with dfc := value &&& 7 }
    | 0x002 => return { s with cacr := value }
    | 0x800 => return setSpBase .user value s
    | 0x801 => return { s with vbr := value }
    | 0x802 => return { s with caar := value }
    | 0x803 =>
      if s.mFlag = 0 then return setSpBase .master value s else return s.setReg regSp value
    | 0x804 =>
      if s.mFlag = 0 then return s.setReg regSp value else return setSpBase .interrupt value s
    | _ => exceptionIllegal s
  else exceptionPrivilegeViolation s

/-- The register that a control code names. -/
def controlRegister (code : UInt32) : Option Register :=
  match code with
  | 0x000 => some .sfc
  | 0x001 => some .dfc
  | 0x002 => some .cacr
  | 0x800 => some .usp
  | 0x801 => some .vbr
  | 0x802 => some .caar
  | 0x803 => some .msp
  | 0x804 => some .isp
  | _ => none

section Movec

variable {s t : Cpu} {word2 : UInt32}

theorem movecCr_eq (hs : s.sFlag ≠ 0) (hword : readImm16 s = Except.ok (word2, t)) :
    movecCr s = (controlRegister (word2 &&& 0xfff)).elim (exceptionIllegal t)
      fun r => Except.ok (t.setReg (movecDa word2) (m68kGetReg r t)) := by
  have ht : t.sFlag ≠ 0 := by
    obtain ⟨-, rfl⟩ := readImm16_eq_ok.mp hword
    exact hs
  rw [movecCr, if_pos hs, hword, Run.ok_bind]
  unfold controlRegister
  dsimp only
  split <;> simp [m68kGetReg, pointer, ht]

theorem movecRc_eq (hs : s.sFlag ≠ 0) (hword : readImm16 s = Except.ok (word2, t)) :
    movecRc s = (controlRegister (word2 &&& 0xfff)).elim (exceptionIllegal t)
      fun r => m68kSetReg r (t.dar (movecDa word2)) t := by
  have ht : t.sFlag ≠ 0 := by
    obtain ⟨-, rfl⟩ := readImm16_eq_ok.mp hword
    exact hs
  rw [movecRc, if_pos hs, hword, Run.ok_bind]
  unfold controlRegister
  dsimp only
  split <;> simp [m68kSetReg, ht]

/-- **`movec` and the host's names agree.**  In supervisor mode an instruction reads and
    writes a control register as the host does; a code that names none is illegal. -/
theorem movec_agrees (hs : s.sFlag ≠ 0) (hword : readImm16 s = Except.ok (word2, t)) :
    (movecCr s = (controlRegister (word2 &&& 0xfff)).elim (exceptionIllegal t)
      fun r => Except.ok (t.setReg (movecDa word2) (m68kGetReg r t))) ∧
    movecRc s = (controlRegister (word2 &&& 0xfff)).elim (exceptionIllegal t)
      fun r => m68kSetReg r (t.dar (movecDa word2)) t :=
  ⟨movecCr_eq hs hword, movecRc_eq hs hword⟩

end Movec

theorem movec_agrees_sfc : ∃ t, readImm16 { m68kiCpu with sFlag := 4 } = Except.ok (0, t) ∧
    movecCr { m68kiCpu with sFlag := 4 } = Except.ok (t.setReg 0 (m68kGetReg .sfc t)) := by
  obtain ⟨t, ht⟩ : ∃ t, readImm16 { m68kiCpu with sFlag := 4 } = Except.ok (0, t) := ⟨_, rfl⟩
  exact ⟨t, ht, (movec_agrees (by decide) ht).1⟩

end ParaTos.Cpu
