/-
  ParaTos/Cpu.lean
  ================
  **The state of the processor core** (`mushashi/m68kcpu.h`), as `m68kconf.h` and
  `m68k_set_cpu_type` configure it: a 68020 with all 32 address lines, no prefetch
  queue, no function codes, no trace and no address errors.

  The flags are kept as the code keeps them, as words of which one bit counts: bit 8
  of `xFlag` and `cFlag`, bit 7 of `nFlag` and `vFlag`, and `notZFlag` is zero when
  the zero flag is set.  Clock cycles are left out.

  The macros of the source come in three sizes; here the size is an argument.
-/
import ParaTos.Memory
import ParaTos.WordBits

namespace ParaTos

/-- `m68ki_cpu_core`, and the memory it is connected to. -/
structure Cpu where
  /-- data and address registers; the last one is the active stack pointer -/
  dar : Fin 16 → UInt32
  ppc : UInt32
  pc : UInt32
  /-- user, interrupt and master stack pointers, at 0, 4 and 6 -/
  sp : Fin 7 → UInt32
  vbr : UInt32
  sfc : UInt32
  dfc : UInt32
  cacr : UInt32
  caar : UInt32
  ir : UInt32
  t1Flag : UInt32
  t0Flag : UInt32
  sFlag : UInt32
  mFlag : UInt32
  xFlag : UInt32
  nFlag : UInt32
  notZFlag : UInt32
  vFlag : UInt32
  cFlag : UInt32
  intMask : UInt32
  intLevel : UInt32
  stopped : UInt32
  memory : Memory

/-- The size of an operand. -/
inductive Size where
  | byte
  | word
  | long
deriving DecidableEq, Repr

def Size.bits : Size → Nat
  | .byte => 8
  | .word => 16
  | .long => 32

def Size.bytes : Size → Nat
  | .byte => 1
  | .word => 2
  | .long => 4

namespace Cpu

open Bytes Memory WordBits

/-- The global `m68ki_cpu`, which is zero at first, over fresh memory. -/
def m68kiCpu : Cpu where
  dar _ := 0
  ppc := 0
  pc := 0
  sp _ := 0
  vbr := 0
  sfc := 0
  dfc := 0
  cacr := 0
  caar := 0
  ir := 0
  t1Flag := 0
  t0Flag := 0
  sFlag := 0
  mFlag := 0
  xFlag := 0
  nFlag := 0
  notZFlag := 0
  vFlag := 0
  cFlag := 0
  intMask := 0
  intLevel := 0
  stopped := 0
  memory := initM68KMemory

/-! ### Registers -/

-- numerals for the registers and for the stack pointers
scoped instance neZero_dar : NeZero 16 := ⟨by decide⟩
scoped instance neZero_sp : NeZero 7 := ⟨by decide⟩

/-- A register number in the low three bits of a word. -/
def field (v : UInt32) : Fin 8 := ⟨v.toNat % 8, Nat.mod_lt _ (by decide)⟩

/-- `REG_D[i]` and `REG_A[i]`. -/
def regD (i : Fin 8) : Fin 16 := ⟨i, by omega⟩
def regA (i : Fin 8) : Fin 16 := ⟨i + 8, by omega⟩

/-- `REG_SP`, which is `REG_A[7]`. -/
def regSp : Fin 16 := 15

/-- The registers that the opcode names: `DX`, `DY`, `AX` and `AY`. -/
def dx (s : Cpu) : Fin 16 := regD (field (s.ir >>> 9))
def dy (s : Cpu) : Fin 16 := regD (field s.ir)
def ax (s : Cpu) : Fin 16 := regA (field (s.ir >>> 9))
def ay (s : Cpu) : Fin 16 := regA (field s.ir)

def setReg (r : Fin 16) (v : UInt32) (s : Cpu) : Cpu := { s with dar := Function.update s.dar r v }

@[simp] theorem setReg_self (r : Fin 16) (v : UInt32) (s : Cpu) : (s.setReg r v).dar r = v :=
  Function.update_self ..

@[simp] theorem setReg_of_ne {r r' : Fin 16} (h : r ≠ r') (v : UInt32) (s : Cpu) :
    (s.setReg r' v).dar r = s.dar r := Function.update_of_ne h ..

@[simp] theorem setReg_memory (r : Fin 16) (v : UInt32) (s : Cpu) :
    (s.setReg r v).memory = s.memory := rfl

@[simp] theorem setReg_ir (r : Fin 16) (v : UInt32) (s : Cpu) : (s.setReg r v).ir = s.ir := rfl

def setPc (pc : UInt32) (s : Cpu) : Cpu := { s with pc := pc }

def setMemory (m : Memory) (s : Cpu) : Cpu := { s with memory := m }

@[simp] theorem setPc_pc (pc : UInt32) (s : Cpu) : (s.setPc pc).pc = pc := rfl

@[simp] theorem setPc_dar (pc : UInt32) (s : Cpu) : (s.setPc pc).dar = s.dar := rfl

@[simp] theorem setPc_memory (pc : UInt32) (s : Cpu) : (s.setPc pc).memory = s.memory := rfl

@[simp] theorem setPc_setPc (pc pc' : UInt32) (s : Cpu) : (s.setPc pc).setPc pc' = s.setPc pc' := rfl

@[simp] theorem setPc_self (s : Cpu) : s.setPc s.pc = s := rfl

@[simp] theorem setMemory_memory (m : Memory) (s : Cpu) : (s.setMemory m).memory = m := rfl

@[simp] theorem setMemory_dar (m : Memory) (s : Cpu) : (s.setMemory m).dar = s.dar := rfl

@[simp] theorem setMemory_ir (m : Memory) (s : Cpu) : (s.setMemory m).ir = s.ir := rfl

@[simp] theorem setMemory_pc (m : Memory) (s : Cpu) : (s.setMemory m).pc = s.pc := rfl

@[simp] theorem setReg_setReg (r : Fin 16) (v v' : UInt32) (s : Cpu) :
    (s.setReg r v).setReg r v' = s.setReg r v' := by
  simp [setReg]

@[simp] theorem setReg_setMemory (r : Fin 16) (v : UInt32) (m : Memory) (s : Cpu) :
    (s.setMemory m).setReg r v = (s.setReg r v).setMemory m := rfl

@[simp] theorem setMemory_setMemory (m m' : Memory) (s : Cpu) :
    (s.setMemory m).setMemory m' = s.setMemory m' := rfl

/-! ### Operand sizes -/

/-- `MAKE_INT_8`, `MAKE_INT_16` and `MAKE_INT_32`, with the sign extended to a word. -/
def makeInt : Size → UInt32 → UInt32
  | .byte, v => if v &&& 0x80 ≠ 0 then v ||| ~~~0xff else v &&& 0xff
  | .word, v => if v &&& 0x8000 ≠ 0 then v ||| ~~~0xffff else v &&& 0xffff
  | .long, v => v

/-- `MASK_OUT_ABOVE_8`, `MASK_OUT_ABOVE_16` and `MASK_OUT_ABOVE_32`. -/
def maskOutAbove : Size → UInt32 → UInt32
  | .byte, v => v &&& 0xff
  | .word, v => v &&& 0xffff
  | .long, v => v &&& 0xffffffff

/-- An operand goes into the low part of a register: `MASK_OUT_BELOW_8(*r_dst) | res`,
    `MASK_OUT_BELOW_16(*r_dst) | res`, and `res`. -/
def maskInto : Size → UInt32 → UInt32 → UInt32
  | .byte, old, res => (old &&& ~~~0xff) ||| res
  | .word, old, res => (old &&& ~~~0xffff) ||| res
  | .long, _, res => res

/-! ### Memory -/

/-- `m68ki_read_8`, `m68ki_read_16` and `m68ki_read_32`. -/
def read8 (a : UInt32) (s : Cpu) : Run UInt32 := do
  let v ← readMemory8 a s.memory
  return v.toUInt32

def read16 (a : UInt32) (s : Cpu) : Run UInt32 := do
  let v ← readMemory16 a s.memory
  return v.toUInt32

def read32 (a : UInt32) (s : Cpu) : Run UInt32 := readMemory32 a s.memory

/-- `m68ki_write_8`, `m68ki_write_16` and `m68ki_write_32`. -/
def write8 (a v : UInt32) (s : Cpu) : Run Cpu := do
  let m ← writeMemory8 a v.toUInt8 s.memory
  return s.setMemory m

def write16 (a v : UInt32) (s : Cpu) : Run Cpu := do
  let m ← writeMemory16 a v.toUInt16 s.memory
  return s.setMemory m

def write32 (a v : UInt32) (s : Cpu) : Run Cpu := do
  let m ← writeMemory32 a v s.memory
  return s.setMemory m

/-- The accesses by size. -/
def read : Size → UInt32 → Cpu → Run UInt32
  | .byte => read8
  | .word => read16
  | .long => read32

def write : Size → UInt32 → UInt32 → Cpu → Run Cpu
  | .byte => write8
  | .word => write16
  | .long => write32

/-- `m68ki_read_imm_16` and `m68ki_read_imm_32`. -/
def readImm16 (s : Cpu) : Run (UInt32 × Cpu) := do
  let v ← read16 s.pc s
  return (v, s.setPc (s.pc + 2))

def readImm32 (s : Cpu) : Run (UInt32 × Cpu) := do
  let v ← read32 s.pc s
  return (v, s.setPc (s.pc + 4))

/-- The head of the loop of `m68k_execute`: `REG_PPC = REG_PC` and
    `REG_IR = m68ki_read_imm_16()`. -/
def fetch (s : Cpu) : Run Cpu := do
  let (ir, s) ← readImm16 { s with ppc := s.pc }
  return { s with ir := ir }

/-- `EA_AY_PD_8()` and its kin: a register goes down by `k`, and is the address. -/
def eaPd (r : Fin 16) (k : UInt32) (s : Cpu) : UInt32 × Cpu := (s.dar r - k, s.setReg r (s.dar r - k))

/-- `m68ki_push_16` and `m68ki_push_32`. -/
def push16 (value : UInt32) (s : Cpu) : Run Cpu :=
  write16 (s.dar regSp - 2) value (s.setReg regSp (s.dar regSp - 2))

def push32 (value : UInt32) (s : Cpu) : Run Cpu :=
  write32 (s.dar regSp - 4) value (s.setReg regSp (s.dar regSp - 4))

/-- `m68ki_pull_16` and `m68ki_pull_32`. -/
def pull16 (s : Cpu) : Run (UInt32 × Cpu) := do
  let v ← read16 (s.dar regSp) s
  return (v, s.setReg regSp (s.dar regSp + 2))

def pull32 (s : Cpu) : Run (UInt32 × Cpu) := do
  let v ← read32 (s.dar regSp) s
  return (v, s.setReg regSp (s.dar regSp + 4))

/-! ### What the accesses are -/

theorem toNat_maskOutAbove (sz : Size) (v : UInt32) :
    (maskOutAbove sz v).toNat = v.toNat % 2 ^ sz.bits := by
  cases sz with
  | byte => exact @toNat_and_mask v 8 (by decide)
  | word => exact @toNat_and_mask v 16 (by decide)
  | long => exact @toNat_and_mask v 32 (by decide)

theorem maskOutAbove_lt (sz : Size) (v : UInt32) : (maskOutAbove sz v).toNat < 2 ^ sz.bits := by
  rw [toNat_maskOutAbove]
  exact Nat.mod_lt _ (Nat.two_pow_pos _)

/-- The sign of an operand is extended to the whole word. -/
theorem toNat_makeInt (sz : Size) (v : UInt32) :
    ((makeInt sz v).toNat : Int) = signed sz.bits (v.toNat % 2 ^ sz.bits) % 2 ^ 32 := by
  have hsplit : ∀ k, 0 < k → k ≤ 32 → ((if v &&& UInt32.ofNat (2 ^ (k - 1)) ≠ 0 then
        v ||| ~~~UInt32.ofNat (2 ^ k - 1) else v &&& UInt32.ofNat (2 ^ k - 1)).toNat : Int) =
      signed k (v.toNat % 2 ^ k) % 2 ^ 32 := by
    intro k hpos hk
    have hlt : v.toNat % 2 ^ k < 2 ^ k := Nat.mod_lt _ (Nat.two_pow_pos k)
    have hsign : bit v (k - 1) = decide (2 ^ (k - 1) ≤ v.toNat % 2 ^ k) := by
      have hkk : k - 1 + 1 = k := by omega
      have hbelow : k - 1 < k := by omega
      rw [← testBit_top (by rwa [hkk]), Nat.testBit_mod_two_pow, bit]
      simp [hbelow]
    have hle : 2 ^ k ≤ 2 ^ 32 := Nat.pow_le_pow_right (by decide) hk
    have hfull : 2 ^ k * (2 ^ (32 - k) - 1) + 2 ^ k = 2 ^ 32 := by
      rw [← Nat.mul_succ, Nat.succ_eq_add_one, Nat.sub_add_cancel (Nat.two_pow_pos _), ← Nat.pow_add]
      congr 1
      omega
    have hand := and_two_pow_ne_zero v (i := k - 1) (by omega)
    rw [hsign, decide_eq_true_eq] at hand
    unfold signed
    by_cases hneg : 2 ^ (k - 1) ≤ v.toNat % 2 ^ k
    · rw [if_pos (hand.mpr hneg), if_pos hneg, toNat_or_not_mask v hk]
      push_cast
      zify at hfull hlt hle
      omega
    · rw [if_neg (fun h => hneg (hand.mp h)), if_neg hneg, toNat_and_mask v hk]
      omega
  cases sz with
  | byte => exact hsplit 8 (by decide) (by decide)
  | word => exact hsplit 16 (by decide) (by decide)
  | long =>
    have hlt := v.toNat_lt
    rw [makeInt, Size.bits, Nat.mod_eq_of_lt hlt, signed]
    split <;> omega

theorem ofBigEndian_slice_lt (m : Memory) (a n : Nat) : ofBigEndian (slice m a n) < 2 ^ (8 * n) := by
  have hlt := ofBigEndian_lt (slice m a n)
  rwa [slice_length, show 256 = 2 ^ 8 by rfl, ← Nat.pow_mul] at hlt

theorem size_bits (sz : Size) : 2 ^ sz.bits = 256 ^ sz.bytes := by
  cases sz <;> rfl

theorem read_eq_ok {sz : Size} {a v : UInt32} {s : Cpu} : read sz a s = Except.ok v ↔
    (∀ i < sz.bytes, Mapped (a.toNat + i)) ∧
      v.toNat = ofBigEndian (slice s.memory a.toNat sz.bytes) := by
  have hlt := ofBigEndian_lt (slice s.memory a.toNat sz.bytes)
  rw [slice_length] at hlt
  cases sz with
  | byte =>
    have hone : ofBigEndian (slice s.memory a.toNat 1) = (s.memory a.toNat).toNat := by
      simp [slice, ofBigEndian]
    simp only [read, read8, readMemory8, Run.bind_eq_ok, peek_eq_ok, Run.pure_eq_ok, Run.ok_inj,
      Size.bytes, hone]
    constructor
    · rintro ⟨c, ⟨hmap, rfl⟩, rfl⟩
      refine ⟨?_, by simp⟩
      intro i hi
      obtain rfl : i = 0 := by omega
      exact hmap
    · rintro ⟨hmap, hv⟩
      refine ⟨s.memory a.toNat, ⟨hmap 0 (by decide), rfl⟩, ?_⟩
      apply UInt32.toNat_inj.mp
      simp [hv]
  | word =>
    have hword : (wordAt s.memory a.toNat).toNat = ofBigEndian (slice s.memory a.toNat 2) :=
      UInt16.toNat_ofNat_of_lt' hlt
    simp only [read, read16, Run.bind_eq_ok, readMemory16_eq_ok, Run.pure_eq_ok, Run.ok_inj,
      Size.bytes, ← hword]
    constructor
    · rintro ⟨c, ⟨hmap, rfl⟩, rfl⟩
      exact ⟨hmap, by simp⟩
    · rintro ⟨hmap, hv⟩
      refine ⟨_, ⟨hmap, rfl⟩, ?_⟩
      apply UInt32.toNat_inj.mp
      simp [hv]
  | long =>
    simp only [read, read32, readMemory32_eq_ok, Size.bytes, ← toNat_longAt, UInt32.toNat_inj]

theorem write_eq_ok {sz : Size} {a v : UInt32} {s t : Cpu} : write sz a v s = Except.ok t ↔
    (∀ i < sz.bytes, Mapped (a.toNat + i)) ∧
      t = s.setMemory (Bytes.write s.memory a.toNat (bigEndian sz.bytes v.toNat)) := by
  cases sz with
  | byte =>
    have hbyte : bigEndian 1 v.toNat = [v.toUInt8] := by
      have hb : UInt8.ofNat v.toNat = v.toUInt8 := rfl
      simp [bigEndian, hb]
    simp only [write, write8, writeMemory8, Run.bind_eq_ok, poke_iff, Run.pure_eq_ok, Run.ok_inj,
      Size.bytes, hbyte, List.length_singleton]
    constructor
    · rintro ⟨m, ⟨hmap, rfl⟩, rfl⟩
      exact ⟨hmap, rfl⟩
    · rintro ⟨hmap, rfl⟩
      exact ⟨_, ⟨hmap, rfl⟩, rfl⟩
  | word =>
    have hlow : v.toUInt16.toNat % 256 ^ 2 = v.toNat % 256 ^ 2 := by simp
    simp only [write, write16, Run.bind_eq_ok, writeMemory16_eq_ok, Run.pure_eq_ok, Run.ok_inj,
      Size.bytes, bigEndian_congr hlow]
    constructor
    · rintro ⟨m, ⟨hmap, rfl⟩, rfl⟩
      exact ⟨hmap, rfl⟩
    · rintro ⟨hmap, rfl⟩
      exact ⟨_, ⟨hmap, rfl⟩, rfl⟩
  | long =>
    simp only [write, write32, Run.bind_eq_ok, writeMemory32_eq_ok, Run.pure_eq_ok, Run.ok_inj,
      Size.bytes]
    constructor
    · rintro ⟨m, ⟨hmap, rfl⟩, rfl⟩
      exact ⟨hmap, rfl⟩
    · rintro ⟨hmap, rfl⟩
      exact ⟨_, ⟨hmap, rfl⟩, rfl⟩

theorem read16_eq_ok {a v : UInt32} {s : Cpu} : read16 a s = Except.ok v ↔
    (∀ i < 2, Mapped (a.toNat + i)) ∧ v.toNat = ofBigEndian (slice s.memory a.toNat 2) :=
  @read_eq_ok .word a v s

theorem read32_eq_ok {a v : UInt32} {s : Cpu} : read32 a s = Except.ok v ↔
    (∀ i < 4, Mapped (a.toNat + i)) ∧ v.toNat = ofBigEndian (slice s.memory a.toNat 4) :=
  @read_eq_ok .long a v s

theorem readImm16_eq_ok {s t : Cpu} {v : UInt32} : readImm16 s = Except.ok (v, t) ↔
    read16 s.pc s = Except.ok v ∧ t = s.setPc (s.pc + 2) := by
  simp only [readImm16, Run.bind_eq_ok, Run.pure_eq_ok, Run.ok_inj, Prod.mk.injEq]
  constructor
  · rintro ⟨_, h, rfl, rfl⟩
    exact ⟨h, rfl⟩
  · rintro ⟨h, rfl⟩
    exact ⟨_, h, rfl, rfl⟩

theorem readImm32_eq_ok {s t : Cpu} {v : UInt32} : readImm32 s = Except.ok (v, t) ↔
    read32 s.pc s = Except.ok v ∧ t = s.setPc (s.pc + 4) := by
  simp only [readImm32, Run.bind_eq_ok, Run.pure_eq_ok, Run.ok_inj, Prod.mk.injEq]
  constructor
  · rintro ⟨_, h, rfl, rfl⟩
    exact ⟨h, rfl⟩
  · rintro ⟨h, rfl⟩
    exact ⟨_, h, rfl, rfl⟩

theorem fetch_eq_ok {s t : Cpu} : fetch s = Except.ok t ↔
    ∃ v, read16 s.pc s = Except.ok v ∧ t = { s with ppc := s.pc, pc := s.pc + 2, ir := v } := by
  simp only [fetch, Run.bind_eq_ok, Run.pure_eq_ok, Run.ok_inj, Prod.exists, readImm16_eq_ok]
  constructor
  · rintro ⟨v, _, ⟨h, rfl⟩, rfl⟩
    exact ⟨v, h, rfl⟩
  · rintro ⟨v, h, rfl⟩
    exact ⟨v, _, ⟨h, rfl⟩, rfl⟩

end Cpu

end ParaTos
