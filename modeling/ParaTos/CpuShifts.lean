/-
  ParaTos/CpuShifts.lean
  ======================
  **Shifts and rotations of registers** (`mushashi/m68k_in.c`: `asr`, `lsr`, `asl`, `lsl`,
  `ror`, `rol`, `roxr`, `roxl`).

  The code never loops: it shifts C words by the whole count, fills in signs from a
  table, and finds the carry and the overflow by shifts of their own, which are not the
  same for the three sizes.  Counts in registers go up to 63, past the size of the
  operand.

  The handlers are all here, with what a handler has to do (`Shifted`) and the proofs for
  the shifts; `CpuRotations` has those for the rotations.  Clock cycles are left out.
-/
import ParaTos.CpuFlags
import ParaTos.Shifts

namespace ParaTos.Cpu

open Shifts WordBits

/-! ### Tables and macros -/

/-- `m68ki_shift_8_table`, `m68ki_shift_16_table` and `m68ki_shift_32_table`. -/
def shiftTable : Size → List UInt32
  | .byte => [0x00, 0x80, 0xc0, 0xe0, 0xf0, 0xf8, 0xfc, 0xfe] ++ List.replicate 57 0xff
  | .word =>
    [0x0000, 0x8000, 0xc000, 0xe000, 0xf000, 0xf800, 0xfc00, 0xfe00, 0xff00, 0xff80, 0xffc0,
      0xffe0, 0xfff0, 0xfff8, 0xfffc, 0xfffe] ++ List.replicate 49 0xffff
  | .long =>
    [0x00000000, 0x80000000, 0xc0000000, 0xe0000000, 0xf0000000, 0xf8000000, 0xfc000000,
      0xfe000000, 0xff000000, 0xff800000, 0xffc00000, 0xffe00000, 0xfff00000, 0xfff80000,
      0xfffc0000, 0xfffe0000, 0xffff0000, 0xffff8000, 0xffffc000, 0xffffe000, 0xfffff000,
      0xfffff800, 0xfffffc00, 0xfffffe00, 0xffffff00, 0xffffff80, 0xffffffc0, 0xffffffe0,
      0xfffffff0, 0xfffffff8, 0xfffffffc, 0xfffffffe] ++ List.replicate 33 0xffffffff

def signs (sz : Size) (shift : UInt32) : UInt32 := (shiftTable sz).getD shift.toNat 0

/-- `GET_MSB_8`, `GET_MSB_16` and `GET_MSB_32`. -/
def getMsb : Size → UInt32 → UInt32
  | .byte, a => a &&& 0x80
  | .word, a => a &&& 0x8000
  | .long, a => a &&& 0x80000000

/-- `LSR_32` and `LSL_32`. -/
def lsr32 (a : UInt64) (c : UInt32) : UInt64 := if c < 32 then a >>> c.toUInt64 else 0
def lsl32 (a : UInt64) (c : UInt32) : UInt64 := if c < 32 then a <<< c.toUInt64 else 0

/-- `ROR_8`, `ROR_16`, and `ROR_32` of a 64-bit word. -/
def rotateRight : Size → UInt32 → UInt32 → UInt32
  | .byte, a, c => ((a >>> c) ||| (a <<< (8 - c))) &&& 0xff
  | .word, a, c => ((a >>> c) ||| (a <<< (16 - c))) &&& 0xffff
  | .long, a, c => ((lsr32 a.toUInt64 c ||| lsl32 a.toUInt64 (32 - c)) &&& 0xffffffff).toUInt32

/-- `ROL_8`, `ROL_16`, and `ROL_32` of a 64-bit word. -/
def rotateLeft : Size → UInt32 → UInt32 → UInt32
  | .byte, a, c => ((a <<< c) ||| (a >>> (8 - c))) &&& 0xff
  | .word, a, c => ((a <<< c) ||| (a >>> (16 - c))) &&& 0xffff
  | .long, a, c => ((lsl32 a.toUInt64 c ||| lsr32 a.toUInt64 (32 - c)) &&& 0xffffffff).toUInt32

/-- `ROR_9`, `ROR_17`, `ROR_33_64`, and the same to the left. -/
def ror9 (a c : UInt32) : UInt32 := (a >>> c) ||| (a <<< (9 - c))
def ror17 (a c : UInt32) : UInt32 := (a >>> c) ||| (a <<< (17 - c))
def ror33 (a : UInt64) (c : UInt32) : UInt64 := (a >>> c.toUInt64) ||| (a <<< (33 - c).toUInt64)
def rol9 (a c : UInt32) : UInt32 := (a <<< c) ||| (a >>> (9 - c))
def rol17 (a c : UInt32) : UInt32 := (a <<< c) ||| (a >>> (17 - c))
def rol33 (a : UInt64) (c : UInt32) : UInt64 := (a <<< c.toUInt64) ||| (a >>> (33 - c).toUInt64)

/-! ### The handlers -/

/-- A count in the opcode, and one in a register. -/
def countS (s : Cpu) : UInt32 := (((s.ir >>> 9) - 1) &&& 7) + 1
def countR (s : Cpu) : UInt32 := s.dar s.dx &&& 0x3f

/-- What the handlers do when the count is zero. -/
def noShift (sz : Size) (s : Cpu) : Cpu :=
  let src := low sz (s.dar s.dy)
  { s with cFlag := 0, nFlag := nflag sz src, notZFlag := src, vFlag := 0 }

/-- `asr, 8, s` and its kin. -/
def asrS (sz : Size) (s : Cpu) : Cpu :=
  let shift := s.countS
  let src := low sz (s.dar s.dy)
  let res := src >>> shift
  let res := if getMsb sz src ≠ 0 then res ||| signs sz shift else res
  let c := src <<< (9 - shift)
  { s.setReg s.dy (maskInto sz (s.dar s.dy) res) with
    nFlag := nflag sz res, notZFlag := res, vFlag := 0, xFlag := c, cFlag := c }

/-- The carry of `asr` and `lsr` by a register. -/
def carryRight (sz : Size) (src shift : UInt32) : UInt32 :=
  match sz with
  | .byte => src <<< (9 - shift)
  | .word => (src >>> (shift - 1)) <<< (8 : UInt32)
  | .long => (src >>> (shift - 1)) <<< (8 : UInt32)

/-- The counts that `lsr` and `lsl` by a register shift by. -/
def lsWithin (sz : Size) (shift : UInt32) : Bool :=
  match sz with
  | .byte => shift ≤ 8
  | .word => shift ≤ 16
  | .long => shift < 32

def asrR (sz : Size) (s : Cpu) : Cpu :=
  let shift := s.countR
  let src := low sz (s.dar s.dy)
  let res := src >>> shift
  if shift ≠ 0 then
    if shift.toNat < sz.bits then
      let res := if getMsb sz src ≠ 0 then res ||| signs sz shift else res
      let c := carryRight sz src shift
      { s.setReg s.dy (maskInto sz (s.dar s.dy) res) with
        nFlag := nflag sz res, notZFlag := res, vFlag := 0, xFlag := c, cFlag := c }
    else if getMsb sz src ≠ 0 then
      let dst := match sz with
        | .byte => s.dar s.dy ||| 0xff
        | .word => s.dar s.dy ||| 0xffff
        | .long => 0xffffffff
      { s.setReg s.dy dst with
        nFlag := 0x80, notZFlag := 0xffffffff, vFlag := 0, xFlag := 0x100, cFlag := 0x100 }
    else
      { s.setReg s.dy (maskInto sz (s.dar s.dy) 0) with
        nFlag := 0, notZFlag := 0, vFlag := 0, xFlag := 0, cFlag := 0 }
  else noShift sz s

def lsrS (sz : Size) (s : Cpu) : Cpu :=
  let shift := s.countS
  let src := low sz (s.dar s.dy)
  let res := src >>> shift
  let c := src <<< (9 - shift)
  { s.setReg s.dy (maskInto sz (s.dar s.dy) res) with
    nFlag := 0, notZFlag := res, vFlag := 0, xFlag := c, cFlag := c }

/-- The carry of `lsr` and `lsl` by a register, for larger counts. -/
def carryPastRight (sz : Size) (src shift : UInt32) : UInt32 :=
  match sz with
  | .byte => 0
  | .word => 0
  | .long => if shift = 32 then getMsb .long src >>> 23 else 0

def carryPastLeft (sz : Size) (src shift : UInt32) : UInt32 :=
  match sz with
  | .byte => 0
  | .word => 0
  | .long => (if shift = 32 then src &&& 1 else 0) <<< (8 : UInt32)

def lsrR (sz : Size) (s : Cpu) : Cpu :=
  let shift := s.countR
  let src := low sz (s.dar s.dy)
  let res := src >>> shift
  if shift ≠ 0 then
    if lsWithin sz shift then
      let c := carryRight sz src shift
      { s.setReg s.dy (maskInto sz (s.dar s.dy) res) with
        nFlag := 0, notZFlag := res, vFlag := 0, xFlag := c, cFlag := c }
    else
      let c := carryPastRight sz src shift
      { s.setReg s.dy (maskInto sz (s.dar s.dy) 0) with
        nFlag := 0, notZFlag := 0, vFlag := 0, xFlag := c, cFlag := c }
  else noShift sz s

/-- The carry of `asl`, `lsl` and `rol` by a count in the opcode. -/
def carryLeftS (sz : Size) (src shift : UInt32) : UInt32 :=
  match sz with
  | .byte => src <<< shift
  | .word => src >>> (8 - shift)
  | .long => src >>> (24 - shift)

/-- The carry of `asl` and `lsl` by a register. -/
def carryLeftR (sz : Size) (src shift : UInt32) : UInt32 :=
  match sz with
  | .byte => src <<< shift
  | .word => (src <<< shift) >>> (8 : UInt32)
  | .long => (src >>> (32 - shift)) <<< (8 : UInt32)

def aslS (sz : Size) (s : Cpu) : Cpu :=
  let shift := s.countS
  let src := low sz (s.dar s.dy)
  let res := maskOutAbove sz (src <<< shift)
  let c := carryLeftS sz src shift
  let top := src &&& signs sz (shift + 1)
  let same := match sz with
    | .byte => top == 0 || (top == signs sz (shift + 1) && shift < 8)
    | .word => top == 0 || top == signs sz (shift + 1)
    | .long => top == 0 || top == signs sz (shift + 1)
  { s.setReg s.dy (maskInto sz (s.dar s.dy) res) with
    nFlag := nflag sz res, notZFlag := res, vFlag := (!same).toUInt32 <<< 7, xFlag := c,
    cFlag := c }

def aslR (sz : Size) (s : Cpu) : Cpu :=
  let shift := s.countR
  let src := low sz (s.dar s.dy)
  let res := maskOutAbove sz (src <<< shift)
  if shift ≠ 0 then
    if shift.toNat < sz.bits then
      let c := carryLeftR sz src shift
      let top := src &&& signs sz (shift + 1)
      { s.setReg s.dy (maskInto sz (s.dar s.dy) res) with
        nFlag := nflag sz res, notZFlag := res,
        vFlag := (!(top == 0 || top == signs sz (shift + 1))).toUInt32 <<< 7, xFlag := c,
        cFlag := c }
    else
      let c := (if shift.toNat = sz.bits then src &&& 1 else 0) <<< (8 : UInt32)
      { s.setReg s.dy (maskInto sz (s.dar s.dy) 0) with
        nFlag := 0, notZFlag := 0, vFlag := (!(src == 0)).toUInt32 <<< 7, xFlag := c, cFlag := c }
  else noShift sz s

def lslS (sz : Size) (s : Cpu) : Cpu :=
  let shift := s.countS
  let src := low sz (s.dar s.dy)
  let res := maskOutAbove sz (src <<< shift)
  let c := carryLeftS sz src shift
  { s.setReg s.dy (maskInto sz (s.dar s.dy) res) with
    nFlag := nflag sz res, notZFlag := res, vFlag := 0, xFlag := c, cFlag := c }

def lslR (sz : Size) (s : Cpu) : Cpu :=
  let shift := s.countR
  let src := low sz (s.dar s.dy)
  let res := maskOutAbove sz (src <<< shift)
  if shift ≠ 0 then
    if lsWithin sz shift then
      let c := carryLeftR sz src shift
      { s.setReg s.dy (maskInto sz (s.dar s.dy) res) with
        nFlag := nflag sz res, notZFlag := res, vFlag := 0, xFlag := c, cFlag := c }
    else
      let c := carryPastLeft sz src shift
      { s.setReg s.dy (maskInto sz (s.dar s.dy) 0) with
        nFlag := 0, notZFlag := 0, vFlag := 0, xFlag := c, cFlag := c }
  else noShift sz s

/-- The places that `ror` and `rol` by a count in the opcode go round. -/
def rotatePlaces (sz : Size) (shift : UInt32) : UInt32 :=
  match sz with
  | .byte => shift &&& 7
  | .word => shift
  | .long => shift

def rorS (sz : Size) (s : Cpu) : Cpu :=
  let shift := s.countS
  let src := low sz (s.dar s.dy)
  let res := rotateRight sz src (rotatePlaces sz shift)
  { s.setReg s.dy (maskInto sz (s.dar s.dy) res) with
    nFlag := nflag sz res, notZFlag := res, vFlag := 0, cFlag := src <<< (9 - shift) }

/-- The places that `ror` and `rol` by a register go round. -/
def rotateCount (sz : Size) (origShift : UInt32) : UInt32 :=
  match sz with
  | .byte => origShift &&& 7
  | .word => origShift &&& 15
  | .long => origShift &&& 31

def carryRorR (sz : Size) (src shift : UInt32) : UInt32 :=
  match sz with
  | .byte => src <<< (8 - ((shift - 1) &&& 7))
  | .word => (src >>> ((shift - 1) &&& 15)) <<< (8 : UInt32)
  | .long => ((src.toUInt64 >>> ((shift - 1) &&& 31).toUInt64) <<< (8 : UInt64)).toUInt32

def rorR (sz : Size) (s : Cpu) : Cpu :=
  let origShift := s.countR
  let src := low sz (s.dar s.dy)
  let shift := rotateCount sz origShift
  let res := rotateRight sz src shift
  if origShift ≠ 0 then
    { s.setReg s.dy (maskInto sz (s.dar s.dy) res) with
      nFlag := nflag sz res, notZFlag := res, vFlag := 0, cFlag := carryRorR sz src shift }
  else noShift sz s

def rolS (sz : Size) (s : Cpu) : Cpu :=
  let shift := s.countS
  let src := low sz (s.dar s.dy)
  let res := rotateLeft sz src (rotatePlaces sz shift)
  { s.setReg s.dy (maskInto sz (s.dar s.dy) res) with
    nFlag := nflag sz res, notZFlag := res, vFlag := 0, cFlag := carryLeftS sz src shift }

def rolR (sz : Size) (s : Cpu) : Cpu :=
  let origShift := s.countR
  let src := low sz (s.dar s.dy)
  let shift := rotateCount sz origShift
  let res := match sz with
    | .byte => rotateLeft sz src shift
    | .word => maskOutAbove .word (rotateLeft sz src shift)
    | .long => rotateLeft sz src shift
  if origShift ≠ 0 then
    match sz with
    | .long =>
      { s.setReg s.dy res with
        nFlag := nflag sz res, notZFlag := res, vFlag := 0,
        cFlag := ((src.toUInt64 >>> (32 - shift).toUInt64) <<< (8 : UInt64)).toUInt32 }
    | _ =>
      if shift ≠ 0 then
        { s.setReg s.dy (maskInto sz (s.dar s.dy) res) with
          nFlag := nflag sz res, notZFlag := res, vFlag := 0, cFlag := carryLeftR sz src shift }
      else
        { s with
          cFlag := (src &&& 1) <<< (8 : UInt32), nFlag := nflag sz src, notZFlag := src,
          vFlag := 0 }
  else noShift sz s

/-- The rotations with the extend bit, by any count below the number of bits. -/
def roxResult (right : Bool) (sz : Size) (shift : UInt32) (s : Cpu) : Cpu :=
  let src := low sz (s.dar s.dy)
  match sz with
  | .byte =>
    let a := src ||| (s.xflagAs1 <<< 8)
    let res := if right then ror9 a shift else rol9 a shift
    { s.setReg s.dy (maskInto .byte (s.dar s.dy) (maskOutAbove .byte res)) with
      nFlag := nflag .byte (maskOutAbove .byte res), notZFlag := maskOutAbove .byte res,
      vFlag := 0, xFlag := res, cFlag := res }
  | .word =>
    let a := src ||| (s.xflagAs1 <<< 16)
    let res := if right then ror17 a shift else rol17 a shift
    { s.setReg s.dy (maskInto .word (s.dar s.dy) (maskOutAbove .word res)) with
      nFlag := nflag .word (maskOutAbove .word res), notZFlag := maskOutAbove .word res,
      vFlag := 0, xFlag := res >>> 8, cFlag := res >>> 8 }
  | .long =>
    let a := src.toUInt64 ||| (s.xflagAs1.toUInt64 <<< 32)
    let res := if right then ror33 a shift else rol33 a shift
    { s.setReg s.dy (res &&& 0xffffffff).toUInt32 with
      nFlag := nflag .long (res &&& 0xffffffff).toUInt32, notZFlag := (res &&& 0xffffffff).toUInt32,
      vFlag := 0, xFlag := (res >>> 24).toUInt32, cFlag := (res >>> 24).toUInt32 }

def roxCount (sz : Size) (origShift : UInt32) : UInt32 :=
  match sz with
  | .byte => origShift % 9
  | .word => origShift % 17
  | .long => origShift % 33

def roxByRegister (right : Bool) (sz : Size) (s : Cpu) : Cpu :=
  let origShift := s.countR
  if origShift ≠ 0 then
    roxResult right sz (roxCount sz origShift) s
  else
    { s with
      cFlag := s.xFlag, nFlag := nflag sz (s.dar s.dy), notZFlag := low sz (s.dar s.dy), vFlag := 0 }

/-- `roxr, 8, s`, `roxr, 8, r` and their kin. -/
def roxrS (sz : Size) (s : Cpu) : Cpu := roxResult true sz s.countS s
def roxrR (sz : Size) (s : Cpu) : Cpu := roxByRegister true sz s
def roxlS (sz : Size) (s : Cpu) : Cpu := roxResult false sz s.countS s
def roxlR (sz : Size) (s : Cpu) : Cpu := roxByRegister false sz s

/-! ### Bits of operands -/

theorem bit_low (sz : Size) (v : UInt32) (i : Nat) :
    bit (low sz v) i = (decide (i < sz.bits) && bit v i) := by
  rw [bit, toNat_low, Nat.testBit_mod_two_pow]
  rfl

theorem bit_maskOutAbove (sz : Size) (v : UInt32) (i : Nat) :
    bit (maskOutAbove sz v) i = (decide (i < sz.bits) && bit v i) := by
  rw [bit, toNat_maskOutAbove, Nat.testBit_mod_two_pow]
  rfl

theorem bit_maskInto {sz : Size} {old res : UInt32} (hres : ∀ i, sz.bits ≤ i → bit res i = false)
    {i : Nat} (hi : i < 32) :
    bit (maskInto sz old res) i = if i < sz.bits then bit res i else bit old i := by
  have hbyte : bit 0xff i = decide (i < 8) := @bit_ones 8 (by decide) i
  have hword : bit 0xffff i = decide (i < 16) := @bit_ones 16 (by decide) i
  have hz : ¬i < sz.bits → bit res i = false := fun h => hres i (Nat.le_of_not_lt h)
  cases sz with
  | byte =>
    simp only [maskInto, bit_or, bit_and, bit_not_of_lt _ hi, hbyte, Size.bits] at hz ⊢
    by_cases hlt : i < 8 <;> simp [hlt, hz]
  | word =>
    simp only [maskInto, bit_or, bit_and, bit_not_of_lt _ hi, hword, Size.bits] at hz ⊢
    by_cases hlt : i < 16 <;> simp [hlt, hz]
  | long => simp [maskInto, Size.bits, hi]

theorem bit_signs (sz : Size) {shift : UInt32} (hshift : shift.toNat ≤ 64) {i : Nat} (hi : i < 32) :
    bit (signs sz shift) i = decide (i < sz.bits ∧ sz.bits ≤ i + shift.toNat) := by
  have htable : ∀ k < 65, ∀ j < 32, bit ((shiftTable sz).getD k 0) j =
      decide (j < sz.bits ∧ sz.bits ≤ j + k) := by
    cases sz <;> decide +kernel
  exact htable _ (by omega) i hi

theorem getMsb_ne_zero (sz : Size) (v : UInt32) :
    getMsb sz v ≠ 0 ↔ bit v (sz.bits - 1) = true := by
  cases sz with
  | byte => exact and_two_pow_ne_zero v (i := 7) (by decide)
  | word => exact and_two_pow_ne_zero v (i := 15) (by decide)
  | long => exact and_two_pow_ne_zero v (i := 31) (by decide)

/-! ### What a handler has to do -/

/-- The operand, with the extend bit; rotations with the extend bit start with it in the
    carry, all others with the carry clear. -/
def shifter (kind : Kind) (sz : Size) (s : Cpu) : Shifter where
  bits := bit (low sz (s.dar s.dy))
  x := bit s.xFlag 8
  c := decide (kind = .roxr ∨ kind = .roxl) && bit s.xFlag 8
  v := false

/-- The operand and the flags are those of `e`, and all else is as before. -/
structure Shifted (sz : Size) (e : Shifter) (s t : Cpu) : Prop where
  bits : ∀ i < 32, bit (t.dar s.dy) i = if i < sz.bits then e.bits i else bit (s.dar s.dy) i
  x : bit t.xFlag 8 = e.x
  c : bit t.cFlag 8 = e.c
  v : bit t.vFlag 7 = e.v
  n : bit t.nFlag 7 = e.bits (sz.bits - 1)
  z : t.notZFlag = 0 ↔ ∀ i < sz.bits, e.bits i = false
  rest : t = { s.setReg s.dy (t.dar s.dy) with
    xFlag := t.xFlag, nFlag := t.nFlag, notZFlag := t.notZFlag, vFlag := t.vFlag, cFlag := t.cFlag }

theorem bits_le (sz : Size) : sz.bits ≤ 32 := by cases sz <;> decide

theorem shifter_narrow (kind : Kind) (sz : Size) (s : Cpu) : Narrow sz.bits (shifter kind sz s) := by
  intro i hi
  simp [shifter, bit_low, Nat.not_lt_of_le hi]

theorem eq_zero_iff {v : UInt32} : v = 0 ↔ ∀ i < 32, bit v i = false := by
  constructor
  · rintro rfl i -
    exact bit_zero i
  · intro h
    exact ext_bits fun i hi => by rw [h i hi, bit_zero]

/-- A result that has the right bits, with the flags that go with it. -/
theorem shifted_result {sz : Size} {e : Shifter} {s : Cpu} {res dst x n z v c : UInt32}
    (hnarrow : Narrow sz.bits e) (hres : ∀ i, bit res i = e.bits i)
    (hdst : dst = maskInto sz (s.dar s.dy) res) (hx : bit x 8 = e.x) (hc : bit c 8 = e.c)
    (hv : bit v 7 = e.v) (hn : bit n 7 = bit res (sz.bits - 1)) (hz : z = 0 ↔ res = 0) :
    Shifted sz e s { s.setReg s.dy dst with
      xFlag := x, nFlag := n, notZFlag := z, vFlag := v, cFlag := c } := by
  refine ⟨fun i hi => ?_, hx, hc, hv, hn.trans (hres _), ?_, ?_⟩
  · change bit ((s.setReg s.dy dst).dar s.dy) i = _
    rw [setReg_self, hdst, bit_maskInto (fun i hi => (hres i).trans (hnarrow i hi)) hi, hres]
  · have hle := bits_le sz
    change z = 0 ↔ _
    rw [hz, eq_zero_iff]
    constructor
    · intro h i hi
      rw [← hres, h i (by omega)]
    · intro h i _
      rw [hres]
      by_cases hi : i < sz.bits
      · exact h i hi
      · exact hnarrow i (Nat.le_of_not_lt hi)
  · simp [setReg]

theorem shifted_of {kind : Kind} {sz : Size} {k : Nat} {e : Shifter} {s : Cpu}
    {res dst x n z v c : UInt32} (he : steps sz.bits kind k (shifter kind sz s) = e)
    (hres : ∀ i, bit res i = e.bits i) (hdst : dst = maskInto sz (s.dar s.dy) res)
    (hx : bit x 8 = e.x) (hc : bit c 8 = e.c) (hv : bit v 7 = e.v)
    (hn : bit n 7 = bit res (sz.bits - 1)) (hz : z = 0 ↔ res = 0) :
    Shifted sz (steps sz.bits kind k (shifter kind sz s)) s { s.setReg s.dy dst with
      xFlag := x, nFlag := n, notZFlag := z, vFlag := v, cFlag := c } := by
  have hnarrow := narrow_steps (shifter_narrow kind sz s) kind k
  rw [he] at hnarrow ⊢
  exact shifted_result hnarrow hres hdst hx hc hv hn hz

/-! ### Counts -/

theorem countS_bounds (s : Cpu) : 1 ≤ s.countS.toNat ∧ s.countS.toNat ≤ 8 := by
  have hand : ((s.ir >>> 9 - 1) &&& 7).toNat = (s.ir >>> 9 - 1).toNat % 2 ^ 3 :=
    @toNat_and_mask _ 3 (by decide)
  rw [countS, UInt32.toNat_add, hand]
  have hone : (1 : UInt32).toNat = 1 := rfl
  omega

theorem countR_lt (s : Cpu) : s.countR.toNat < 64 := by
  have hand : s.countR.toNat = (s.dar s.dx).toNat % 2 ^ 6 := @toNat_and_mask _ 6 (by decide)
  omega

/-! ### Shifts to the right -/

section Right

variable {sz : Size} {src shift : UInt32}

theorem bit_shift_right (hshift : shift.toNat < 32) (hsrc : ∀ i, sz.bits ≤ i → bit src i = false)
    (i : Nat) : bit (src >>> shift) i = down sz.bits shift.toNat false (bit src) i := by
  rw [bit_shiftRight, Nat.mod_eq_of_lt hshift, down, Nat.add_comm]
  by_cases hin : i + shift.toNat < sz.bits
  · have hi : i < sz.bits := by omega
    simp [hin, hi]
  · simp [hin, hsrc _ (Nat.le_of_not_lt hin)]

theorem bit_shift_right_signs (hshift : shift.toNat < 32)
    (hsrc : ∀ i, sz.bits ≤ i → bit src i = false) (i : Nat) :
    bit (if getMsb sz src ≠ 0 then (src >>> shift) ||| signs sz shift else src >>> shift) i =
      down sz.bits shift.toNat (bit src (sz.bits - 1)) (bit src) i := by
  have hright := bit_shift_right hshift hsrc i
  by_cases hmsb : getMsb sz src ≠ 0
  · have htop := (getMsb_ne_zero sz src).mp hmsb
    rw [if_pos hmsb, bit_or, hright, htop]
    by_cases hi : i < 32
    · rw [bit_signs sz (by omega) hi]
      unfold down
      grind
    · have hout : ¬i < sz.bits := by have hbits := bits_le sz; omega
      simp [down, hout, bit_of_ge _ (Nat.le_of_not_lt hi)]
  · have htop : bit src (sz.bits - 1) = false := by
      rw [← Bool.not_eq_true, ← getMsb_ne_zero]
      exact hmsb
    rw [if_neg hmsb, hright, htop]

/-- The last bit that leaves on the right. -/
theorem bit_carry_s (h₁ : 1 ≤ shift.toNat) (h₈ : shift.toNat ≤ 9) :
    bit (src <<< (9 - shift)) 8 = bit src (shift.toNat - 1) := by
  have hsub : (9 - shift).toNat = 9 - shift.toNat := UInt32.toNat_sub_of_le _ _ h₈
  have hmod : (9 - shift.toNat) % 32 = 9 - shift.toNat := Nat.mod_eq_of_lt (by omega)
  have hle : 9 - shift.toNat ≤ 8 := by omega
  have hplace : 8 - (9 - shift.toNat) = shift.toNat - 1 := by omega
  simp [hsub, hmod, hle, hplace]

theorem bit_carry_r (h₁ : 1 ≤ shift.toNat) (h₃₂ : shift.toNat ≤ 32) :
    bit ((src >>> (shift - 1)) <<< (8 : UInt32)) 8 = bit src (shift.toNat - 1) := by
  have hsub : (shift - 1).toNat = shift.toNat - 1 := UInt32.toNat_sub_of_le _ _ h₁
  have hmod : (shift.toNat - 1) % 32 = shift.toNat - 1 := Nat.mod_eq_of_lt (by omega)
  simp [hsub, hmod]

theorem bit_carryRight (h₁ : 1 ≤ shift.toNat) (hle : shift.toNat ≤ sz.bits) :
    bit (carryRight sz src shift) 8 = bit src (shift.toNat - 1) := by
  cases sz with
  | byte => exact bit_carry_s h₁ (le_trans hle (by decide))
  | word => exact bit_carry_r h₁ (le_trans hle (by decide))
  | long => exact bit_carry_r h₁ hle

end Right

/-! ### Shifts to the left -/

section Left

variable {sz : Size} {src shift : UInt32}

theorem bit_shift_left (hshift : shift.toNat < 32) (i : Nat) :
    bit (maskOutAbove sz (src <<< shift)) i = up sz.bits shift.toNat (bit src) i := by
  have hbits := bits_le sz
  rw [bit_maskOutAbove, bit_shiftLeft, Nat.mod_eq_of_lt hshift, up]
  by_cases hi : i < sz.bits
  · have hlt : i < 32 := by omega
    simp [hi, hlt]
  · simp [hi]

/-- The last bit that leaves on the left. -/
theorem bit_carryLeftS (h₁ : 1 ≤ shift.toNat) (h₈ : shift.toNat ≤ 8) :
    bit (carryLeftS sz src shift) 8 = bit src (sz.bits - shift.toNat) := by
  cases sz with
  | byte =>
    have hmod : shift.toNat % 32 = shift.toNat := Nat.mod_eq_of_lt (by omega)
    simp [carryLeftS, hmod, h₈, Size.bits]
  | word =>
    have hsub : (8 - shift).toNat = 8 - shift.toNat := UInt32.toNat_sub_of_le _ _ h₈
    have hplace : (8 - shift.toNat) % 32 + 8 = 16 - shift.toNat := by omega
    simp [carryLeftS, hsub, hplace, Size.bits]
  | long =>
    have hsub : (24 - shift).toNat = 24 - shift.toNat :=
      UInt32.toNat_sub_of_le _ _ (le_trans h₈ (by decide))
    have hplace : (24 - shift.toNat) % 32 + 8 = 32 - shift.toNat := by omega
    simp [carryLeftS, hsub, hplace, Size.bits]

theorem bit_carryLeftR (h₁ : 1 ≤ shift.toNat) (hle : shift.toNat ≤ sz.bits)
    (hlt : shift.toNat < 32) :
    bit (carryLeftR sz src shift) 8 = bit src (sz.bits - shift.toNat) := by
  have hmod : shift.toNat % 32 = shift.toNat := Nat.mod_eq_of_lt hlt
  cases sz with
  | byte =>
    have h₈ : shift.toNat ≤ 8 := hle
    simp [carryLeftR, hmod, h₈, Size.bits]
  | word =>
    have h₁₆ : shift.toNat ≤ 16 := hle
    simp [carryLeftR, hmod, h₁₆, Size.bits]
  | long =>
    have hsub : (32 - shift).toNat = 32 - shift.toNat := UInt32.toNat_sub_of_le _ _ hle
    have hplace : (32 - shift.toNat) % 32 = 32 - shift.toNat := Nat.mod_eq_of_lt (by omega)
    simp [carryLeftR, hsub, hplace, Size.bits]

/-- The mask asks for the bits that pass the top, and for the last sign. -/
theorem bit_signs_succ (hshift : shift.toNat < 64) {i : Nat} (hi : i < 32) :
    bit (signs sz (shift + 1)) i = decide (i < sz.bits ∧ sz.bits ≤ i + shift.toNat + 1) := by
  have hsucc : (shift + 1).toNat = shift.toNat + 1 := by
    rw [UInt32.toNat_add]
    exact Nat.mod_eq_of_lt (by have hone : (1 : UInt32).toNat = 1 := rfl; omega)
  rw [bit_signs sz (by omega) hi, hsucc, Nat.add_assoc]

theorem top_eq_zero (hlt : shift.toNat < sz.bits) : src &&& signs sz (shift + 1) = 0 ↔
    ∀ k ≤ shift.toNat, signAfter sz.bits (bit src) k = false := by
  have hbits := bits_le sz
  rw [and_eq_zero_iff]
  constructor
  · intro h k hk
    have hplace := h (sz.bits - 1 - k) (by omega) (by
      rw [bit_signs_succ (by omega) (by omega), decide_eq_true_eq]
      omega)
    simp [signAfter, hplace]
  · intro h i hi hbit
    rw [bit_signs_succ (by omega) hi, decide_eq_true_eq] at hbit
    have hsign := h (sz.bits - 1 - i) (by omega)
    have hplace : sz.bits - 1 - (sz.bits - 1 - i) = i := by omega
    have hin : sz.bits - 1 - i < sz.bits := by omega
    simpa [signAfter, hplace, hin] using hsign

theorem top_eq_signs (hlt : shift.toNat < sz.bits) :
    src &&& signs sz (shift + 1) = signs sz (shift + 1) ↔
      ∀ k ≤ shift.toNat, signAfter sz.bits (bit src) k = true := by
  have hbits := bits_le sz
  constructor
  · intro h k hk
    have hbit : bit (signs sz (shift + 1)) (sz.bits - 1 - k) = true := by
      rw [bit_signs_succ (by omega) (by omega), decide_eq_true_eq]
      omega
    have hin : k < sz.bits := by omega
    rw [← h, bit_and, Bool.and_eq_true] at hbit
    simp [signAfter, hin, hbit.1]
  · intro h
    apply ext_bits
    intro i hi
    rw [bit_and]
    cases hbit : bit (signs sz (shift + 1)) i with
    | false => rw [Bool.and_false]
    | true =>
      rw [bit_signs_succ (by omega) hi, decide_eq_true_eq] at hbit
      have hsign := h (sz.bits - 1 - i) (by omega)
      have hplace : sz.bits - 1 - (sz.bits - 1 - i) = i := by omega
      have hin : sz.bits - 1 - i < sz.bits := by omega
      simpa [signAfter, hplace, hin] using hsign

/-- **Overflow.**  The bits that pass the top are not all the same. -/
theorem signChanges_of_lt (hlt : shift.toNat < sz.bits) :
    (!(src &&& signs sz (shift + 1) == 0 ||
      src &&& signs sz (shift + 1) == signs sz (shift + 1))) =
      signChanges sz.bits (bit src) shift.toNat := by
  rw [Bool.eq_iff_iff, ← Bool.not_eq_false, ← Bool.not_eq_false, signChanges_eq_false, not_iff_not,
    Bool.not_eq_eq_eq_not, Bool.not_false, Bool.or_eq_true, beq_iff_eq, beq_iff_eq,
    top_eq_zero hlt, top_eq_signs hlt]
  constructor
  · rintro (h | h) k hk
    · rw [h k hk, h 0 (Nat.zero_le _)]
    · rw [h k hk, h 0 (Nat.zero_le _)]
  · intro h
    cases hsign : signAfter sz.bits (bit src) 0 with
    | false => exact .inl fun k hk => (h k hk).trans hsign
    | true => exact .inr fun k hk => (h k hk).trans hsign

theorem signChanges_of_le (hle : sz.bits ≤ shift.toNat)
    (hsrc : ∀ i, sz.bits ≤ i → bit src i = false) :
    (!(src == 0)) = signChanges sz.bits (bit src) shift.toNat := by
  have hbits := bits_le sz
  have hlast : signAfter sz.bits (bit src) sz.bits = false := by simp [signAfter]
  rw [Bool.eq_iff_iff, ← Bool.not_eq_false, ← Bool.not_eq_false, signChanges_eq_false, not_iff_not,
    Bool.not_eq_eq_eq_not, Bool.not_false, beq_iff_eq]
  constructor
  · rintro rfl k -
    simp [signAfter]
  · intro h
    apply ext_bits
    intro i hi
    rw [bit_zero]
    by_cases hin : i < sz.bits
    · have hsign : signAfter sz.bits (bit src) (sz.bits - 1 - i) = false := by
        rw [h _ (by omega), ← h sz.bits hle, hlast]
      have hplace : sz.bits - 1 - (sz.bits - 1 - i) = i := by omega
      have hlt : sz.bits - 1 - i < sz.bits := by omega
      simpa [signAfter, hplace, hlt] using hsign
    · exact hsrc i (Nat.le_of_not_lt hin)

end Left

section Handlers

variable (sz : Size) (s : Cpu)

theorem countS_le_bits : s.countS.toNat ≤ sz.bits := by
  have hsz : 8 ≤ sz.bits := by cases sz <;> decide
  have hcount := countS_bounds s
  omega

theorem maskInto_low (v : UInt32) : maskInto sz v (low sz v) = v := by
  apply ext_bits
  intro i hi
  rw [bit_maskInto (fun i hi => by simp [bit_low, Nat.not_lt_of_le hi]) hi, bit_low]
  by_cases hlt : i < sz.bits <;> simp [hlt]

theorem setReg_same (r : Fin 16) : s.setReg r (s.dar r) = s := by
  simp [setReg]

/-- A count of zero. -/
theorem shifted_zero {kind : Kind} (hkind : kind ≠ .roxr ∧ kind ≠ .roxl) :
    Shifted sz (steps sz.bits kind 0 (shifter kind sz s)) s (noShift sz s) := by
  have hc : (shifter kind sz s).c = false := by simp [shifter, hkind]
  have hsteps : steps sz.bits kind 0 (shifter kind sz s) = shifter kind sz s := rfl
  have hshift := shifted_of hsteps (fun _ => rfl) (maskInto_low sz (s.dar s.dy)).symm rfl
    ((bit_zero 8).trans hc.symm) (bit_zero 7) (nflag_bit sz _) Iff.rfl
  rwa [setReg_same] at hshift

theorem countR_pos {s : Cpu} (h : s.countR ≠ 0) : 1 ≤ s.countR.toNat := by
  have hne : s.countR.toNat ≠ 0 := fun hzero => h (UInt32.toNat_inj.mp hzero)
  omega

theorem shifted_asrS : Shifted sz (steps sz.bits .asr s.countS.toNat (shifter .asr sz s)) s
    (asrS sz s) := by
  obtain ⟨h₁, h₈⟩ := countS_bounds s
  have hle := countS_le_bits sz s
  have hnarrow := shifter_narrow .asr sz s
  have hcarry := @bit_carry_s (low sz (s.dar s.dy)) s.countS h₁ (by omega)
  have hmin : min (s.countS.toNat - 1) (sz.bits - 1) = s.countS.toNat - 1 := by omega
  have hne : s.countS.toNat ≠ 0 := by omega
  have hsteps := steps_asr (bits_pos sz) hnarrow s.countS.toNat
  simp only [if_neg hne, hmin] at hsteps
  exact shifted_of hsteps (bit_shift_right_signs (by omega) hnarrow) rfl hcarry hcarry
    (bit_zero 7) (nflag_bit sz _) Iff.rfl

/-- All bits of the operand are the sign. -/
theorem down_of_le {n : Nat} {b : Bool} {bits : Nat → Bool} (hn : sz.bits ≤ n) (i : Nat) :
    down sz.bits n b bits i = (decide (i < sz.bits) && b) := by
  have hout : ¬i + n < sz.bits := by omega
  simp [down, hout]

/-- The whole operand is filled with the sign. -/
theorem maskInto_ones (v : UInt32) : (match sz with
    | .byte => v ||| 0xff
    | .word => v ||| 0xffff
    | .long => 0xffffffff) = maskInto sz v (signs sz 32) := by
  have hor : ∀ m : UInt32, v ||| m = (v &&& ~~~m) ||| m := fun m => ext_bits fun i hi => by
    simp only [bit_or, bit_and, bit_not_of_lt m hi]
    cases bit v i <;> cases bit m i <;> rfl
  cases sz with
  | byte => exact hor 0xff
  | word => exact hor 0xffff
  | long => rfl

theorem bit_signs_32 (i : Nat) : bit (signs sz 32) i = decide (i < sz.bits) := by
  have hbits := bits_le sz
  by_cases hi : i < 32
  · rw [bit_signs sz (show (32 : UInt32).toNat ≤ 64 by decide) hi]
    have hge : sz.bits ≤ i + (32 : UInt32).toNat := Nat.le_add_left_of_le hbits
    simp only [hge, and_true]
  · have hout : ¬i < sz.bits := by omega
    simp [bit_of_ge _ (Nat.le_of_not_lt hi), hout]

theorem shifted_asrR : Shifted sz (steps sz.bits .asr s.countR.toNat (shifter .asr sz s)) s
    (asrR sz s) := by
  have hlt := countR_lt s
  have hbits := bits_le sz
  have hpos := bits_pos sz
  have hnarrow := shifter_narrow .asr sz s
  have hsteps := steps_asr hpos hnarrow s.countR.toNat
  unfold asrR
  dsimp only
  by_cases hzero : s.countR = 0
  · rw [if_neg (not_not_intro hzero), hzero]
    exact shifted_zero sz s (by decide)
  have hcount := countR_pos hzero
  have hne : s.countR.toNat ≠ 0 := by omega
  rw [if_pos hzero]
  by_cases hwithin : s.countR.toNat < sz.bits
  · have hcarry := @bit_carryRight sz (low sz (s.dar s.dy)) s.countR hcount (by omega)
    have hmin : min (s.countR.toNat - 1) (sz.bits - 1) = s.countR.toNat - 1 := by omega
    simp only [if_neg hne, hmin] at hsteps
    rw [if_pos hwithin]
    exact shifted_of hsteps (bit_shift_right_signs (by omega) hnarrow) rfl hcarry hcarry
      (bit_zero 7) (nflag_bit sz _) Iff.rfl
  -- only copies of the sign are left
  have hmin : min (s.countR.toNat - 1) (sz.bits - 1) = sz.bits - 1 := by omega
  simp only [if_neg hne, hmin] at hsteps
  rw [if_neg hwithin]
  by_cases hmsb : getMsb sz (low sz (s.dar s.dy)) ≠ 0
  · have htop : (shifter .asr sz s).bits (sz.bits - 1) = true := (getMsb_ne_zero sz _).mp hmsb
    have hlast : sz.bits - 1 < sz.bits := by omega
    rw [htop] at hsteps
    rw [if_pos hmsb]
    refine shifted_of hsteps (fun i => ?_) (maskInto_ones sz _) rfl rfl (bit_zero 7) ?_ ?_
    · exact (bit_signs_32 sz i).trans
        ((Bool.and_true _).symm.trans (down_of_le sz (by omega) i).symm)
    · rw [bit_signs_32, decide_eq_true hlast]
      rfl
    · cases sz <;> decide
  · have htop : (shifter .asr sz s).bits (sz.bits - 1) = false := by
      rw [← Bool.not_eq_true]
      exact fun h => hmsb ((getMsb_ne_zero sz _).mpr h)
    rw [htop] at hsteps
    rw [if_neg hmsb]
    refine shifted_of hsteps (fun i => ?_) rfl rfl rfl (bit_zero 7) (by simp) Iff.rfl
    exact (bit_zero i).trans ((Bool.and_false _).symm.trans (down_of_le sz (by omega) i).symm)

/-- A logical shift to the right leaves no sign. -/
theorem sign_shift_right {src shift : UInt32} (h₁ : 1 ≤ shift.toNat) (hshift : shift.toNat < 32)
    (hsrc : ∀ i, sz.bits ≤ i → bit src i = false) : bit (src >>> shift) (sz.bits - 1) = false := by
  rw [bit_shiftRight, Nat.mod_eq_of_lt hshift]
  exact hsrc _ (by omega)

theorem shifted_lsrS : Shifted sz (steps sz.bits .lsr s.countS.toNat (shifter .lsr sz s)) s
    (lsrS sz s) := by
  obtain ⟨h₁, h₈⟩ := countS_bounds s
  have hnarrow := shifter_narrow .lsr sz s
  have hcarry := @bit_carry_s (low sz (s.dar s.dy)) s.countS h₁ (by omega)
  have hne : s.countS.toNat ≠ 0 := by omega
  have hsteps := steps_lsr (bits_pos sz) hnarrow s.countS.toNat
  simp only [if_neg hne] at hsteps
  exact shifted_of hsteps (bit_shift_right (by omega) hnarrow) rfl hcarry hcarry (bit_zero 7)
    ((bit_zero 7).trans (sign_shift_right sz h₁ (by omega) hnarrow).symm) Iff.rfl

theorem lsWithin_le {shift : UInt32} (h : lsWithin sz shift = true) :
    shift.toNat ≤ sz.bits ∧ shift.toNat < 32 := by
  cases sz with
  | byte =>
    have hle : shift.toNat ≤ 8 := UInt32.le_iff_toNat_le.mp (of_decide_eq_true h)
    exact ⟨hle, by omega⟩
  | word =>
    have hle : shift.toNat ≤ 16 := UInt32.le_iff_toNat_le.mp (of_decide_eq_true h)
    exact ⟨hle, by omega⟩
  | long =>
    have hlt : shift.toNat < 32 := UInt32.lt_iff_toNat_lt.mp (of_decide_eq_true h)
    exact ⟨hlt.le, hlt⟩

/-- Past these counts nothing is left of the operand; only of a long one can it be that its
    last bit is still the carry. -/
theorem lsWithin_gt {shift : UInt32} (h : ¬lsWithin sz shift = true) :
    sz.bits ≤ shift.toNat ∧ (sz = .long ∨ sz.bits < shift.toNat) := by
  cases sz with
  | byte =>
    have hgt : ¬shift.toNat ≤ 8 := fun hle => h (decide_eq_true (UInt32.le_iff_toNat_le.mpr hle))
    exact ⟨show 8 ≤ _ by omega, .inr (show 8 < _ by omega)⟩
  | word =>
    have hgt : ¬shift.toNat ≤ 16 := fun hle => h (decide_eq_true (UInt32.le_iff_toNat_le.mpr hle))
    exact ⟨show 16 ≤ _ by omega, .inr (show 16 < _ by omega)⟩
  | long =>
    have hge : ¬shift.toNat < 32 := fun hlt => h (decide_eq_true (UInt32.lt_iff_toNat_lt.mpr hlt))
    exact ⟨show 32 ≤ _ by omega, .inl rfl⟩

theorem bit_carryPast {src shift : UInt32} (h : ¬lsWithin sz shift = true)
    (hsrc : ∀ i, sz.bits ≤ i → bit src i = false) :
    bit (carryPastRight sz src shift) 8 = bit src (shift.toNat - 1) ∧
      bit (carryPastLeft sz src shift) 8 =
        (decide (shift.toNat ≤ sz.bits) && bit src (sz.bits - shift.toNat)) := by
  obtain ⟨hge, hlong⟩ := lsWithin_gt sz h
  by_cases hgt : sz.bits < shift.toNat
  · have hne : sz = .long → shift ≠ 32 := by
      rintro rfl rfl
      exact absurd hgt (by decide)
    rw [hsrc _ (by omega), decide_eq_false (Nat.not_le_of_lt hgt), Bool.false_and]
    cases sz <;> simp [carryPastRight, carryPastLeft, hne]
  · obtain rfl : sz = .long := hlong.resolve_right hgt
    have hshift : shift = 32 := UInt32.toNat_inj.mp (Nat.le_antisymm (Nat.le_of_not_lt hgt) hge)
    subst hshift
    simp [carryPastRight, carryPastLeft, getMsb, Size.bits]

theorem shifted_lsrR : Shifted sz (steps sz.bits .lsr s.countR.toNat (shifter .lsr sz s)) s
    (lsrR sz s) := by
  have hnarrow := shifter_narrow .lsr sz s
  have hsteps := steps_lsr (bits_pos sz) hnarrow s.countR.toNat
  unfold lsrR
  dsimp only
  by_cases hzero : s.countR = 0
  · rw [if_neg (not_not_intro hzero), hzero]
    exact shifted_zero sz s (by decide)
  have hcount := countR_pos hzero
  have hne : s.countR.toNat ≠ 0 := by omega
  simp only [if_neg hne] at hsteps
  rw [if_pos hzero]
  by_cases hwithin : lsWithin sz s.countR = true
  · obtain ⟨hle, hlt⟩ := lsWithin_le sz hwithin
    have hcarry := @bit_carryRight sz (low sz (s.dar s.dy)) s.countR hcount hle
    rw [if_pos hwithin]
    exact shifted_of hsteps (bit_shift_right hlt hnarrow) rfl hcarry hcarry (bit_zero 7)
      ((bit_zero 7).trans (sign_shift_right sz hcount hlt hnarrow).symm) Iff.rfl
  obtain ⟨hge, -⟩ := lsWithin_gt sz hwithin
  obtain ⟨hcarry, -⟩ := bit_carryPast sz hwithin hnarrow
  rw [if_neg hwithin]
  refine shifted_of hsteps (fun i => ?_) rfl hcarry hcarry (bit_zero 7) (by simp) Iff.rfl
  exact (bit_zero i).trans ((Bool.and_false _).symm.trans (down_of_le sz hge i).symm)

/-- A flag that the code makes of a condition. -/
theorem bit_vflag (b : Bool) : bit (b.toUInt32 <<< 7) 7 = b := by
  simp

/-- Nothing is left of the operand. -/
theorem up_of_le {n : Nat} {bits : Nat → Bool} (hn : sz.bits ≤ n) (i : Nat) :
    up sz.bits n bits i = false := by
  by_cases hi : i < sz.bits
  · have hgt : ¬n ≤ i := by omega
    simp [up, hgt]
  · simp [up, hi]

theorem shifted_aslS : Shifted sz (steps sz.bits .asl s.countS.toNat (shifter .asl sz s)) s
    (aslS sz s) := by
  obtain ⟨h₁, h₈⟩ := countS_bounds s
  have hle := countS_le_bits sz s
  have hnarrow := shifter_narrow .asl sz s
  have hcarry := @bit_carryLeftS sz (low sz (s.dar s.dy)) s.countS h₁ h₈
  have hne : s.countS.toNat ≠ 0 := by omega
  have hsteps := steps_asl (bits_pos sz) hnarrow s.countS.toNat
  simp only [if_neg hne, hle, decide_true, Bool.true_and] at hsteps
  unfold aslS
  dsimp only
  refine shifted_of hsteps (bit_shift_left (by omega)) rfl hcarry hcarry ((bit_vflag _).trans ?_)
    (nflag_bit sz _) Iff.rfl
  by_cases hlt : s.countS.toNat < sz.bits
  · refine Eq.trans ?_ (signChanges_of_lt hlt)
    cases sz with
    | byte =>
      have hless : s.countS < 8 := UInt32.lt_iff_toNat_lt.mpr hlt
      simp [hless]
    | word => rfl
    | long => rfl
  · -- a byte that is shifted out
    have hge := Nat.le_of_not_lt hlt
    refine Eq.trans ?_ (signChanges_of_le hge hnarrow)
    obtain rfl : sz = .byte := by
      cases sz with
      | byte => rfl
      | word => exact absurd h₈ (Nat.not_le_of_lt (lt_of_lt_of_le (by decide) hge))
      | long => exact absurd h₈ (Nat.not_le_of_lt (lt_of_lt_of_le (by decide) hge))
    have height : s.countS = 8 := UInt32.toNat_inj.mp (Nat.le_antisymm h₈ hge)
    have hall : low .byte (s.dar s.dy) &&& signs .byte 9 = low .byte (s.dar s.dy) := by
      change (s.dar s.dy &&& 0xff) &&& 0xff = s.dar s.dy &&& 0xff
      rw [UInt32.and_assoc, UInt32.and_self]
    simp [height, hall]

theorem shifted_aslR : Shifted sz (steps sz.bits .asl s.countR.toNat (shifter .asl sz s)) s
    (aslR sz s) := by
  have hbits := bits_le sz
  have hnarrow := shifter_narrow .asl sz s
  have hsteps := steps_asl (bits_pos sz) hnarrow s.countR.toNat
  unfold aslR
  dsimp only
  by_cases hzero : s.countR = 0
  · rw [if_neg (not_not_intro hzero), hzero]
    exact shifted_zero sz s (by decide)
  have hcount := countR_pos hzero
  have hne : s.countR.toNat ≠ 0 := by omega
  simp only [if_neg hne] at hsteps
  rw [if_pos hzero]
  by_cases hwithin : s.countR.toNat < sz.bits
  · have hcarry := @bit_carryLeftR sz (low sz (s.dar s.dy)) s.countR hcount hwithin.le (by omega)
    simp only [hwithin.le, decide_true, Bool.true_and] at hsteps
    rw [if_pos hwithin]
    exact shifted_of hsteps (bit_shift_left (by omega)) rfl hcarry hcarry
      ((bit_vflag _).trans (signChanges_of_lt hwithin)) (nflag_bit sz _) Iff.rfl
  have hge := Nat.le_of_not_lt hwithin
  have hcarry : bit ((if s.countR.toNat = sz.bits then low sz (s.dar s.dy) &&& 1 else 0) <<<
      (8 : UInt32)) 8 =
      (decide (s.countR.toNat ≤ sz.bits) && bit (low sz (s.dar s.dy)) (sz.bits - s.countR.toNat)) := by
    by_cases heq : s.countR.toNat = sz.bits
    · simp [heq]
    · have hgt : ¬s.countR.toNat ≤ sz.bits := by omega
      simp [heq, hgt]
  rw [if_neg hwithin]
  refine shifted_of hsteps (fun i => ?_) rfl hcarry hcarry
    ((bit_vflag _).trans (signChanges_of_le hge hnarrow)) (by simp) Iff.rfl
  exact (bit_zero i).trans (up_of_le sz hge i).symm

theorem shifted_lslS : Shifted sz (steps sz.bits .lsl s.countS.toNat (shifter .lsl sz s)) s
    (lslS sz s) := by
  obtain ⟨h₁, h₈⟩ := countS_bounds s
  have hle := countS_le_bits sz s
  have hnarrow := shifter_narrow .lsl sz s
  have hcarry := @bit_carryLeftS sz (low sz (s.dar s.dy)) s.countS h₁ h₈
  have hne : s.countS.toNat ≠ 0 := by omega
  have hsteps := steps_lsl (bits_pos sz) hnarrow s.countS.toNat
  simp only [if_neg hne, hle, decide_true, Bool.true_and] at hsteps
  exact shifted_of hsteps (bit_shift_left (by omega)) rfl hcarry hcarry (bit_zero 7)
    (nflag_bit sz _) Iff.rfl

theorem shifted_lslR : Shifted sz (steps sz.bits .lsl s.countR.toNat (shifter .lsl sz s)) s
    (lslR sz s) := by
  have hnarrow := shifter_narrow .lsl sz s
  have hsteps := steps_lsl (bits_pos sz) hnarrow s.countR.toNat
  unfold lslR
  dsimp only
  by_cases hzero : s.countR = 0
  · rw [if_neg (not_not_intro hzero), hzero]
    exact shifted_zero sz s (by decide)
  have hcount := countR_pos hzero
  have hne : s.countR.toNat ≠ 0 := by omega
  simp only [if_neg hne] at hsteps
  rw [if_pos hzero]
  by_cases hwithin : lsWithin sz s.countR = true
  · obtain ⟨hle, hlt⟩ := lsWithin_le sz hwithin
    have hcarry := @bit_carryLeftR sz (low sz (s.dar s.dy)) s.countR hcount hle hlt
    simp only [hle, decide_true, Bool.true_and] at hsteps
    rw [if_pos hwithin]
    exact shifted_of hsteps (bit_shift_left hlt) rfl hcarry hcarry (bit_zero 7) (nflag_bit sz _)
      Iff.rfl
  obtain ⟨hge, -⟩ := lsWithin_gt sz hwithin
  obtain ⟨-, hcarry⟩ := bit_carryPast sz hwithin hnarrow
  rw [if_neg hwithin]
  refine shifted_of hsteps (fun i => ?_) rfl hcarry hcarry (bit_zero 7) (by simp) Iff.rfl
  exact (bit_zero i).trans (up_of_le sz hge i).symm

end Handlers

end ParaTos.Cpu
