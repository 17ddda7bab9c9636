/-
  ParaTos/OpcodeTable.lean
  ========================
  **Which handler executes an opcode** (`mushashi/m68kmake.c`; `m68ki_build_opcode_table`
  of `mushashi/m68k_in.c`).

  The generator turns each row of the instruction table into one row for each
  addressing mode and condition, and sorts the rows by the number of opcode bits they
  fix.  At start-up the rows are written over one another into the jump table, with a
  loop of its own for each mask, so the builder relies on the order of the rows.

  Clock cycles, and the text of the handlers, are left out.
-/
import ParaTos.Overlay
import ParaTos.Run
import ParaTos.WordBits
import Mathlib.Data.List.Sort
import Mathlib.Tactic.IntervalCases

namespace ParaTos.OpcodeTable

open Overlay WordBits

/-! ### The generator -/

structure OpcodeStruct where
  name : String
  size : UInt8
  specProc : String
  specEa : String
  bits : UInt8
  opMask : UInt16
  opMatch : UInt16
  eaAllowed : String
deriving DecidableEq

/-- `ea_mode`. -/
inductive EaMode where
  | none | ai | pi | pi7 | pd | pd7 | di | ix | aw | al | pcdi | pcix | i
deriving DecidableEq, Repr

/-- `fname_add`, `mask_add` and `match_add` of `g_ea_info_table`. -/
def EaMode.info : EaMode → String × UInt16 × UInt16
  | .none => ("", 0x00, 0x00)
  | .ai => ("ai", 0x38, 0x10)
  | .pi => ("pi", 0x38, 0x18)
  | .pi7 => ("pi7", 0x3f, 0x1f)
  | .pd => ("pd", 0x38, 0x20)
  | .pd7 => ("pd7", 0x3f, 0x27)
  | .di => ("di", 0x38, 0x28)
  | .ix => ("ix", 0x38, 0x30)
  | .aw => ("aw", 0x3f, 0x38)
  | .al => ("al", 0x3f, 0x39)
  | .pcdi => ("pcdi", 0x3f, 0x3a)
  | .pcix => ("pcix", 0x3f, 0x3b)
  | .i => ("i", 0x3f, 0x3c)

def EaMode.fnameAdd (mode : EaMode) : String := mode.info.1
def EaMode.maskAdd (mode : EaMode) : UInt16 := mode.info.2.1
def EaMode.matchAdd (mode : EaMode) : UInt16 := mode.info.2.2

/-- The names of `g_cc_table`. -/
def ccTable : List String :=
  ["t", "f", "hi", "ls", "cc", "cs", "ne", "eq", "vc", "vs", "pl", "mi", "ge", "lt", "gt", "le"]

def numBits (value : UInt32) : UInt32 :=
  let value := ((value &&& 0xaaaa) >>> 1) + (value &&& 0x5555)
  let value := ((value &&& 0xcccc) >>> 2) + (value &&& 0x3333)
  let value := ((value &&& 0xf0f0) >>> 4) + (value &&& 0x0f0f)
  ((value &&& 0xff00) >>> 8) + (value &&& 0x00ff)

/-- The bits of a 16-character pattern that pass a test, as `populate_table` collects them. -/
def patternBits (test : Char → Bool) (pattern : List Char) : UInt16 :=
  (List.range 16).foldl (fun bits i =>
    bits ||| ((if test (pattern.getD i '\x00') then (1 : UInt16) else 0) <<< UInt16.ofNat (15 - i))) 0

/-- A line of the instruction table. -/
structure TableLine where
  name : String
  size : UInt8
  specProc : String
  specEa : String
  bitpattern : String
  eaAllowed : String

def TableLine.row (line : TableLine) : OpcodeStruct where
  name := line.name
  size := line.size
  specProc := line.specProc
  specEa := line.specEa
  bits := 0
  opMask := patternBits (· != '.') line.bitpattern.toList
  opMatch := patternBits (· == '1') line.bitpattern.toList
  eaAllowed := line.eaAllowed

def populateTable (lines : List TableLine) : List OpcodeStruct := lines.map TableLine.row

/-- `UNSPECIFIED`. -/
def unspecified : String := "."

def getBaseName (op : OpcodeStruct) : String :=
  "m68k_op_" ++ op.name ++
    (if 0 < op.size then "_" ++ toString op.size else "") ++
    (if op.specProc ≠ unspecified then "_" ++ op.specProc else "") ++
    (if op.specEa ≠ unspecified then "_" ++ op.specEa else "")

def setOpcodeStruct (src : OpcodeStruct) (mode : EaMode) : OpcodeStruct :=
  { src with
    specEa := if src.specEa = unspecified ∧ mode ≠ .none then mode.fnameAdd else src.specEa
    opMask := src.opMask ||| mode.maskAdd
    opMatch := src.opMatch ||| mode.matchAdd }

/-- The row that `generate_opcode_handler` adds to the output table. -/
def generateOpcodeHandler (opinfo : OpcodeStruct) (mode : EaMode) : OpcodeStruct :=
  let op := setOpcodeStruct opinfo mode
  { op with name := getBaseName op, bits := (numBits op.opMask.toUInt32).toUInt8 }

/-- Whether character `i` of `ea_allowed` is `c`. -/
def allows (op : OpcodeStruct) (i : Nat) (c : Char) : Bool := op.eaAllowed.toList[i]? == some c

/-- The addressing modes for which `generate_opcode_ea_variants` makes a handler. -/
def eaModes (op : OpcodeStruct) : List EaMode :=
  if op.eaAllowed = ".........." then [.none]
  else
    (if allows op 0 'A' then [.ai] else []) ++
    (if allows op 1 '+' then .pi :: (if op.size = 8 then [.pi7] else []) else []) ++
    (if allows op 2 '-' then .pd :: (if op.size = 8 then [.pd7] else []) else []) ++
    (if allows op 3 'D' then [.di] else []) ++
    (if allows op 4 'X' then [.ix] else []) ++
    (if allows op 5 'W' then [.aw] else []) ++
    (if allows op 6 'L' then [.al] else []) ++
    (if allows op 7 'd' then [.pcdi] else []) ++
    (if allows op 8 'x' then [.pcix] else []) ++
    (if allows op 9 'I' then [.i] else [])

def generateOpcodeEaVariants (op : OpcodeStruct) : List OpcodeStruct :=
  (eaModes op).map (generateOpcodeHandler op)

/-- One round of the loop over the conditions. -/
def setCondition (op : OpcodeStruct) (offset i : Nat) : OpcodeStruct :=
  { op with
    name := String.ofList (op.name.toList.take offset) ++ ccTable.getD i ""
    opMatch := (op.opMatch &&& 0xf0ff) ||| (UInt16.ofNat i <<< (8 : UInt16)) }

def ccVariants (offset : Nat) : List Nat → OpcodeStruct → List OpcodeStruct
  | [], _ => []
  | i :: rest, op =>
    generateOpcodeEaVariants (setCondition op offset i) ++
      ccVariants offset rest (setCondition op offset i)

/-- All conditions except `t` and `f`. -/
def generateOpcodeCcVariants (opIn : OpcodeStruct) (offset : Nat) : List OpcodeStruct :=
  ccVariants offset (List.range' 2 14) { opIn with opMask := opIn.opMask ||| 0x0f00 }

def generateOpcodeVariants (op : OpcodeStruct) : List OpcodeStruct :=
  if op.name = "bcc" ∨ op.name = "scc" then generateOpcodeCcVariants op 1
  else if op.name = "dbcc" then generateOpcodeCcVariants op 2
  else if op.name = "trapcc" then generateOpcodeCcVariants op 4
  else generateOpcodeEaVariants op

/-- What `M68KMAKE_OP` names: a row of the instruction table. -/
structure OpName where
  name : String
  size : UInt8
  specProc : String
  specEa : String

def findOpcode (table : List OpcodeStruct) (op : OpName) : Option OpcodeStruct :=
  table.find? fun row =>
    decide (op.name = row.name ∧ op.size = row.size ∧ op.specProc = row.specProc ∧
      op.specEa = row.specEa)

/-- The output table for the handlers of the input file, when each has a row. -/
def processOpcodeHandlers (table : List OpcodeStruct) : List OpName → Option (List OpcodeStruct)
  | [] => some []
  | op :: rest => do
    let opinfo ← findOpcode table op
    let others ← processOpcodeHandlers table rest
    return generateOpcodeVariants opinfo ++ others

def compareNofTrueBits (a b : OpcodeStruct) : Int :=
  if a.bits ≠ b.bits then (a.bits.toNat : Int) - b.bits.toNat
  else if a.opMask ≠ b.opMask then (a.opMask.toNat : Int) - b.opMask.toNat
  else (a.opMatch.toNat : Int) - b.opMatch.toNat

/-! ### The builder -/

/-- `opcode_handler_struct`; the last row of the table has no handler. -/
structure OpcodeHandlerStruct where
  opcodeHandler : Option String
  mask : UInt32
  «match» : UInt32

def writeTableEntry (op : OpcodeStruct) : OpcodeHandlerStruct :=
  ⟨some op.name, op.opMask.toUInt32, op.opMatch.toUInt32⟩

/-- `m68k_opcode_handler_table`. -/
def opcodeHandlerTable (rows : List OpcodeStruct) : List OpcodeHandlerStruct :=
  rows.map writeTableEntry ++ [⟨none, 0, 0⟩]

/-- `m68ki_instruction_jump_table`. -/
abbrev JumpTable := UInt32 → Option String

/-- The numbers from 0 to `n - 1`, as a C loop counts them. -/
def upTo (n : Nat) : List UInt32 := (List.range n).map UInt32.ofNat

/-- `while(condition on the mask)`: writes a row's handler for its opcodes, and goes on to
    the next row. -/
def whileMask (p : UInt32 → Bool) (instrs : UInt32 → UInt32 → List UInt32) :
    List OpcodeHandlerStruct → JumpTable → Run (List OpcodeHandlerStruct × JumpTable)
  | [], _ => throw .badPointer
  | ostruct :: rest, table =>
    if p ostruct.mask then
      whileMask p instrs rest
        (setAll (instrs ostruct.mask ostruct.match) ostruct.opcodeHandler table)
    else return (ostruct :: rest, table)

/-- The opcodes that each loop visits for a row. -/
def instrsAny (mask m : UInt32) : List UInt32 := (upTo 0x10000).filter fun i => i &&& mask == m
def instrsFf00 (_ m : UInt32) : List UInt32 := (upTo 0x100).map fun i => m ||| i
def instrsF1f8 (_ m : UInt32) : List UInt32 :=
  (upTo 8).flatMap fun i => (upTo 8).map fun j => m ||| (i <<< (9 : UInt32)) ||| j
def instrsFff0 (_ m : UInt32) : List UInt32 := (upTo 0x10).map fun i => m ||| i
def instrsF1ff (_ m : UInt32) : List UInt32 := (upTo 8).map fun i => m ||| (i <<< (9 : UInt32))
def instrsFff8 (_ m : UInt32) : List UInt32 := (upTo 8).map fun i => m ||| i
def instrsFfff (_ m : UInt32) : List UInt32 := [m]

def buildOpcodeTable (ostruct : List OpcodeHandlerStruct) : Run JumpTable := do
  let table : JumpTable := fun _ => some "m68k_op_illegal"
  let (ostruct, table) ← whileMask (· != 0xff00) instrsAny ostruct table
  let (ostruct, table) ← whileMask (· == 0xff00) instrsFf00 ostruct table
  let (ostruct, table) ← whileMask (· == 0xf1f8) instrsF1f8 ostruct table
  let (ostruct, table) ← whileMask (· == 0xfff0) instrsFff0 ostruct table
  let (ostruct, table) ← whileMask (· == 0xf1ff) instrsF1ff ostruct table
  let (ostruct, table) ← whileMask (· == 0xfff8) instrsFff8 ostruct table
  let (_, table) ← whileMask (· == 0xffff) instrsFfff ostruct table
  return table

/-! ### The opcodes of a row -/

/-- The opcode has the bits that the row fixes. -/
def Fits (op : OpcodeStruct) (i : UInt32) : Prop :=
  i.toNat < 0x10000 ∧ i &&& op.opMask.toUInt32 = op.opMatch.toUInt32

instance (op : OpcodeStruct) (i : UInt32) : Decidable (Fits op i) :=
  inferInstanceAs (Decidable (i.toNat < 0x10000 ∧ i &&& op.opMask.toUInt32 = op.opMatch.toUInt32))

theorem mem_upTo {n : Nat} (hn : n ≤ 0x10000) {i : UInt32} : i ∈ upTo n ↔ i.toNat < n := by
  simp only [upTo, List.mem_map, List.mem_range]
  constructor
  · rintro ⟨k, hk, rfl⟩
    rwa [UInt32.toNat_ofNat_of_lt' (by have hsize : UInt32.size = 2 ^ 32 := rfl; omega)]
  · intro hi
    exact ⟨i.toNat, hi, UInt32.ofNat_toNat⟩

/-- The opcodes of a row are its fixed bits with each choice of the others. -/
theorem mem_map_or {mask m : UInt32} {free : List UInt32} (hm : m.toNat < 2 ^ 16)
    (hsub : m &&& mask = m)
    (hfree : ∀ f, f ∈ free ↔ f.toNat < 2 ^ 16 ∧ f &&& mask = 0) {k : UInt32} :
    k ∈ free.map (fun f => m ||| f) ↔ k.toNat < 2 ^ 16 ∧ k &&& mask = m := by
  have hbit : ∀ i, (bit m i && bit mask i) = bit m i := fun i => by rw [← bit_and, hsub]
  simp only [List.mem_map]
  constructor
  · rintro ⟨f, hf, rfl⟩
    obtain ⟨hlt, hand⟩ := (hfree f).mp hf
    have hfbit : ∀ i, (bit f i && bit mask i) = false := fun i => by
      rw [← bit_and, hand, bit_zero]
    refine ⟨lt_two_pow_iff.mpr fun i hi hge => ?_, ext_bits fun i hi => ?_⟩
    · simp [lt_two_pow_iff.mp hm i hi hge, lt_two_pow_iff.mp hlt i hi hge]
    · simp only [bit_and, bit_or, Bool.and_or_distrib_right, hbit, hfbit, Bool.or_false]
  · rintro ⟨hlt, hand⟩
    refine ⟨k &&& ~~~mask, (hfree _).mpr ⟨lt_two_pow_iff.mpr fun i hi hge => ?_, ?_⟩, ?_⟩
    · simp [lt_two_pow_iff.mp hlt i hi hge]
    · apply ext_bits
      intro i hi
      simp [hi]
    · apply ext_bits
      intro i hi
      rw [← hand]
      simp [hi]
      grind

/-- The masks that leave the low `n` bits free. -/
theorem mem_upTo_iff_free {mask : UInt32} {n : Nat} (hn : n ≤ 16)
    (hmask : ∀ i < 32, bit mask i = decide (n ≤ i ∧ i < 16)) (f : UInt32) :
    f ∈ upTo (2 ^ n) ↔ f.toNat < 2 ^ 16 ∧ f &&& mask = 0 := by
  rw [mem_upTo (Nat.pow_le_pow_right (by decide) hn), lt_two_pow_iff, lt_two_pow_iff,
    and_eq_zero_iff]
  constructor
  · intro h
    refine ⟨fun i hi hge => h i hi (by omega), fun i hi hbit => h i hi ?_⟩
    rw [hmask i hi, decide_eq_true_eq] at hbit
    exact hbit.1
  · rintro ⟨hhigh, hlow⟩ i hi hge
    by_cases hlt : i < 16
    · exact hlow i hi (by simp [hmask i hi, hge, hlt])
    · exact hhigh i hi (by omega)

/-- The free bits of the second register. -/
theorem mem_registers_iff_free (f : UInt32) :
    f ∈ (upTo 8).map (fun i => i <<< (9 : UInt32)) ↔ f.toNat < 2 ^ 16 ∧ f &&& 0xf1ff = 0 := by
  have hmem : ∀ r, r ∈ upTo 8 ↔ ∀ i < 32, 3 ≤ i → bit r i = false := fun r => by
    rw [mem_upTo (by decide)]
    exact @lt_two_pow_iff r 3
  simp only [List.mem_map, hmem, lt_two_pow_iff, and_eq_zero_iff]
  constructor
  · rintro ⟨r, hr, rfl⟩
    constructor
    · intro i hi hge
      have hbit : bit r (i - 9) = false := hr _ (by omega) (by omega)
      simp [hbit]
    · intro i hi
      have hbits : ∀ k < 32, 3 ≤ k → bit r k = false := hr
      interval_cases i <;> simp [hbits]
  · rintro ⟨hhigh, hlow⟩
    have hbit : ∀ i < 32, i < 9 ∨ 12 ≤ i → bit f i = false := by
      intro i hi hout
      by_cases hge : 16 ≤ i
      · exact hhigh i hi hge
      · apply hlow i hi
        interval_cases i <;> simp at hout ⊢
    refine ⟨f >>> 9, fun i hi hge => ?_, ext_bits fun i hi => ?_⟩
    · by_cases hlt : 9 + i < 32
      · simpa using hbit (9 + i) hlt (by omega)
      · simpa using bit_of_ge f (i := 9 + i) (by omega)
    · by_cases hge : 9 ≤ i
      · have hsum : 9 + (i - 9) = i := by omega
        simp [hi, hge, hsum]
      · simp [hge, hbit i hi (by omega)]

/-- The free bits of two masks. -/
theorem mem_flatMap_iff_free {mask₁ mask₂ : UInt32} {free₁ free₂ : List UInt32}
    (h₁ : ∀ f, f ∈ free₁ ↔ f.toNat < 2 ^ 16 ∧ f &&& mask₁ = 0)
    (h₂ : ∀ f, f ∈ free₂ ↔ f.toNat < 2 ^ 16 ∧ f &&& mask₂ = 0) (f : UInt32) :
    (f ∈ free₁.flatMap fun f₁ => free₂.map fun f₂ => f₁ ||| f₂) ↔
      f.toNat < 2 ^ 16 ∧ f &&& (mask₁ &&& mask₂) = 0 := by
  simp only [List.mem_flatMap, List.mem_map, h₁, h₂, lt_two_pow_iff, and_eq_zero_iff, bit_and,
    Bool.and_eq_true]
  constructor
  · rintro ⟨f₁, ⟨hlt₁, hand₁⟩, f₂, ⟨hlt₂, hand₂⟩, rfl⟩
    refine ⟨fun i hi hge => ?_, fun i hi hmask => ?_⟩
    · simp [hlt₁ i hi hge, hlt₂ i hi hge]
    · simp [hand₁ i hi hmask.1, hand₂ i hi hmask.2]
  · rintro ⟨hlt, hand⟩
    refine ⟨f &&& ~~~mask₁, ⟨fun i hi hge => ?_, fun i hi hmask => ?_⟩, f &&& mask₁,
      ⟨fun i hi hge => ?_, fun i hi hmask => ?_⟩, ext_bits fun i hi => ?_⟩
    · simp [hlt i hi hge]
    · simp [hi, hmask]
    · simp [hlt i hi hge]
    · cases hbit : bit mask₁ i with
      | false => simp [hbit]
      | true => simp [hand i hi ⟨hbit, hmask⟩]
    · simp only [bit_or, bit_and, bit_not_of_lt mask₁ hi]
      cases bit f i <;> cases bit mask₁ i <;> rfl

/-- A loop visits the opcodes that fit, for rows with a mask. -/
def Visits (instrs : UInt32 → UInt32 → List UInt32) (mask : UInt32) : Prop :=
  ∀ m k, m.toNat < 2 ^ 16 → m &&& mask = m →
    (k ∈ instrs mask m ↔ k.toNat < 2 ^ 16 ∧ k &&& mask = m)

theorem visits_any (mask : UInt32) : Visits instrsAny mask := by
  intro m k _ _
  rw [instrsAny, List.mem_filter, mem_upTo (by decide), beq_iff_eq]
  rfl

theorem visits_of_free {instrs : UInt32 → UInt32 → List UInt32} {mask : UInt32}
    {free : List UInt32} (hfree : ∀ f, f ∈ free ↔ f.toNat < 2 ^ 16 ∧ f &&& mask = 0)
    (hinstrs : ∀ m, instrs mask m = free.map (fun f => m ||| f)) : Visits instrs mask := by
  intro m k hm hsub
  rw [hinstrs, mem_map_or hm hsub hfree]

theorem visits_low {instrs : UInt32 → UInt32 → List UInt32} {mask : UInt32} {n : Nat}
    (hn : n ≤ 16) (hmask : ∀ i < 32, bit mask i = decide (n ≤ i ∧ i < 16))
    (hinstrs : ∀ m, instrs mask m = (upTo (2 ^ n)).map (fun f => m ||| f)) : Visits instrs mask :=
  visits_of_free (mem_upTo_iff_free hn hmask) hinstrs

theorem visits_ff00 : Visits instrsFf00 0xff00 :=
  visits_low (n := 8) (by decide) (by decide) fun _ => rfl

theorem visits_fff0 : Visits instrsFff0 0xfff0 :=
  visits_low (n := 4) (by decide) (by decide) fun _ => rfl

theorem visits_fff8 : Visits instrsFff8 0xfff8 :=
  visits_low (n := 3) (by decide) (by decide) fun _ => rfl

theorem visits_ffff : Visits instrsFfff 0xffff :=
  visits_low (n := 0) (by decide) (by decide) fun m => by
    have hzero : m ||| 0 = m := by simp
    exact congrArg (fun x => [x]) hzero.symm

theorem visits_f1ff : Visits instrsF1ff 0xf1ff :=
  visits_of_free mem_registers_iff_free fun m => by simp [instrsF1ff, Function.comp_def]

theorem visits_f1f8 : Visits instrsF1f8 0xf1f8 := by
  have hlow : ∀ f, f ∈ upTo (2 ^ 3) ↔ f.toNat < 2 ^ 16 ∧ f &&& 0xfff8 = 0 :=
    mem_upTo_iff_free (by decide) (by decide)
  refine visits_of_free (mem_flatMap_iff_free mem_registers_iff_free hlow) fun m => ?_
  simp [instrsF1f8, List.map_flatMap, List.flatMap_map, Function.comp_def, UInt32.or_assoc]

/-! ### The order of the rows -/

/-- The masks in the order in which sorted rows have them. -/
def masks : List UInt16 :=
  [0xf000, 0xf100, 0xf180, 0xf1c0, 0xff00, 0xf1f8, 0xfff0, 0xf1ff, 0xfff8, 0xffff]

theorem forall_masks {p : UInt16 → Prop} [DecidablePred p]
    (h : (masks.all fun m => decide (p m)) = true) : ∀ m ∈ masks, p m := by
  simpa only [List.all_eq_true, decide_eq_true_eq] using h

def rank (op : OpcodeStruct) : Nat := masks.idxOf op.opMask

/-- A row as the generator makes them, with a mask the builder has a loop for. -/
structure WellFormed (op : OpcodeStruct) : Prop where
  mask : op.opMask ∈ masks
  sub : op.opMatch ||| op.opMask = op.opMask
  bits : op.bits = (numBits op.opMask.toUInt32).toUInt8

theorem rank_le {a b : OpcodeStruct} (ha : WellFormed a) (hb : WellFormed b)
    (h : compareNofTrueBits a b ≤ 0) : rank a ≤ rank b := by
  have hbits : a.bits ≤ b.bits ∧ (a.bits = b.bits → a.opMask ≤ b.opMask) := by
    unfold compareNofTrueBits at h
    simp only [UInt8.le_iff_toNat_le, UInt16.le_iff_toNat_le, ← UInt8.toNat_inj,
      ← UInt16.toNat_inj, ne_eq] at h ⊢
    split_ifs at h <;> omega
  rw [ha.bits, hb.bits] at hbits
  have hmasks : (masks.all fun m => masks.all fun m' => decide
      ((numBits m.toUInt32).toUInt8 ≤ (numBits m'.toUInt32).toUInt8 ∧
        ((numBits m.toUInt32).toUInt8 = (numBits m'.toUInt32).toUInt8 → m ≤ m') →
      masks.idxOf m ≤ masks.idxOf m')) = true := by decide +kernel
  simp only [List.all_eq_true, decide_eq_true_eq] at hmasks
  exact hmasks _ ha.mask _ hb.mask hbits

/-- `qsort` with `compare_nof_true_bits`. -/
structure Qsorted (rows sorted : List OpcodeStruct) : Prop where
  perm : sorted.Perm rows
  pairwise : sorted.Pairwise fun a b => compareNofTrueBits a b ≤ 0

theorem compareNofTrueBits_trans {a b c : OpcodeStruct} (hab : compareNofTrueBits a b ≤ 0)
    (hbc : compareNofTrueBits b c ≤ 0) : compareNofTrueBits a c ≤ 0 := by
  unfold compareNofTrueBits at *
  simp only [← UInt8.toNat_inj, ← UInt16.toNat_inj, ne_eq] at *
  split_ifs at * <;> omega

theorem compareNofTrueBits_total (a b : OpcodeStruct) :
    compareNofTrueBits a b ≤ 0 ∨ compareNofTrueBits b a ≤ 0 := by
  unfold compareNofTrueBits
  simp only [← UInt8.toNat_inj, ← UInt16.toNat_inj, ne_eq]
  split_ifs <;> omega

/-- There is such an order of any rows. -/
theorem qsorted_mergeSort (rows : List OpcodeStruct) :
    Qsorted rows (rows.mergeSort fun a b => decide (compareNofTrueBits a b ≤ 0)) := by
  refine ⟨List.mergeSort_perm _ _, ?_⟩
  have hpairwise : (rows.mergeSort fun a b => decide (compareNofTrueBits a b ≤ 0)).Pairwise
      fun a b => decide (compareNofTrueBits a b ≤ 0) = true :=
    List.pairwise_mergeSort (fun a b c hab hbc => by
      simp only [decide_eq_true_eq] at *
      exact compareNofTrueBits_trans hab hbc)
    (fun a b => by simpa using compareNofTrueBits_total a b) rows
  simpa using hpairwise

/-! ### Runs of the builder -/

/-- What the rows leave in the table, one written over the other. -/
abbrev written (rows : List OpcodeStruct) (table : JumpTable) : JumpTable :=
  overlay Fits (fun op => some op.name) rows table

theorem setAll_instrs {instrs : UInt32 → UInt32 → List UInt32} {op : OpcodeStruct}
    (hop : WellFormed op) (hvisits : Visits instrs op.opMask.toUInt32) (table : JumpTable) :
    setAll (instrs op.opMask.toUInt32 op.opMatch.toUInt32) (some op.name) table =
      lay Fits (fun op => some op.name) op table := by
  funext k
  rw [setAll_apply, lay]
  refine if_congr (hvisits _ k op.opMatch.toNat_lt ?_) rfl rfl
  have hor : op.opMatch.toUInt32 ||| op.opMask.toUInt32 = op.opMask.toUInt32 := by
    rw [← UInt16.toUInt32_or, hop.sub]
  rw [← hor]
  exact ext_bits fun i _ => by simpa using Or.inl

/-- A loop writes the rows up to the first one that ends it. -/
theorem whileMask_append {p : UInt32 → Bool} {instrs : UInt32 → UInt32 → List UInt32}
    {front : List OpcodeStruct} (hwf : ∀ op ∈ front, WellFormed op)
    (hp : ∀ op ∈ front, p op.opMask.toUInt32 = true)
    (hvisits : ∀ op ∈ front, Visits instrs op.opMask.toUInt32) {stop : OpcodeHandlerStruct}
    (hstop : p stop.mask = false) (rest : List OpcodeHandlerStruct) (table : JumpTable) :
    whileMask p instrs (front.map writeTableEntry ++ stop :: rest) table =
      Except.ok (stop :: rest, written front table) := by
  induction front generalizing table with
  | nil => simp [whileMask, hstop, overlay]
  | cons op front ih =>
    simp only [List.forall_mem_cons] at hwf hp hvisits
    rw [List.map_cons, List.cons_append, whileMask]
    simp only [writeTableEntry, hp.1, if_true]
    rw [setAll_instrs hwf.1 hvisits.1]
    exact ih hwf.2 hp.2 hvisits.2 _

/-- The rows that are left for the loops after rank `n`. -/
structure Left (n : Nat) (rows : List OpcodeStruct) : Prop where
  wellFormed : ∀ op ∈ rows, WellFormed op
  sorted : rows.Pairwise fun a b => rank a ≤ rank b
  above : ∀ op ∈ rows, n ≤ rank op

theorem Left.suffix {n k : Nat} {front back : List OpcodeStruct} (h : Left n (front ++ back))
    (hback : ∀ op ∈ back, k < rank op) : Left (k + 1) back :=
  ⟨fun op hop => h.wellFormed op (List.mem_append_right _ hop),
    (List.pairwise_append.mp h.sorted).2.1, hback⟩

/-- A loop writes the rows up to rank `n`, if it does not stop before and stops there. -/
theorem whileMask_cut {p : UInt32 → Bool} {instrs : UInt32 → UInt32 → List UInt32} {k n : Nat}
    {rows : List OpcodeStruct} (h : Left k rows)
    (hp : ∀ op ∈ rows, rank op ≤ n → p op.opMask.toUInt32 = true)
    (hvisits : ∀ op ∈ rows, rank op ≤ n → Visits instrs op.opMask.toUInt32)
    (hstop : ∀ front op rest, rows = front ++ op :: rest → (∀ o ∈ front, rank o ≤ n) →
      n < rank op → p op.opMask.toUInt32 = false)
    (hend : p 0 = false ∨ ∃ op ∈ rows, n < rank op) (table : JumpTable) :
    ∃ front back, rows = front ++ back ∧ Left (n + 1) back ∧
      whileMask p instrs (opcodeHandlerTable rows) table =
        Except.ok (opcodeHandlerTable back, written front table) := by
  obtain ⟨front, back, rfl, hfront, hback⟩ := exists_cut h.sorted n
  refine ⟨front, back, rfl, h.suffix hback, ?_⟩
  simp only [List.forall_mem_append] at hp hvisits
  have hwf : ∀ op ∈ front, WellFormed op :=
    fun op hop => h.wellFormed op (List.mem_append_left _ hop)
  have hpfront : ∀ op ∈ front, p op.opMask.toUInt32 = true := fun op hop => hp.1 op hop (hfront op hop)
  have hvfront : ∀ op ∈ front, Visits instrs op.opMask.toUInt32 :=
    fun op hop => hvisits.1 op hop (hfront op hop)
  rw [opcodeHandlerTable, opcodeHandlerTable, List.map_append, List.append_assoc]
  cases back with
  | nil =>
    have hzero : p 0 = false := by
      rcases hend with hzero | ⟨op, hop, hrank⟩
      · exact hzero
      · rw [List.append_nil] at hop
        exact absurd (hfront op hop) (Nat.not_le_of_lt hrank)
    exact whileMask_append hwf hpfront hvfront hzero [] table
  | cons op rest =>
    have hop : p (writeTableEntry op).mask = false :=
      hstop front op rest rfl hfront (hback op (by simp))
    exact whileMask_append hwf hpfront hvfront hop _ table

/-- The first loop. -/
theorem while_not_ff00 {rows : List OpcodeStruct} (h : Left 0 rows)
    (hff00 : ∃ op ∈ rows, op.opMask = 0xff00) (table : JumpTable) :
    ∃ front back, rows = front ++ back ∧ Left 4 back ∧
      whileMask (· != 0xff00) instrsAny (opcodeHandlerTable rows) table =
        Except.ok (opcodeHandlerTable back, written front table) := by
  obtain ⟨w, hw, hwmask⟩ := hff00
  have hwrank : rank w = 4 := by rw [rank, hwmask]; decide
  refine whileMask_cut h (n := 3) (fun op hop hrank => ?_) (fun op _ _ => visits_any _)
    (fun front op rest hrows hfront hrank => ?_) (.inr ⟨w, hw, by omega⟩) table
  · have hlow : ∀ m ∈ masks, masks.idxOf m ≤ 3 → (m.toUInt32 != 0xff00) = true :=
      forall_masks (by decide)
    exact hlow _ (h.wellFormed op hop).mask hrank
  · -- the next row is no later than the one that is known
    subst hrows
    have hle : rank op ≤ 4 := by
      rcases List.mem_append.mp hw with hw | hw
      · have hle := hfront w hw
        omega
      · rcases List.mem_cons.mp hw with rfl | hw
        · exact hwrank.le
        · have hsuffix := (List.pairwise_append.mp h.sorted).2.1
          exact hwrank ▸ (List.pairwise_cons.mp hsuffix).1 w hw
    have hmask : ∀ m ∈ masks, masks.idxOf m = 4 → (m.toUInt32 != 0xff00) = false :=
      forall_masks (by decide)
    exact hmask _ (h.wellFormed op (by simp)).mask (Nat.le_antisymm hle hrank)

/-- The loops after it. -/
theorem while_mask {instrs : UInt32 → UInt32 → List UInt32} {n : Nat} {mask : UInt32}
    {rows : List OpcodeStruct} (h : Left n rows) (hvisits : Visits instrs mask) (hzero : mask ≠ 0)
    (hmask : ∀ m ∈ masks, masks.idxOf m = n → m.toUInt32 = mask)
    (hother : ∀ m ∈ masks, n < masks.idxOf m → m.toUInt32 ≠ mask) (table : JumpTable) :
    ∃ front back, rows = front ++ back ∧ Left (n + 1) back ∧
      whileMask (· == mask) instrs (opcodeHandlerTable rows) table =
        Except.ok (opcodeHandlerTable back, written front table) := by
  have heq : ∀ op ∈ rows, rank op ≤ n → op.opMask.toUInt32 = mask := fun op hop hrank =>
    hmask _ (h.wellFormed op hop).mask (Nat.le_antisymm hrank (h.above op hop))
  refine whileMask_cut h (fun op hop hrank => ?_) (fun op hop hrank => ?_)
    (fun front op rest hrows _ hrank => ?_) (.inl ?_) table
  · simp [heq op hop hrank]
  · rwa [heq op hop hrank]
  · have hne := hother _ (h.wellFormed op (by simp [hrows])).mask hrank
    simpa using hne
  · simpa using hzero.symm

/-- The builder writes all rows, in their order. -/
theorem buildOpcodeTable_eq {rows : List OpcodeStruct} (h : Left 0 rows)
    (hff00 : ∃ op ∈ rows, op.opMask = 0xff00) :
    buildOpcodeTable (opcodeHandlerTable rows) =
      Except.ok (written rows fun _ => some "m68k_op_illegal") := by
  obtain ⟨rows₀, rest₀, rfl, h₀, e₀⟩ := while_not_ff00 h hff00 fun _ => some "m68k_op_illegal"
  obtain ⟨rows₁, rest₁, rfl, h₁, e₁⟩ := while_mask h₀ visits_ff00 (by decide)
    (forall_masks (by decide)) (forall_masks (by decide)) (written rows₀ _)
  obtain ⟨rows₂, rest₂, rfl, h₂, e₂⟩ := while_mask h₁ visits_f1f8 (by decide)
    (forall_masks (by decide)) (forall_masks (by decide)) (written rows₁ _)
  obtain ⟨rows₃, rest₃, rfl, h₃, e₃⟩ := while_mask h₂ visits_fff0 (by decide)
    (forall_masks (by decide)) (forall_masks (by decide)) (written rows₂ _)
  obtain ⟨rows₄, rest₄, rfl, h₄, e₄⟩ := while_mask h₃ visits_f1ff (by decide)
    (forall_masks (by decide)) (forall_masks (by decide)) (written rows₃ _)
  obtain ⟨rows₅, rest₅, rfl, h₅, e₅⟩ := while_mask h₄ visits_fff8 (by decide)
    (forall_masks (by decide)) (forall_masks (by decide)) (written rows₄ _)
  obtain ⟨rows₆, rest₆, rfl, h₆, e₆⟩ := while_mask h₅ visits_ffff (by decide)
    (forall_masks (by decide)) (forall_masks (by decide)) (written rows₅ _)
  have hnone : rest₆ = [] := by
    rw [List.eq_nil_iff_forall_not_mem]
    intro op hop
    have hlt : rank op < 10 := List.idxOf_lt_length_of_mem (h₆.wellFormed op hop).mask
    have hge := h₆.above op hop
    omega
  subst hnone
  rw [buildOpcodeTable, e₀, Run.ok_bind]
  dsimp only
  rw [e₁, Run.ok_bind]
  dsimp only
  rw [e₂, Run.ok_bind]
  dsimp only
  rw [e₃, Run.ok_bind]
  dsimp only
  rw [e₄, Run.ok_bind]
  dsimp only
  rw [e₅, Run.ok_bind]
  dsimp only
  rw [e₆]
  simp only [Run.ok_bind, Run.pure_eq_ok, written, overlay_append, List.append_nil]

/-! ### The rows of the generator -/

/-- The row asks for no bit that it does not fix. -/
def Contained (op : OpcodeStruct) : Prop := op.opMatch ||| op.opMask = op.opMask

theorem or_sub {a b c d : UInt16} (hab : a ||| b = b) (hcd : c ||| d = d) :
    (a ||| c) ||| (b ||| d) = b ||| d := by
  have hcomm : (a ||| c) ||| (b ||| d) = (a ||| b) ||| (c ||| d) := by ac_rfl
  rw [hcomm, hab, hcd]

theorem and_sub {a b : UInt16} (hab : a ||| b = b) (c : UInt16) : (a &&& c) ||| b = b := by
  have habsorb : (a &&& c) ||| a = a := by
    apply UInt16.toBitVec_inj.mp
    ext i
    simp
    grind
  calc (a &&& c) ||| b = ((a &&& c) ||| a) ||| b := by rw [UInt16.or_assoc, hab]
    _ = b := by rw [habsorb, hab]

theorem row_contained (line : TableLine) : Contained line.row := by
  have hfold : ∀ (positions : List Nat) (a b : UInt16), a ||| b = b →
      positions.foldl (fun bits i => bits ||| ((if line.bitpattern.toList.getD i '\x00' == '1' then
          (1 : UInt16) else 0) <<< UInt16.ofNat (15 - i))) a |||
        positions.foldl (fun bits i => bits ||| ((if line.bitpattern.toList.getD i '\x00' != '.' then
          (1 : UInt16) else 0) <<< UInt16.ofNat (15 - i))) b =
        positions.foldl (fun bits i => bits ||| ((if line.bitpattern.toList.getD i '\x00' != '.' then
          (1 : UInt16) else 0) <<< UInt16.ofNat (15 - i))) b := by
    intro positions
    induction positions with
    | nil => exact fun a b h => h
    | cons i positions ih =>
      intro a b h
      refine ih _ _ (or_sub h ?_)
      generalize line.bitpattern.toList.getD i '\x00' = c
      by_cases hone : c = '1'
      · simp [hone]
      · simp [hone]
  exact hfold _ 0 0 (by decide)

theorem EaMode.info_sub (mode : EaMode) : mode.matchAdd ||| mode.maskAdd = mode.maskAdd := by
  cases mode <;> decide

theorem setCondition_contained {op : OpcodeStruct} {offset i : Nat} (h : Contained op)
    (hfield : 0x0f00 ||| op.opMask = op.opMask) (hi : i < 16) :
    Contained (setCondition op offset i) := by
  have hcond : (UInt16.ofNat i <<< (8 : UInt16)) ||| 0x0f00 = 0x0f00 := by
    interval_cases i <;> decide
  have hsub : (UInt16.ofNat i <<< (8 : UInt16)) ||| op.opMask = op.opMask := by
    rw [← hfield, ← UInt16.or_assoc, hcond]
  have hsum := or_sub (and_sub h 0xf0ff) hsub
  rwa [UInt16.or_self] at hsum

/-- The rows that are made of a row: what they ask for, and how their bits are counted. -/
def Generated (op : OpcodeStruct) : Prop :=
  Contained op ∧ op.bits = (numBits op.opMask.toUInt32).toUInt8

theorem generated_ea {op v : OpcodeStruct} (h : Contained op)
    (hv : v ∈ generateOpcodeEaVariants op) : Generated v := by
  obtain ⟨mode, -, rfl⟩ := List.mem_map.mp hv
  exact ⟨or_sub h mode.info_sub, rfl⟩

theorem generated_conditions {offset : Nat} {v : OpcodeStruct} {conds : List Nat}
    (hconds : ∀ i ∈ conds, i < 16) {op : OpcodeStruct} (h : Contained op)
    (hfield : 0x0f00 ||| op.opMask = op.opMask) (hv : v ∈ ccVariants offset conds op) :
    Generated v := by
  induction conds generalizing op with
  | nil => cases hv
  | cons i conds ih =>
    simp only [List.forall_mem_cons] at hconds
    have hset : Contained (setCondition op offset i) :=
      setCondition_contained h hfield hconds.1
    rcases List.mem_append.mp hv with hv | hv
    · exact generated_ea hset hv
    · exact ih hconds.2 hset hfield hv

theorem generated_cc {op v : OpcodeStruct} {offset : Nat} (h : Contained op)
    (hv : v ∈ generateOpcodeCcVariants op offset) : Generated v := by
  refine generated_conditions (by decide) ?_ ?_ hv
  · change op.opMatch ||| (op.opMask ||| 0x0f00) = op.opMask ||| 0x0f00
    rw [← UInt16.or_assoc, h]
  · change 0x0f00 ||| (op.opMask ||| 0x0f00) = op.opMask ||| 0x0f00
    rw [UInt16.or_comm, UInt16.or_assoc, UInt16.or_self]

theorem generated_variants {op v : OpcodeStruct} (h : Contained op)
    (hv : v ∈ generateOpcodeVariants op) : Generated v := by
  unfold generateOpcodeVariants at hv
  split_ifs at hv
  · exact generated_cc h hv
  · exact generated_cc h hv
  · exact generated_cc h hv
  · exact generated_ea h hv

theorem generated_process {lines : List TableLine} {out : List OpcodeStruct}
    {handlers : List OpName} (h : processOpcodeHandlers (populateTable lines) handlers = some out) :
    ∀ v ∈ out, Generated v := by
  induction handlers generalizing out with
  | nil =>
    cases h
    simp
  | cons op handlers ih =>
    simp only [processOpcodeHandlers, Option.bind_eq_bind, Option.bind_eq_some_iff] at h
    obtain ⟨opinfo, hfind, others, hothers, hout⟩ := h
    cases hout
    obtain ⟨line, -, rfl⟩ := List.mem_map.mp (List.mem_of_find?_eq_some hfind)
    intro v hv
    rcases List.mem_append.mp hv with hv | hv
    · exact generated_variants (row_contained line) hv
    · exact ih hothers v hv

/-- How many bits of the opcode a row fixes. -/
def fixedBits (op : OpcodeStruct) : Nat :=
  ((List.range 16).filter fun i => bit op.opMask.toUInt32 i).length

theorem fixedBits_eq {op : OpcodeStruct} (h : WellFormed op) : fixedBits op = op.bits.toNat := by
  have hmasks : ∀ m ∈ masks, ((List.range 16).filter fun i => bit m.toUInt32 i).length =
      (numBits m.toUInt32).toUInt8.toNat := forall_masks (by decide)
  rw [h.bits]
  exact hmasks _ h.mask

theorem fixedBits_le {a b : OpcodeStruct} (ha : WellFormed a) (hb : WellFormed b)
    (h : compareNofTrueBits a b ≤ 0) : fixedBits a ≤ fixedBits b := by
  rw [fixedBits_eq ha, fixedBits_eq hb]
  unfold compareNofTrueBits at h
  simp only [← UInt8.toNat_inj, ne_eq] at h
  split_ifs at h <;> omega

theorem compareNofTrueBits_refl (op : OpcodeStruct) : compareNofTrueBits op op ≤ 0 := by
  simp [compareNofTrueBits]

/-- Byte instructions, with a branch for each condition. -/
def byteInstructions : List TableLine :=
  [⟨"bcc", 8, ".", ".", "0110............", ".........."⟩,
    ⟨"bcc", 16, ".", ".", "0110....00000000", ".........."⟩,
    ⟨"or", 8, "re", ".", "1000...100......", "A+-DXWL..."⟩,
    ⟨"tst", 8, ".", ".", "0100101000......", "A+-DXWL..."⟩]

def byteHandlers : List OpName :=
  [⟨"bcc", 8, ".", "."⟩, ⟨"bcc", 16, ".", "."⟩, ⟨"or", 8, "re", "."⟩, ⟨"tst", 8, ".", "."⟩]

def byteRows : List OpcodeStruct :=
  (processOpcodeHandlers (populateTable byteInstructions) byteHandlers).getD []

end ParaTos.OpcodeTable
