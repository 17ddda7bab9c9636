/-
  ParaTos/Accessors.lean
  ======================
  **The accessors of the emulated memory** (`memory.i`, `memory.c`).

  The macros `MEM8` to `MEM64` access `memory` as words of the host, aligned or not,
  and each accessor converts the word between the byte order of the host and the
  big-endian one of the emulated machine.  `Memory.lean` says what comes of that
  and leaves the host out; here the accessors are as the code has them, and
  `m68kReadMemory32_eq` and its kin show that the host makes no difference.

  A run is a list of calls.  It is compared with a run in which each call is made of
  calls to `m68k_read_memory_8` and `m68k_write_memory_8` alone.  The two agree but
  for one accessor: `m68k_read_disassembler_32` converts eight bytes and returns the
  last four.
-/
import ParaTos.ByteOrder
import ParaTos.Machine
import ParaTos.Memory

namespace ParaTos.Accessors

open Bytes Memory HostWord

/-! ### Words of the host -/

section Accessors

variable (order : ByteOrder)

/-- `*((type*)(memory+(address)))` as a value. -/
def load {α : Type} [HostWord α] (address : UInt32) (m : Memory) : Run α := do
  let l ← peeks address.toNat (size α) m
  return ofBytes order l

/-- `*((type*)(memory+(address))) = x`. -/
def store {α : Type} [HostWord α] (address : UInt32) (x : α) (m : Memory) : Run Memory :=
  poke address.toNat (toBytes order x) m

/-- The macros `MEM8` to `MEM64` as values. -/
def mem8 (address : UInt32) (m : Memory) : Run UInt8 := peek address.toNat m
def mem16 (address : UInt32) (m : Memory) : Run UInt16 := load order address m
def mem32 (address : UInt32) (m : Memory) : Run UInt32 := load order address m
def mem64 (address : UInt32) (m : Memory) : Run UInt64 := load order address m

/-- The macros `MEM8` to `MEM64` on the left of an assignment. -/
def setMem8 (address : UInt32) (x : UInt8) (m : Memory) : Run Memory := poke address.toNat [x] m
def setMem16 (address : UInt32) (x : UInt16) (m : Memory) : Run Memory := store order address x m
def setMem32 (address x : UInt32) (m : Memory) : Run Memory := store order address x m
def setMem64 (address : UInt32) (x : UInt64) (m : Memory) : Run Memory := store order address x m

def be16toh (x : UInt16) : UInt16 := toBig order x
def be32toh (x : UInt32) : UInt32 := toBig order x
def be64toh (x : UInt64) : UInt64 := toBig order x

def htobe16 (x : UInt16) : UInt16 := toBig order x
def htobe32 (x : UInt32) : UInt32 := toBig order x
def htobe64 (x : UInt64) : UInt64 := toBig order x

/-! ### The accessors

Values are of type `unsigned int`, and the widest ones of type `uint64_t`. -/

def m68kReadMemory8 (address : UInt32) (m : Memory) : Run UInt32 := do
  let x ← mem8 address m
  return x.toUInt32

def m68kReadMemory16 (address : UInt32) (m : Memory) : Run UInt32 := do
  let x ← mem16 order address m
  return (be16toh order x).toUInt32

def m68kReadMemory32 (address : UInt32) (m : Memory) : Run UInt32 := do
  let x ← mem32 order address m
  return be32toh order x

def m68kReadMemory64 (address : UInt32) (m : Memory) : Run UInt64 := do
  let x ← mem64 order address m
  return be64toh order x

def m68kWriteMemory8 (address value : UInt32) (m : Memory) : Run Memory :=
  setMem8 address value.toUInt8 m

def m68kWriteMemory16 (address value : UInt32) (m : Memory) : Run Memory :=
  setMem16 order address (htobe16 order value.toUInt16) m

def m68kWriteMemory32 (address value : UInt32) (m : Memory) : Run Memory :=
  setMem32 order address (htobe32 order value) m

def m68kWriteMemory64 (address : UInt32) (value : UInt64) (m : Memory) : Run Memory :=
  setMem64 order address (htobe64 order value) m

/-- What `m68k_read_to_8` to `m68k_read_to_64` store in `*dest`. -/
def m68kReadTo8 (address : UInt32) (m : Memory) : Run UInt8 := do
  let v ← m68kReadMemory8 address m
  return v.toUInt8

def m68kReadTo16 (address : UInt32) (m : Memory) : Run UInt16 := do
  let v ← m68kReadMemory16 order address m
  return v.toUInt16

def m68kReadTo32 (address : UInt32) (m : Memory) : Run UInt32 := m68kReadMemory32 order address m

def m68kReadTo64 (address : UInt32) (m : Memory) : Run UInt64 := m68kReadMemory64 order address m

def m68kReadDisassembler8 (address : UInt32) (m : Memory) : Run UInt32 := do
  let x ← mem8 address m
  return x.toUInt32

def m68kReadDisassembler16 (address : UInt32) (m : Memory) : Run UInt32 := do
  let x ← mem16 order address m
  return (be16toh order x).toUInt32

/-- The conversion is the one for 64 bits, and the return type drops the upper half. -/
def m68kReadDisassembler32 (address : UInt32) (m : Memory) : Run UInt32 := do
  let x ← mem64 order address m
  return (be64toh order x).toUInt32

end Accessors

/-! ### The host makes no difference -/

section Hosts

variable (order : ByteOrder) (address : UInt32) (m : Memory)

/-- A load and the conversion behind it. -/
theorem load_toBig {α β : Type} [HostWord α] (f : α → β) :
    (load order address m >>= fun x => Except.ok (f (toBig order x))) =
      peeks address.toNat (size α) m >>= fun l => Except.ok (f (ofNat (ofBigEndian l))) := by
  unfold load peeks
  split
  · have hlen := slice_length m address.toNat (size α)
    have hbytes := toBig_ofBytes order hlen
    simp only [Run.ok_bind, Run.pure_eq_ok]
    exact congrArg (fun x => Except.ok (f x)) hbytes
  · rfl

/-- A store and the conversion in front of it. -/
theorem store_toBig {α : Type} [HostWord α] (x : α) :
    store order address (toBig order x) m =
      poke address.toNat (bigEndian (size α) (toNat x)) m := by
  rw [store, toBytes_toBig]

theorem m68kReadMemory8_eq :
    m68kReadMemory8 address m = readMemory8 address m >>= fun v => Except.ok v.toUInt32 := rfl

theorem m68kReadMemory16_eq :
    m68kReadMemory16 order address m =
      readMemory16 address m >>= fun v => Except.ok v.toUInt32 := by
  rw [readMemory16, bind_assoc]
  exact load_toBig order address m UInt16.toUInt32

theorem m68kReadMemory32_eq : m68kReadMemory32 order address m = readMemory32 address m :=
  load_toBig order address m id

theorem m68kReadMemory64_eq : m68kReadMemory64 order address m = readMemory64 address m :=
  load_toBig order address m id

theorem m68kWriteMemory8_eq (value : UInt32) :
    m68kWriteMemory8 address value m = writeMemory8 address value.toUInt8 m := rfl

theorem m68kWriteMemory16_eq (value : UInt32) :
    m68kWriteMemory16 order address value m = writeMemory16 address value.toUInt16 m :=
  store_toBig order address m value.toUInt16

theorem m68kWriteMemory32_eq (value : UInt32) :
    m68kWriteMemory32 order address value m = writeMemory32 address value m :=
  store_toBig order address m value

theorem m68kWriteMemory64_eq (value : UInt64) :
    m68kWriteMemory64 order address value m = writeMemory64 address value m :=
  store_toBig order address m value

/-- The wrong one reads eight bytes, on every host. -/
theorem m68kReadDisassembler32_eq :
    m68kReadDisassembler32 order address m =
      readMemory64 address m >>= fun v => Except.ok v.toUInt32 := by
  rw [readMemory64, bind_assoc]
  exact load_toBig order address m UInt64.toUInt32

end Hosts

/-! ### Calls -/

/-- The widths of an access. -/
inductive Width where
  | w8
  | w16
  | w32
  | w64
deriving DecidableEq, Repr

def Width.bytes : Width → Nat
  | .w8 => 1
  | .w16 => 2
  | .w32 => 4
  | .w64 => 8

/-- The calls of the accessors.  The value of a write is converted to the type of the
    parameter. -/
inductive Call where
  | read (w : Width) (address : UInt32)
  | readTo (w : Width) (address : UInt32)
  | write (w : Width) (address : UInt32) (value : UInt64)
  | disassembler8 (address : UInt32)
  | disassembler16 (address : UInt32)
  | disassembler32 (address : UInt32)
deriving DecidableEq, Repr

namespace Call

def address : Call → UInt32
  | .read _ a | .readTo _ a | .write _ a _ => a
  | .disassembler8 a | .disassembler16 a | .disassembler32 a => a

def bytes : Call → Nat
  | .read w _ | .readTo w _ | .write w _ _ => w.bytes
  | .disassembler8 _ => 1
  | .disassembler16 _ => 2
  | .disassembler32 _ => 4

/-- The bytes that the call is about are mapped. -/
def InRange (c : Call) : Prop := ∀ i < c.bytes, Mapped (c.address.toNat + i)

instance (c : Call) : Decidable c.InRange := inferInstanceAs (Decidable (∀ i < _, _))

/-- The offsets that the call writes to. -/
def Writes (x : Nat) : Call → Prop
  | .write w a _ => a.toNat ≤ x ∧ x < a.toNat + w.bytes
  | _ => False

/-- The same call of an ordinary accessor. -/
def ordinary : Call → Call
  | .disassembler8 a => .read .w8 a
  | .disassembler16 a => .read .w16 a
  | .disassembler32 a => .read .w32 a
  | c => c

end Call

/-- A call that returns a value. -/
def returns (x : Run Nat) (m : Memory) : Run (Option Nat × Memory) := do
  let v ← x
  return (some v, m)

/-- A call that stores. -/
def stores (x : Run Memory) : Run (Option Nat × Memory) := do
  let m ← x
  return (none, m)

section Steps

variable (order : ByteOrder)

def readMemory (w : Width) (a : UInt32) (m : Memory) : Run Nat :=
  match w with
  | .w8 => do return (← m68kReadMemory8 a m).toNat
  | .w16 => do return (← m68kReadMemory16 order a m).toNat
  | .w32 => do return (← m68kReadMemory32 order a m).toNat
  | .w64 => do return (← m68kReadMemory64 order a m).toNat

def readTo (w : Width) (a : UInt32) (m : Memory) : Run Nat :=
  match w with
  | .w8 => do return (← m68kReadTo8 a m).toNat
  | .w16 => do return (← m68kReadTo16 order a m).toNat
  | .w32 => do return (← m68kReadTo32 order a m).toNat
  | .w64 => do return (← m68kReadTo64 order a m).toNat

def writeMemory (w : Width) (a : UInt32) (value : UInt64) (m : Memory) : Run Memory :=
  match w with
  | .w8 => m68kWriteMemory8 a value.toUInt32 m
  | .w16 => m68kWriteMemory16 order a value.toUInt32 m
  | .w32 => m68kWriteMemory32 order a value.toUInt32 m
  | .w64 => m68kWriteMemory64 order a value m

/-- One call, and what it returns. -/
def step : Call → Memory → Run (Option Nat × Memory)
  | .read w a, m => returns (readMemory order w a m) m
  | .readTo w a, m => returns (readTo order w a m) m
  | .write w a value, m => stores (writeMemory order w a value m)
  | .disassembler8 a, m => returns (do return (← m68kReadDisassembler8 a m).toNat) m
  | .disassembler16 a, m => returns (do return (← m68kReadDisassembler16 order a m).toNat) m
  | .disassembler32 a, m => returns (do return (← m68kReadDisassembler32 order a m).toNat) m

end Steps

/-! ### Calls made of byte accesses -/

/-- Read `n` bytes, and combine them with the most significant one first. -/
def readBytes : Nat → UInt32 → Memory → Run Nat
  | 0, _, _ => return 0
  | n + 1, a, m => do
    let b ← m68kReadMemory8 a m
    let v ← readBytes n (a + 1) m
    return b.toNat * 256 ^ n + v

/-- Write the `n` low bytes of a number, the most significant one first. -/
def writeBytes : Nat → UInt32 → Nat → Memory → Run Memory
  | 0, _, _, m => return m
  | n + 1, a, v, m => do
    let m ← m68kWriteMemory8 a (UInt32.ofNat (v / 256 ^ n)) m
    writeBytes n (a + 1) v m

/-- One call, made of byte accesses. -/
def byteStep : Call → Memory → Run (Option Nat × Memory)
  | .write w a value, m => stores (writeBytes w.bytes a value.toNat m)
  | c, m => returns (readBytes c.bytes c.address m) m

/-- What a call comes to in a byte memory. -/
def effect : Call → Memory → Option Nat × Memory
  | .write w a value, m => (none, write m a.toNat (bigEndian w.bytes value.toNat))
  | c, m => (some (ofBigEndian (slice m c.address.toNat c.bytes)), m)

theorem readBytes_ok (m : Memory) {n x : Nat} (h : ∀ i < n, Mapped (x + i)) :
    readBytes n (UInt32.ofNat x) m = Except.ok (ofBigEndian (slice m x n)) := by
  induction n generalizing x with
  | zero => rfl
  | succ n ih =>
    rw [Nat.add_comm, mapped_append] at h
    -- a mapped offset is an address, so the word that the loop counts up has not wrapped
    have hx : Mapped x := h.1 0 Nat.zero_lt_one
    have haddr : (UInt32.ofNat x).toNat = x := UInt32.toNat_ofNat_of_lt' (mapped_lt hx)
    have hnext : UInt32.ofNat x + 1 = UInt32.ofNat (x + 1) := (UInt32.ofNat_add x 1).symm
    rw [readBytes, m68kReadMemory8_eq, readMemory8, haddr, peek_ok hx, hnext, ih h.2,
      slice_succ, ofBigEndian_cons, slice_length]
    rfl

theorem writeBytes_ok (v : Nat) {n x : Nat} (h : ∀ i < n, Mapped (x + i)) (m : Memory) :
    writeBytes n (UInt32.ofNat x) v m = Except.ok (write m x (bigEndian n v)) := by
  induction n generalizing x m with
  | zero =>
    rw [writeBytes, bigEndian, write_nil]
    rfl
  | succ n ih =>
    rw [Nat.add_comm, mapped_append] at h
    have haddr : (UInt32.ofNat x).toNat = x :=
      UInt32.toNat_ofNat_of_lt' (mapped_lt (h.1 0 Nat.zero_lt_one))
    have hnext : UInt32.ofNat x + 1 = UInt32.ofNat (x + 1) := (UInt32.ofNat_add x 1).symm
    have hbyte : m68kWriteMemory8 (UInt32.ofNat x) (UInt32.ofNat (v / 256 ^ n)) m =
        Except.ok (write m x [UInt8.ofNat (v / 256 ^ n)]) := by
      rw [m68kWriteMemory8_eq, writeMemory8, haddr, UInt32.toUInt8_ofNat', poke_iff]
      exact ⟨h.1, rfl⟩
    rw [writeBytes, hbyte, Run.ok_bind, hnext, ih h.2, write_cons, bigEndian]

theorem byteStep_ok {c : Call} (h : c.InRange) (m : Memory) :
    byteStep c m = Except.ok (effect c m) := by
  have hread := readBytes_ok m h
  rw [UInt32.ofNat_toNat] at hread
  have hanswer : returns (readBytes c.bytes c.address m) m =
      Except.ok (some (ofBigEndian (slice m c.address.toNat c.bytes)), m) := by
    rw [returns, hread]
    rfl
  cases c with
  | write w a value =>
    have hwrite := writeBytes_ok value.toNat h m
    rw [UInt32.ofNat_toNat] at hwrite
    exact congrArg stores hwrite
  | _ => exact hanswer

/-! ### The accessors in a byte memory -/

section Effects

variable (order : ByteOrder)

theorem readMemory_ok {w : Width} {a : UInt32} (h : ∀ i < w.bytes, Mapped (a.toNat + i))
    (m : Memory) :
    readMemory order w a m = Except.ok (ofBigEndian (slice m a.toNat w.bytes)) := by
  have hpeeks : peeks a.toNat w.bytes m = Except.ok (slice m a.toNat w.bytes) := if_pos h
  cases w with
  | w8 =>
    have hpeek : peek a.toNat m = Except.ok (m a.toNat) := peek_ok (h 0 Nat.zero_lt_one) m
    have hvalue : (m a.toNat).toNat = ofBigEndian (slice m a.toNat 1) := (Nat.zero_add _).symm
    rw [readMemory, m68kReadMemory8_eq, readMemory8, hpeek]
    exact congrArg Except.ok hvalue
  | w16 =>
    have hvalue := @toNat_ofBigEndian UInt16 _ _ (slice_length m a.toNat 2)
    rw [Width.bytes] at hpeeks
    rw [readMemory, m68kReadMemory16_eq, readMemory16, hpeeks]
    exact congrArg Except.ok hvalue
  | w32 =>
    have hvalue := @toNat_ofBigEndian UInt32 _ _ (slice_length m a.toNat 4)
    rw [Width.bytes] at hpeeks
    rw [readMemory, m68kReadMemory32_eq, readMemory32, hpeeks]
    exact congrArg Except.ok hvalue
  | w64 =>
    have hvalue := @toNat_ofBigEndian UInt64 _ _ (slice_length m a.toNat 8)
    rw [Width.bytes] at hpeeks
    rw [readMemory, m68kReadMemory64_eq, readMemory64, hpeeks]
    exact congrArg Except.ok hvalue

/-- Where `*dest` is narrower than `unsigned int`, what it drops is zero. -/
theorem readTo_eq (w : Width) (a : UInt32) (m : Memory) :
    readTo order w a m = readMemory order w a m := by
  cases w with
  | w8 =>
    rw [readTo, readMemory, m68kReadTo8, m68kReadMemory8_eq]
    simp only [bind_assoc, Run.ok_bind, Run.pure_eq_ok, UInt8.toUInt8_toUInt32,
      UInt8.toNat_toUInt32]
  | w16 =>
    rw [readTo, readMemory, m68kReadTo16, m68kReadMemory16_eq]
    simp only [bind_assoc, Run.ok_bind, Run.pure_eq_ok, UInt16.toUInt16_toUInt32,
      UInt16.toNat_toUInt32]
  | w32 => rfl
  | w64 => rfl

theorem writeMemory_eq_ok {w : Width} {a : UInt32} {value : UInt64} {m m' : Memory} :
    writeMemory order w a value m = Except.ok m' ↔
      (∀ i < w.bytes, Mapped (a.toNat + i)) ∧
        m' = write m a.toNat (bigEndian w.bytes value.toNat) := by
  cases w with
  | w8 =>
    have hbyte : [value.toUInt32.toUInt8] = bigEndian 1 value.toNat := by
      rw [bigEndian, bigEndian, Nat.pow_zero, Nat.div_one, UInt64.toUInt8_toUInt32,
        UInt8.ofNat_uInt64ToNat]
    rw [writeMemory, m68kWriteMemory8_eq, writeMemory8, poke_iff, hbyte]
    rfl
  | w16 =>
    have hbytes : bigEndian 2 value.toUInt32.toUInt16.toNat = bigEndian 2 value.toNat := by
      apply bigEndian_congr
      rw [UInt32.toNat_toUInt16, UInt64.toNat_toUInt32]
      omega
    rw [writeMemory, m68kWriteMemory16_eq, writeMemory16_eq_ok, hbytes]
    rfl
  | w32 =>
    have hbytes : bigEndian 4 value.toUInt32.toNat = bigEndian 4 value.toNat := by
      apply bigEndian_congr
      rw [UInt64.toNat_toUInt32]
      omega
    rw [writeMemory, m68kWriteMemory32_eq, writeMemory32_eq_ok, hbytes]
    rfl
  | w64 =>
    rw [writeMemory, m68kWriteMemory64_eq, Memory.writeMemory64, poke_iff, bigEndian_length]
    rfl

/-- The longword behind the one that was asked for. -/
theorem m68kReadDisassembler32_eq_ok {a v : UInt32} {m : Memory} :
    m68kReadDisassembler32 order a m = Except.ok v ↔
      (∀ i < 8, Mapped (a.toNat + i)) ∧ v = longAt m (a.toNat + 4) := by
  have hlow : (UInt64.ofNat (ofBigEndian (slice m a.toNat 8))).toUInt32 =
      longAt m (a.toNat + 4) := by
    -- the first longword is the upper half of the value
    have hpair := ofBigEndian_append (slice m a.toNat 4) (slice m (a.toNat + 4) 4)
    rw [← slice_append, slice_length] at hpair
    apply UInt32.toNat.inj
    rw [UInt64.toUInt32_ofNat', hpair, longAt, UInt32.toNat_ofNat', UInt32.toNat_ofNat']
    exact Nat.mul_add_mod_self_right _ _ _
  rw [m68kReadDisassembler32_eq]
  simp only [readMemory64, bind_assoc, Run.bind_eq_ok, peeks_eq_ok, Run.pure_eq_ok, Run.ok_inj]
  constructor
  · rintro ⟨l, ⟨hmap, rfl⟩, v', rfl, rfl⟩
    exact ⟨hmap, hlow⟩
  · rintro ⟨hmap, rfl⟩
    exact ⟨_, ⟨hmap, rfl⟩, _, rfl, hlow⟩

/-- The longword at the address and the one behind it are the same. -/
def SeesSame (m : Memory) : Call → Prop
  | .disassembler32 a =>
    (∀ i < 8, Mapped (a.toNat + i)) ∧ ∀ i < 4, m (a.toNat + 4 + i) = m (a.toNat + i)
  | _ => True

theorem step_ok {c : Call} {m : Memory} (h : c.InRange) (hsame : SeesSame m c) :
    step order c m = Except.ok (effect c m) := by
  cases c with
  | read w a =>
    have hread := @readMemory_ok order w a h m
    rw [step, hread]
    rfl
  | readTo w a =>
    have hread := @readMemory_ok order w a h m
    rw [step, readTo_eq, hread]
    rfl
  | write w a value =>
    have hwrite := (@writeMemory_eq_ok order w a value m _).mpr ⟨h, rfl⟩
    rw [step, hwrite]
    rfl
  | disassembler8 a =>
    have hread := @readMemory_ok order .w8 a h m
    exact congrArg (fun x => returns x m) hread
  | disassembler16 a =>
    have hread := @readMemory_ok order .w16 a h m
    exact congrArg (fun x => returns x m) hread
  | disassembler32 a =>
    have hread := (@m68kReadDisassembler32_eq_ok order a _ m).mpr ⟨hsame.1, rfl⟩
    have hbytes : slice m (a.toNat + 4) 4 = slice m a.toNat 4 := slice_eq_iff.mpr hsame.2
    have hvalue : (longAt m (a.toNat + 4)).toNat = ofBigEndian (slice m a.toNat 4) := by
      rw [toNat_longAt, hbytes]
    rw [step, hread]
    exact congrArg (fun v => Except.ok (some v, m)) hvalue

/-- Where the longwords differ, so do the answers. -/
theorem step_wrong {c : Call} {m m' : Memory} {r : Option Nat} (hsame : ¬ SeesSame m c)
    (h : step order c m = Except.ok (r, m')) : r ≠ (effect c m).1 := by
  cases c with
  | disassembler32 a =>
    obtain ⟨v, hv, hend⟩ := Run.bind_eq_ok.mp h
    obtain ⟨v', hread, hv'⟩ := Run.bind_eq_ok.mp hv
    obtain ⟨hmap, rfl⟩ := (m68kReadDisassembler32_eq_ok order).mp hread
    cases hv'
    cases hend
    -- equal values of four bytes each come from equal bytes
    intro heq
    apply hsame
    refine ⟨hmap, slice_eq_iff.mp (ofBigEndian_inj (by simp) ?_)⟩
    rw [← toNat_longAt]
    exact Option.some.inj heq
  | _ => exact absurd trivial hsame

/-- The bytes that a call changes are those that it writes. -/
def Frames (order : ByteOrder) (m : Memory) (c : Call) : Prop :=
  ∀ r m', step order c m = Except.ok (r, m') → ∀ x, ¬ c.Writes x → m' x = m x

theorem returns_memory {x : Run Nat} {m m' : Memory} {r : Option Nat}
    (h : returns x m = Except.ok (r, m')) : m' = m := by
  obtain ⟨v, -, hend⟩ := Run.bind_eq_ok.mp h
  cases hend
  rfl

theorem step_frames (m : Memory) (c : Call) : Frames order m c := by
  intro r m' h x hx
  cases c with
  | write w a value =>
    obtain ⟨m₁, hwrite, hend⟩ := Run.bind_eq_ok.mp h
    cases hend
    obtain ⟨-, rfl⟩ := (writeMemory_eq_ok order).mp hwrite
    apply write_outside
    rw [bigEndian_length]
    by_contra hin
    exact hx ⟨by omega, by omega⟩
  | _ => rw [returns_memory h]

/-- The call and the same call of an ordinary accessor come to the same. -/
def SameAsOrdinary (order : ByteOrder) (m : Memory) (c : Call) : Prop :=
  step order c m = step order c.ordinary m

theorem step_ordinary {c : Call} {m : Memory} (h : c.InRange) (hsame : SeesSame m c) :
    SameAsOrdinary order m c := by
  cases c with
  | disassembler32 a =>
    have hread := @step_ok order (.read .w32 a) m h trivial
    exact (step_ok order h hsame).trans hread.symm
  | _ => rfl

end Effects

/-! ### Runs -/

/-- A run of calls and the same run made of byte accesses return the same values and
    end in the same memory.  No call changes a byte that it does not write, and the calls
    of the disassembler return what the ordinary ones do. -/
structure Agree (order : ByteOrder) (calls : List Call) (m : Memory) : Prop where
  trace : Machine.trace (step order) calls m = Machine.trace byteStep calls m
  frames : Machine.Meets (step order) (Frames order) calls m
  ordinary : Machine.Meets (step order) (SameAsOrdinary order) calls m

/-- **The accessors are one byte memory**, on every host, for all memories and all mixes of
    calls, in exactly the runs that never have `m68k_read_disassembler_32` look at a
    longword that is not repeated behind itself. -/
theorem agree_iff_seesSame (order : ByteOrder) (calls : List Call) (m : Memory)
    (hrange : ∀ c ∈ calls, c.InRange) :
    Agree order calls m ↔ Machine.Meets (step order) SeesSame calls m := by
  have htrace : Machine.trace (step order) calls m = Machine.trace byteStep calls m ↔
      Machine.Meets (step order) SeesSame calls m := by
    apply @Machine.trace_eq_iff_meets _ _ _ _ _ Call.InRange
    · intro s c hc
      exact ⟨_, _, byteStep_ok hc s⟩
    · intro s c hc hsame
      rw [step_ok order hc hsame, byteStep_ok hc]
    · intro s c r s' r' t hc hsame hstep hbyte
      rw [byteStep_ok hc] at hbyte
      have hright : (effect c s).1 = r' := congrArg Prod.fst (Run.ok_inj.mp hbyte)
      rw [← hright]
      exact step_wrong order hsame hstep
    · exact hrange
  constructor
  · intro hagree
    exact htrace.mp hagree.trace
  · intro hsame
    refine ⟨htrace.mpr hsame, ?_, ?_⟩
    · exact Machine.Meets.of_forall (fun c _ s => step_frames order s c) m
    · exact hsame.mono fun c hc s hs => step_ordinary order (hrange c hc) hs

theorem agree_mixed :
    Agree .little [.disassembler32 0xfffff8, .write .w32 0x10001 0x11223344,
      .write .w16 0x10002 0xaabb, .read .w64 0xffff, .write .w64 0xfffffff8 0x0102030405060708,
      .readTo .w32 0xfffffffb, .disassembler16 0x10003] initM68KMemory := by
  apply (agree_iff_seesSame _ _ _ (by decide)).mpr
  refine ⟨⟨by decide, fun i _ => rfl⟩, fun _ s _ => ?_⟩
  apply Machine.Meets.of_forall
  intro c hc s
  cases c with
  | disassembler32 a => simp at hc
  | _ => trivial

theorem disassembler32_disagrees :
    Call.InRange (.disassembler32 0x10000) ∧
      m68kReadMemory32 .little 0x10000
        (write initM68KMemory 0x10000 [0x11, 0x22, 0x33, 0x44, 0x55, 0x66, 0x77, 0x88]) =
          Except.ok 0x11223344 ∧
      m68kReadDisassembler32 .little 0x10000
        (write initM68KMemory 0x10000 [0x11, 0x22, 0x33, 0x44, 0x55, 0x66, 0x77, 0x88]) =
          Except.ok 0x55667788 ∧
      ¬ Agree .little [.disassembler32 0x10000]
        (write initM68KMemory 0x10000 [0x11, 0x22, 0x33, 0x44, 0x55, 0x66, 0x77, 0x88]) := by
  refine ⟨by decide, rfl, rfl, ?_⟩
  intro h
  have heq := congrArg (Except.map Prod.fst) h.ordinary.1
  exact absurd heq (by decide)

end ParaTos.Accessors
