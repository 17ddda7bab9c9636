/-
  ParaTos/ByteOrder.lean
  ======================
  **The byte order of a host.**

  A word lies in memory as a number of bytes, and it is up to the host whether the
  most significant one or the least significant one comes first.  Portable code
  that keeps big-endian data converts each word behind a load and in front of a
  store.  The conversion is the identity on one kind of host and reverses the
  bytes on the other.

  A type of words is a `HostWord`, which says how many bytes its values have.  The
  two results are `toBig_ofBytes`, for a load, and `toBytes_toBig`, for a store:
  whichever host the code runs on, the order of the bytes in memory is the same.
-/
import ParaTos.Bytes

namespace ParaTos

open Bytes

/-! ### Least significant byte first -/

/-- The `n` bytes of a number. -/
def littleEndian : Nat → Nat → List UInt8
  | 0, _ => []
  | n + 1, v => UInt8.ofNat v :: littleEndian n (v / 256)

/-- The number that bytes stand for. -/
def ofLittleEndian : List UInt8 → Nat
  | [] => 0
  | b :: l => b.toNat + 256 * ofLittleEndian l

theorem littleEndian_eq (n v : Nat) : littleEndian n v = (bigEndian n v).reverse := by
  induction n generalizing v with
  | zero => rfl
  | succ n ih => rw [littleEndian, ih, bigEndian_concat, List.reverse_concat]

theorem ofLittleEndian_eq (l : List UInt8) : ofLittleEndian l = ofBigEndian l.reverse := by
  induction l with
  | nil => rfl
  | cons b l ih =>
    rw [ofLittleEndian, ih, List.reverse_cons, ofBigEndian_concat, Nat.mul_comm, Nat.add_comm]

/-- The number with the same `n` bytes in the reverse order. -/
def swap (n v : Nat) : Nat := ofLittleEndian (bigEndian n v)

theorem swap_ofLittleEndian (l : List UInt8) : swap l.length (ofLittleEndian l) = ofBigEndian l := by
  have hbytes := bigEndian_ofBigEndian l.reverse
  rw [List.length_reverse] at hbytes
  rw [swap, ofLittleEndian_eq l, hbytes, ofLittleEndian_eq, List.reverse_reverse]

theorem littleEndian_swap (n v : Nat) : littleEndian n (swap n v) = bigEndian n v := by
  have hbytes := bigEndian_ofBigEndian (bigEndian n v).reverse
  rw [List.length_reverse, bigEndian_length] at hbytes
  rw [littleEndian_eq, swap, ofLittleEndian_eq, hbytes, List.reverse_reverse]

/-! ### Either order -/

/-- The byte that a host stores first. -/
inductive ByteOrder where
  | little
  | big
deriving DecidableEq, Repr

namespace ByteOrder

variable (order : ByteOrder)

/-- The `n` bytes of a number as the host stores them. -/
def encode : ByteOrder → Nat → Nat → List UInt8
  | .little => littleEndian
  | .big => bigEndian

/-- The number that the host loads. -/
def decode : ByteOrder → List UInt8 → Nat
  | .little => ofLittleEndian
  | .big => ofBigEndian

/-- The conversion between the order of the host and the big-endian one. -/
def convert : ByteOrder → Nat → Nat → Nat
  | .little, n, v => swap n v
  | .big, _, v => v

theorem encode_mod (n v : Nat) : order.encode n (v % 256 ^ n) = order.encode n v := by
  cases order with
  | little => rw [encode, littleEndian_eq, bigEndian_mod, littleEndian_eq]
  | big => exact bigEndian_mod n v

theorem decode_lt (l : List UInt8) : order.decode l < 256 ^ l.length := by
  cases order with
  | little =>
    have hlt := ofBigEndian_lt l.reverse
    rwa [List.length_reverse, ← ofLittleEndian_eq] at hlt
  | big => exact ofBigEndian_lt l

/-- Behind a load. -/
theorem convert_decode (l : List UInt8) :
    order.convert l.length (order.decode l) = ofBigEndian l := by
  cases order with
  | little => exact swap_ofLittleEndian l
  | big => rfl

/-- In front of a store. -/
theorem encode_convert (n v : Nat) : order.encode n (order.convert n v) = bigEndian n v := by
  cases order with
  | little => exact littleEndian_swap n v
  | big => rfl

end ByteOrder

/-! ### Words -/

/-- A type of unsigned words of `size` bytes. -/
class HostWord (α : Type) where
  size : Nat
  toNat : α → Nat
  ofNat : Nat → α
  toNat_ofNat : ∀ v, toNat (ofNat v) = v % 256 ^ size

instance : HostWord UInt16 := ⟨2, UInt16.toNat, UInt16.ofNat, fun _ => UInt16.toNat_ofNat'⟩
instance : HostWord UInt32 := ⟨4, UInt32.toNat, UInt32.ofNat, fun _ => UInt32.toNat_ofNat'⟩
instance : HostWord UInt64 := ⟨8, UInt64.toNat, UInt64.ofNat, fun _ => UInt64.toNat_ofNat'⟩

namespace HostWord

variable {α : Type} [HostWord α] (order : ByteOrder)

/-- The bytes of a word as the host stores it. -/
def toBytes (x : α) : List UInt8 := order.encode (size α) (toNat x)

/-- The word that the host loads from bytes. -/
def ofBytes (l : List UInt8) : α := ofNat (order.decode l)

/-- The word converted from the order of the host to the big-endian one, or back. -/
def toBig (x : α) : α := ofNat (order.convert (size α) (toNat x))

theorem toNat_ofBigEndian {l : List UInt8} (h : l.length = size α) :
    toNat (ofNat (ofBigEndian l) : α) = ofBigEndian l := by
  have hlt := ofBigEndian_lt l
  rw [h] at hlt
  rw [toNat_ofNat, Nat.mod_eq_of_lt hlt]

theorem toBig_ofBytes {l : List UInt8} (h : l.length = size α) :
    toBig order (ofBytes order l : α) = ofNat (ofBigEndian l) := by
  have hlt := order.decode_lt l
  rw [h] at hlt
  rw [toBig, ofBytes, toNat_ofNat, Nat.mod_eq_of_lt hlt, ← h, order.convert_decode]

theorem toBytes_toBig (x : α) : toBytes order (toBig order x) = bigEndian (size α) (toNat x) := by
  rw [toBytes, toBig, toNat_ofNat, order.encode_mod, order.encode_convert]

end HostWord

end ParaTos
