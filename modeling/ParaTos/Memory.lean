/-
  ParaTos/Memory.lean
  ===================
  **The emulated memory** (`memory.c`, `memory.i`).

  `InitM68KMemory` reserves the whole address space of the processor and maps two
  parts of it: the RAM below `memory_sz`, and the sixteen megabytes from
  `0xff000000`.  An access to anything else is a fault.

  Addresses of the emulated machine are 32-bit words.  A C pointer into `memory`
  is an offset from its start, and adding to it does not wrap.

  Every function below that stores text stores it front to back from an address in
  the RAM.  For each of them a lemma says when it returns, namely when the text ends
  at or before `memory_sz`, and that it is then one `write`.
-/
import ParaTos.Bytes
import ParaTos.CString
import ParaTos.Mem

namespace ParaTos

/-- What the pages hold; those that are not mapped have no say in any run. -/
abbrev Memory := Bytes.Image UInt8

namespace Memory

open Bytes Words CString

/-- The offsets that `InitM68KMemory` maps. -/
def Mapped (a : Nat) : Prop :=
  a < Mem.memorySz.toNat ∨ 0xff000000 ≤ a ∧ a < 0xff000000 + 0x01000000

instance (a : Nat) : Decidable (Mapped a) := inferInstanceAs (Decidable (_ ∨ _))

/-- Fresh pages are zero. -/
def initM68KMemory : Memory := fun _ => 0

/-! ### Accesses -/

/-- Read the byte at an offset. -/
def peek (a : Nat) (m : Memory) : Run UInt8 :=
  if Mapped a then Except.ok (m a) else Except.error .segv

/-- Read `n` bytes. -/
def peeks (a n : Nat) (m : Memory) : Run (List UInt8) :=
  if ∀ i < n, Mapped (a + i) then Except.ok ((List.range n).map fun i => m (a + i))
  else Except.error .segv

/-- Store bytes. -/
def poke (a : Nat) (l : List UInt8) (m : Memory) : Run Memory :=
  if ∀ i < l.length, Mapped (a + i) then Except.ok (write m a l) else Except.error .segv

/-- `m68k_read_memory_8` and `m68k_write_memory_8`. -/
def readMemory8 (address : UInt32) (m : Memory) : Run UInt8 := peek address.toNat m

def writeMemory8 (address : UInt32) (value : UInt8) (m : Memory) : Run Memory :=
  poke address.toNat [value] m

/-- `m68k_read_memory_16` and `m68k_write_memory_16`. -/
def readMemory16 (address : UInt32) (m : Memory) : Run UInt16 := do
  let l ← peeks address.toNat 2 m
  return UInt16.ofNat (ofBigEndian l)

def writeMemory16 (address : UInt32) (value : UInt16) (m : Memory) : Run Memory :=
  poke address.toNat (bigEndian 2 value.toNat) m

/-- `m68k_read_memory_32` and `m68k_write_memory_32`. -/
def readMemory32 (address : UInt32) (m : Memory) : Run UInt32 := do
  let l ← peeks address.toNat 4 m
  return UInt32.ofNat (ofBigEndian l)

def writeMemory32 (address value : UInt32) (m : Memory) : Run Memory :=
  poke address.toNat (bigEndian 4 value.toNat) m

/-- `m68k_read_memory_64` and `m68k_write_memory_64`. -/
def readMemory64 (address : UInt32) (m : Memory) : Run UInt64 := do
  let l ← peeks address.toNat 8 m
  return UInt64.ofNat (ofBigEndian l)

def writeMemory64 (address : UInt32) (value : UInt64) (m : Memory) : Run Memory :=
  poke address.toNat (bigEndian 8 value.toNat) m

/-- `m68k_write_memory_8(current++, c)` for each character in turn. -/
def writeChars : List UInt8 → UInt32 → Memory → Run (UInt32 × Memory)
  | [], current, m => Except.ok (current, m)
  | c :: l, current, m => do
    let m ← writeMemory8 current c m
    writeChars l (current + 1) m

/-- The loop of `m68k_write_string`, and the `i` it ends with. -/
def writeStringLoop (buffer : Nat) (maxLen : UInt32) :
    List UInt8 → Nat → Memory → Run (Nat × Memory)
  | [], i, m =>
    if i < maxLen.toNat then do
      let m ← poke (buffer + i) [0] m
      return (i, m)
    else return (i, m)
  | c :: value, i, m =>
    if i < maxLen.toNat then do
      let m ← poke (buffer + i) [c] m
      writeStringLoop buffer maxLen value (i + 1) m
    else return (i, m)

/-- `m68k_write_string(address, value, maxLen)`.  Behind a string that was cut off, a
    byte that is not zero is taken to be part of it. -/
def writeString (address : UInt32) (value : List UInt8) (maxLen : UInt32) (m : Memory) :
    Run (UInt32 × Memory) := do
  let (i, m) ← writeStringLoop address.toNat maxLen value 0 m
  let c ← peek (address.toNat + i) m
  if c = 0 then return (UInt32.ofNat i, m)
  let m ← poke (address.toNat + (i + 1)) [0] m
  return (UInt32.ofNat (i + 1), m)

/-! ### Single accesses to the RAM -/

theorem mapped_of_lt {a : Nat} (h : a < 0x1000000) : Mapped a := Or.inl h

theorem mapped_iff {a : Nat} (h : a ≤ 0x1000000) : Mapped a ↔ a < 0x1000000 := by
  have hsz : Mem.memorySz.toNat = 0x1000000 := rfl
  unfold Mapped
  omega

theorem mapped_lt {a : Nat} (h : Mapped a) : a < 2 ^ 32 := by
  have hsz : Mem.memorySz.toNat = 0x1000000 := rfl
  rcases h with h | h <;> omega

/-- A stretch of pages in two parts. -/
theorem mapped_append (a m n : Nat) : (∀ i < m + n, Mapped (a + i)) ↔
    (∀ i < m, Mapped (a + i)) ∧ ∀ i < n, Mapped (a + m + i) := by
  constructor
  · intro h
    refine ⟨fun i hi => h i (by omega), fun i hi => ?_⟩
    rw [Nat.add_assoc]
    exact h (m + i) (by omega)
  · rintro ⟨hm, hn⟩ i hi
    rcases Nat.lt_or_ge i m with hlt | hge
    · exact hm i hlt
    · have hi' := hn (i - m) (by omega)
      rwa [Nat.add_assoc, Nat.add_sub_cancel' hge] at hi'

/-- Between the lower pages and the upper ones there is a gap. -/
theorem mapped_below {a n : Nat} (ha : a ≤ 0x1000000) :
    (∀ i < n, Mapped (a + i)) ↔ a + n ≤ 0x1000000 := by
  constructor
  · intro h
    by_contra hlong
    have hend := h (0x1000000 - a) (by omega)
    rw [Nat.add_sub_cancel' ha, mapped_iff (Nat.le_refl _)] at hend
    omega
  · intro h i hi
    exact mapped_of_lt (by omega)

theorem peek_ok {a : Nat} (h : Mapped a) (m : Memory) : peek a m = Except.ok (m a) := if_pos h

theorem peek_eq_ok {a : Nat} {m : Memory} {c : UInt8} :
    peek a m = Except.ok c ↔ Mapped a ∧ m a = c := by
  unfold peek
  split
  · rename_i h
    simp [h]
  · rename_i h
    simp [h]

theorem poke_iff {a : Nat} {l : List UInt8} {m m' : Memory} :
    poke a l m = Except.ok m' ↔ (∀ i < l.length, Mapped (a + i)) ∧ m' = write m a l := by
  unfold poke
  split
  · rename_i hmap
    rw [Run.ok_inj, and_iff_right hmap, eq_comm]
  · rename_i hmap
    simp [hmap]

/-- A store to the RAM returns when it ends inside. -/
theorem poke_eq_ok {a : Nat} {l : List UInt8} {m m' : Memory} (ha : a ≤ 0x1000000) :
    poke a l m = Except.ok m' ↔ a + l.length ≤ 0x1000000 ∧ m' = write m a l := by
  rw [poke_iff, mapped_below ha]

theorem poke_ok {a : Nat} {l : List UInt8} {m : Memory} (h : a + l.length ≤ 0x1000000) :
    poke a l m = Except.ok (write m a l) := (poke_eq_ok (by omega)).mpr ⟨h, rfl⟩

@[simp] theorem poke_nil (a : Nat) (m : Memory) : poke a [] m = Except.ok m := by
  simp [poke]

/-- Two stores next to each other are one, also where a page is missing. -/
theorem poke_append (a : Nat) (l l' : List UInt8) (m : Memory) :
    (poke a l m >>= poke (a + l.length) l') = poke a (l ++ l') m := by
  have hsplit : (∀ i < (l ++ l').length, Mapped (a + i)) ↔
      (∀ i < l.length, Mapped (a + i)) ∧ ∀ i < l'.length, Mapped (a + l.length + i) := by
    rw [List.length_append]
    exact mapped_append a l.length l'.length
  unfold poke
  by_cases hl : ∀ i < l.length, Mapped (a + i)
  · rw [if_pos hl, Run.ok_bind, write_append]
    exact if_congr (by rw [hsplit, and_iff_right hl]) rfl rfl
  · rw [if_neg hl, Run.error_bind, if_neg fun h => hl (hsplit.mp h).1]

theorem poke_cons (a : Nat) (c : UInt8) (l : List UInt8) (m : Memory) :
    (poke a [c] m >>= poke (a + 1) l) = poke a (c :: l) m := poke_append a [c] l m

/-- To store the byte that is there is to look at it. -/
theorem poke_same (a : Nat) (m : Memory) :
    poke a [m a] m = peek a m >>= fun _ => Except.ok m := by
  have hsame : write m a [m a] = m := (write_same m a []).trans (write_nil m a)
  unfold poke peek
  rw [hsame]
  by_cases ha : Mapped a
  · rw [if_pos ha, if_pos]
    · rfl
    · intro i hi
      obtain rfl : i = 0 := by simpa using hi
      exact ha
  · rw [if_neg ha, if_neg]
    · rfl
    · intro h
      exact ha (h 0 (by simp))

/-! ### Text -/

/-- An address in the RAM moved on inside the RAM. -/
theorem toNat_advance {a : UInt32} {n : Nat} (h : a.toNat + n ≤ 0x1000000) :
    (a + UInt32.ofNat n).toNat = a.toNat + n := by
  have hsize : n < UInt32.size := by
    unfold UInt32.size
    omega
  have hn : (UInt32.ofNat n).toNat = n := UInt32.toNat_ofNat_of_lt' hsize
  rw [uint32_add (by omega), hn]

theorem advance_advance (a : UInt32) (n k : Nat) :
    a + UInt32.ofNat n + UInt32.ofNat k = a + UInt32.ofNat (n + k) := by
  rw [UInt32.add_assoc, ← UInt32.ofNat_add]

theorem writeMemory8_eq_ok {a : UInt32} {c : UInt8} {m m' : Memory} (ha : a.toNat ≤ 0x1000000) :
    writeMemory8 a c m = Except.ok m' ↔
      a.toNat + 1 ≤ 0x1000000 ∧ m' = write m a.toNat [c] := poke_eq_ok ha

theorem writeChars_eq_ok {l : List UInt8} {a : UInt32} {m : Memory} {r : UInt32 × Memory}
    (ha : a.toNat ≤ 0x1000000) :
    writeChars l a m = Except.ok r ↔
      a.toNat + l.length ≤ 0x1000000 ∧ r = (a + UInt32.ofNat l.length, write m a.toNat l) := by
  induction l generalizing a m with
  | nil =>
    simp [writeChars, ha, eq_comm]
  | cons c l ih =>
    simp only [writeChars, Run.bind_eq_ok, writeMemory8_eq_ok ha, List.length_cons]
    constructor
    · rintro ⟨m', ⟨hfit, rfl⟩, hrest⟩
      have hnext : (a + 1).toNat = a.toNat + 1 := @toNat_advance a 1 hfit
      rw [ih (by omega), hnext, write_cons] at hrest
      obtain ⟨hlen, rfl⟩ := hrest
      refine ⟨by omega, ?_⟩
      rw [Nat.add_comm l.length 1, ← advance_advance]
      rfl
    · rintro ⟨hlen, rfl⟩
      have hnext : (a + 1).toNat = a.toNat + 1 := @toNat_advance a 1 (by omega)
      refine ⟨_, ⟨by omega, rfl⟩, ?_⟩
      rw [ih (by omega), hnext, write_cons]
      refine ⟨by omega, ?_⟩
      rw [Nat.add_comm l.length 1, ← advance_advance]
      rfl

/-! ### Longwords -/

section Longwords

variable {m : Memory}

theorem peeks_shows {a : Nat} {l : List UInt8} (h : Shows m a l)
    (hfit : a + l.length ≤ 0x1000000) : peeks a l.length m = Except.ok l := by
  unfold peeks
  rw [if_pos fun i hi => mapped_of_lt (by omega)]
  exact congrArg Except.ok h.slice_eq

/-- A longword comes back from its bytes. -/
theorem ofBigEndian_longword (v : UInt32) :
    UInt32.ofNat (ofBigEndian (bigEndian 4 v.toNat)) = v := by
  rw [ofBigEndian_bigEndian]
  exact UInt32.ofNat_mod_size.trans UInt32.ofNat_toNat

theorem readMemory32_shows {a v : UInt32} (h : Shows m a.toNat (bigEndian 4 v.toNat))
    (hfit : a.toNat + 4 ≤ 0x1000000) : readMemory32 a m = Except.ok v := by
  have hpeeks := peeks_shows h (by rw [bigEndian_length]; exact hfit)
  rw [bigEndian_length] at hpeeks
  rw [readMemory32, hpeeks, Run.ok_bind, ofBigEndian_longword]
  rfl

theorem writeMemory16_ok {a : UInt32} (v : UInt16) (m : Memory) (hfit : a.toNat + 2 ≤ 0x1000000) :
    writeMemory16 a v m = Except.ok (write m a.toNat (bigEndian 2 v.toNat)) := by
  apply poke_ok
  rw [bigEndian_length]
  exact hfit

theorem writeMemory32_ok {a : UInt32} (v : UInt32) (m : Memory) (hfit : a.toNat + 4 ≤ 0x1000000) :
    writeMemory32 a v m = Except.ok (write m a.toNat (bigEndian 4 v.toNat)) := by
  apply poke_ok
  rw [bigEndian_length]
  exact hfit

theorem readMemory64_shows {a : UInt32} {v : UInt64} (h : Shows m a.toNat (bigEndian 8 v.toNat))
    (hfit : a.toNat + 8 ≤ 0x1000000) : readMemory64 a m = Except.ok v := by
  have hpeeks := peeks_shows h (by rw [bigEndian_length]; exact hfit)
  rw [bigEndian_length] at hpeeks
  have hlt := v.toNat_lt
  have hpow : 256 ^ 8 = 2 ^ 64 := by decide
  rw [readMemory64, hpeeks, Run.ok_bind, ofBigEndian_bigEndian, hpow, Nat.mod_eq_of_lt hlt,
    UInt64.ofNat_toNat]
  rfl

theorem writeMemory64_ok {a : UInt32} (v : UInt64) (m : Memory) (hfit : a.toNat + 8 ≤ 0x1000000) :
    writeMemory64 a v m = Except.ok (write m a.toNat (bigEndian 8 v.toNat)) := by
  apply poke_ok
  rw [bigEndian_length]
  exact hfit

end Longwords

/-! ### Accesses anywhere -/

section Anywhere

variable {m m' : Memory}

/-- The longword that stands at an offset. -/
def longAt (m : Memory) (a : Nat) : UInt32 :=
  UInt32.ofNat (ofBigEndian ((List.range 4).map fun i => m (a + i)))

theorem peeks_eq_ok {a n : Nat} {l : List UInt8} :
    peeks a n m = Except.ok l ↔
      (∀ i < n, Mapped (a + i)) ∧ l = (List.range n).map fun i => m (a + i) := by
  unfold peeks
  split
  · rename_i hmap
    rw [Run.ok_inj, and_iff_right hmap, eq_comm]
  · rename_i hmap
    simp [hmap]

theorem readMemory32_eq_ok {a v : UInt32} :
    readMemory32 a m = Except.ok v ↔ (∀ i < 4, Mapped (a.toNat + i)) ∧ v = longAt m a.toNat := by
  simp only [readMemory32, Run.bind_eq_ok, peeks_eq_ok, Run.pure_eq_ok, Run.ok_inj]
  constructor
  · rintro ⟨l, ⟨hmap, rfl⟩, rfl⟩
    exact ⟨hmap, rfl⟩
  · rintro ⟨hmap, rfl⟩
    exact ⟨_, ⟨hmap, rfl⟩, rfl⟩

/-- The word that stands at an offset. -/
def wordAt (m : Memory) (a : Nat) : UInt16 :=
  UInt16.ofNat (ofBigEndian ((List.range 2).map fun i => m (a + i)))

theorem readMemory16_eq_ok {a : UInt32} {v : UInt16} :
    readMemory16 a m = Except.ok v ↔ (∀ i < 2, Mapped (a.toNat + i)) ∧ v = wordAt m a.toNat := by
  simp only [readMemory16, Run.bind_eq_ok, peeks_eq_ok, Run.pure_eq_ok, Run.ok_inj]
  constructor
  · rintro ⟨l, ⟨hmap, rfl⟩, rfl⟩
    exact ⟨hmap, rfl⟩
  · rintro ⟨hmap, rfl⟩
    exact ⟨_, ⟨hmap, rfl⟩, rfl⟩

theorem writeMemory32_eq_ok {a v : UInt32} :
    writeMemory32 a v m = Except.ok m' ↔
      (∀ i < 4, Mapped (a.toNat + i)) ∧ m' = write m a.toNat (bigEndian 4 v.toNat) := by
  rw [writeMemory32, poke_iff, bigEndian_length]

theorem writeMemory16_eq_ok {a : UInt32} {v : UInt16} :
    writeMemory16 a v m = Except.ok m' ↔
      (∀ i < 2, Mapped (a.toNat + i)) ∧ m' = write m a.toNat (bigEndian 2 v.toNat) := by
  rw [writeMemory16, poke_iff, bigEndian_length]

theorem toNat_longAt (m : Memory) (a : Nat) : (longAt m a).toNat = ofBigEndian (slice m a 4) := by
  have hlt := ofBigEndian_lt (slice m a 4)
  rw [slice_length] at hlt
  exact UInt32.toNat_ofNat_of_lt' hlt

/-- The bytes of a longword, one by one. -/
theorem longAt_toNat (m : Memory) (a : Nat) : (longAt m a).toNat =
    (m a).toNat * 256 ^ 3 + (m (a + 1)).toNat * 256 ^ 2 + (m (a + 2)).toNat * 256 +
      (m (a + 3)).toNat := by
  have hbytes : slice m a 4 = [m a, m (a + 1), m (a + 2), m (a + 3)] := rfl
  have hempty : ofBigEndian [] = 0 := rfl
  rw [toNat_longAt, hbytes]
  simp only [ofBigEndian_cons, List.length_cons, List.length_nil, hempty]
  omega

theorem longAt_congr {a : Nat} (h : ∀ i < 4, m' (a + i) = m (a + i)) : longAt m' a = longAt m a := by
  have hbytes : slice m' a 4 = slice m a 4 := slice_eq_iff.mpr h
  exact congrArg (fun l => UInt32.ofNat (ofBigEndian l)) hbytes

theorem longAt_shows {a : Nat} {v : UInt32} (h : Shows m a (bigEndian 4 v.toNat)) :
    longAt m a = v := by
  have hbytes := h.slice_eq
  rw [bigEndian_length] at hbytes
  calc longAt m a = UInt32.ofNat (ofBigEndian (slice m a 4)) := rfl
    _ = v := by rw [hbytes, ofBigEndian_longword]

@[simp] theorem longAt_write (m : Memory) (a : Nat) (v : UInt32) :
    longAt (write m a (bigEndian 4 v.toNat)) a = v := longAt_shows (shows_write m a _)

/-- A store elsewhere leaves a longword. -/
theorem longAt_write_apart (m : Memory) {a a' : Nat} {l : List UInt8}
    (h : a + 4 ≤ a' ∨ a' + l.length ≤ a) : longAt (write m a' l) a = longAt m a := by
  apply longAt_congr
  intro i hi
  exact write_outside m (by omega)

end Anywhere

/-! ### Strings -/

/-- The text that `m68k_write_string` leaves in front of the NUL. -/
def writtenText (m : Memory) (a : Nat) (value : List UInt8) (maxLen : UInt32) : List UInt8 :=
  if value.length < maxLen.toNat then value
  else value.take maxLen.toNat ++
    if m (a + maxLen.toNat) = 0 then [] else [m (a + maxLen.toNat)]

section Text

variable {m : Memory} {a : Nat} {value : List UInt8} {maxLen : UInt32}

theorem writtenText_short (h : value.length < maxLen.toNat) :
    writtenText m a value maxLen = value := if_pos h

/-- A string that is cut off in front of a zero. -/
theorem writtenText_cut (hge : maxLen.toNat ≤ value.length) (hstale : m (a + maxLen.toNat) = 0) :
    writtenText m a value maxLen = value.take maxLen.toNat := by
  rw [writtenText, if_neg (Nat.not_lt.mpr hge), if_pos hstale, List.append_nil]

/-- A string that is cut off in front of another byte. -/
theorem writtenText_stale (hge : maxLen.toNat ≤ value.length)
    (hstale : m (a + maxLen.toNat) ≠ 0) :
    writtenText m a value maxLen = value.take maxLen.toNat ++ [m (a + maxLen.toNat)] := by
  rw [writtenText, if_neg (Nat.not_lt.mpr hge), if_neg hstale]

theorem length_writtenText_stale (hge : maxLen.toNat ≤ value.length)
    (hstale : m (a + maxLen.toNat) ≠ 0) :
    (writtenText m a value maxLen).length = maxLen.toNat + 1 := by
  rw [writtenText_stale hge hstale, List.length_append, List.length_take, Nat.min_eq_left hge,
    List.length_singleton]

theorem length_writtenText_le (m : Memory) (a : Nat) (value : List UInt8) (maxLen : UInt32) :
    (writtenText m a value maxLen).length ≤ maxLen.toNat + 1 := by
  rcases Nat.lt_or_ge value.length maxLen.toNat with hlt | hge
  · rw [writtenText_short hlt]
    omega
  by_cases hstale : m (a + maxLen.toNat) = 0
  · rw [writtenText_cut hge hstale, List.length_take]
    omega
  · exact Nat.le_of_eq (length_writtenText_stale hge hstale)

end Text

section Loop

variable {a i : Nat} {maxLen : UInt32} {value : List UInt8}

/-- A string that is shorter than `maxLen` is stored with its NUL. -/
theorem writeStringLoop_short (m : Memory) (h : i + value.length < maxLen.toNat) :
    writeStringLoop a maxLen value i m =
      poke (a + i) (value ++ [0]) m >>= fun m' => Except.ok (i + value.length, m') := by
  induction value generalizing i m with
  | nil =>
    rw [writeStringLoop, if_pos (by simpa using h)]
    rfl
  | cons c value ih =>
    simp only [List.length_cons] at h ⊢
    rw [writeStringLoop, if_pos (by omega), List.cons_append,
      ← poke_cons (a + i) c (value ++ [0]), bind_assoc]
    congr 1
    funext m'
    rw [ih m' (by omega), Nat.add_assoc i, Nat.add_comm 1, Nat.add_assoc a]

/-- Of a longer one `maxLen` bytes are stored. -/
theorem writeStringLoop_long (m : Memory) (hi : i ≤ maxLen.toNat)
    (h : maxLen.toNat ≤ i + value.length) :
    writeStringLoop a maxLen value i m =
      poke (a + i) (value.take (maxLen.toNat - i)) m >>= fun m' => Except.ok (maxLen.toNat, m') := by
  induction value generalizing i m with
  | nil =>
    simp only [List.length_nil, Nat.add_zero] at h
    obtain rfl : i = maxLen.toNat := by omega
    rw [writeStringLoop, if_neg (Nat.lt_irrefl _), List.take_nil, poke_nil]
    rfl
  | cons c value ih =>
    simp only [List.length_cons] at h
    rcases Nat.lt_or_ge i maxLen.toNat with hlt | hge
    · have hsub : maxLen.toNat - i = maxLen.toNat - (i + 1) + 1 := by omega
      rw [writeStringLoop, if_pos hlt, hsub, List.take_succ_cons,
        ← poke_cons (a + i) c (value.take _), bind_assoc]
      congr 1
      funext m'
      exact ih m' (by omega) (by omega)
    · obtain rfl : i = maxLen.toNat := by omega
      rw [writeStringLoop, if_neg (Nat.lt_irrefl _), Nat.sub_self, List.take_zero, poke_nil]
      rfl

end Loop

/-- What `m68k_write_string` does behind the loop. -/
theorem writeString_end (a i : Nat) (m : Memory) :
    (peek (a + i) m >>= fun c =>
      if c = 0 then pure (UInt32.ofNat i, m)
      else poke (a + (i + 1)) [0] m >>= fun m => pure (UInt32.ofNat (i + 1), m)) =
    poke (a + i) ((if m (a + i) = 0 then [] else [m (a + i)]) ++ [0]) m >>= fun m' =>
      Except.ok (UInt32.ofNat (i + (if m (a + i) = 0 then [] else [m (a + i)]).length), m') := by
  have hsame := poke_same (a + i) m
  rcases eq_or_ne (m (a + i)) 0 with hstale | hstale
  · rw [hstale] at hsame
    rw [if_pos hstale, List.nil_append, hsame, bind_assoc]
    by_cases hmap : Mapped (a + i)
    · simp only [peek_ok hmap, Run.ok_bind, hstale, if_true]
      rfl
    · rw [peek, if_neg hmap]
      rfl
  · rw [if_neg hstale, List.singleton_append, ← poke_cons (a + i) _ [0], hsame, bind_assoc,
      bind_assoc]
    by_cases hmap : Mapped (a + i)
    · simp only [peek_ok hmap, Run.ok_bind, if_neg hstale]
      rfl
    · rw [peek, if_neg hmap]
      rfl

/-- Every call stores one text and the NUL behind it, and returns the length of the text. -/
theorem writeString_eq (address : UInt32) (value : List UInt8) (maxLen : UInt32) (m : Memory) :
    writeString address value maxLen m =
      poke address.toNat (writtenText m address.toNat value maxLen ++ [0]) m >>= fun m' =>
        Except.ok (UInt32.ofNat (writtenText m address.toNat value maxLen).length, m') := by
  unfold writeString writtenText
  rcases Nat.lt_or_ge value.length maxLen.toNat with hlt | hge
  · rw [if_pos hlt, writeStringLoop_short m (by omega), bind_assoc, Nat.add_zero, Nat.zero_add]
    by_cases hmap : ∀ i < (value ++ [0]).length, Mapped (address.toNat + i)
    · have hnul : write m address.toNat (value ++ [0]) (address.toNat + value.length) = 0 := by
        rw [write_inside m _ (by simp)]
        simp
      have hpeek : peek (address.toNat + value.length) (write m address.toNat (value ++ [0])) =
          Except.ok 0 := peek_eq_ok.mpr ⟨hmap value.length (by simp), hnul⟩
      simp only [poke, if_pos hmap, Run.ok_bind, hpeek, if_true, Run.pure_eq_ok]
    · simp only [poke, if_neg hmap, Run.error_bind]
  · have htake : (value.take maxLen.toNat).length = maxLen.toNat := by
      rw [List.length_take, Nat.min_eq_left hge]
    have happend := poke_append address.toNat (value.take maxLen.toNat)
    rw [htake] at happend
    rw [if_neg (Nat.not_lt.mpr hge), writeStringLoop_long m (Nat.zero_le _) (by omega),
      bind_assoc, Nat.add_zero, Nat.sub_zero, List.append_assoc, ← happend, bind_assoc]
    by_cases hmap : ∀ i < (value.take maxLen.toNat).length, Mapped (address.toNat + i)
    · -- what stands behind the stored bytes is what stood there before
      have hbehind : write m address.toNat (value.take maxLen.toNat)
          (address.toNat + maxLen.toNat) = m (address.toNat + maxLen.toNat) :=
        write_outside m (by omega)
      have hend := writeString_end address.toNat maxLen.toNat
        (write m address.toNat (value.take maxLen.toNat))
      rw [hbehind] at hend
      rw [poke, if_pos hmap, Run.ok_bind, Run.ok_bind, List.length_append, htake]
      exact hend
    · simp only [poke, if_neg hmap, Run.error_bind]

section WriteString

variable {address maxLen : UInt32} {value : List UInt8} {m : Memory} {r : UInt32 × Memory}

theorem writeString_iff :
    writeString address value maxLen m = Except.ok r ↔
      (∀ i ≤ (writtenText m address.toNat value maxLen).length, Mapped (address.toNat + i)) ∧
        r = (UInt32.ofNat (writtenText m address.toNat value maxLen).length,
          write m address.toNat (writtenText m address.toNat value maxLen ++ [0])) := by
  rw [writeString_eq]
  simp only [Run.bind_eq_ok, poke_iff, Run.ok_inj, List.length_append, List.length_singleton,
    Nat.lt_succ_iff]
  constructor
  · rintro ⟨m', ⟨hmap, rfl⟩, rfl⟩
    exact ⟨hmap, rfl⟩
  · rintro ⟨hmap, rfl⟩
    exact ⟨_, ⟨hmap, rfl⟩, rfl⟩

/-- From an address in the lower pages on, the text has to end there. -/
theorem writeString_eq_ok (ha : address.toNat ≤ 0x1000000) :
    writeString address value maxLen m = Except.ok r ↔
      address.toNat + (writtenText m address.toNat value maxLen).length + 1 ≤ 0x1000000 ∧
        r = (UInt32.ofNat (writtenText m address.toNat value maxLen).length,
          write m address.toNat (writtenText m address.toNat value maxLen ++ [0])) := by
  have hpages := @mapped_below address.toNat
    ((writtenText m address.toNat value maxLen).length + 1) ha
  simp only [Nat.lt_succ_iff] at hpages
  rw [writeString_iff, hpages]
  rfl

theorem writeString_short (ha : address.toNat ≤ 0x1000000) (h : value.length < maxLen.toNat) :
    writeString address value maxLen m = Except.ok r ↔
      address.toNat + value.length + 1 ≤ 0x1000000 ∧
        r = (UInt32.ofNat value.length, write m address.toNat (value ++ [0])) := by
  rw [writeString_eq_ok ha, writtenText_short h]

/-- Whatever the string, at most two bytes more than `maxLen` are stored.  A string of
    `maxLen` bytes arrives only where the byte behind it is zero already. -/
theorem writeString_ok (value : List UInt8) (m : Memory)
    (hfit : address.toNat + maxLen.toNat + 2 ≤ 0x1000000) :
    ∃ i l, writeString address value maxLen m = Except.ok (i, write m address.toNat l) ∧
      l.length ≤ maxLen.toNat + 2 ∧
      (value.length ≤ maxLen.toNat →
        (Shows (write m address.toNat l) address.toNat (value ++ [0]) ↔
          value.length < maxLen.toNat ∨ m (address.toNat + maxLen.toNat) = 0)) := by
  have hlen := length_writtenText_le m address.toNat value maxLen
  refine ⟨_, writtenText m address.toNat value maxLen ++ [0],
    (writeString_eq_ok (by omega)).mpr ⟨by omega, rfl⟩, ?_, fun hle => ?_⟩
  · rw [List.length_append, List.length_singleton]
    omega
  rcases Nat.lt_or_ge value.length maxLen.toNat with hlt | hge
  · rw [writtenText_short hlt]
    exact iff_of_true (shows_write _ _ _) (Or.inl hlt)
  have hvalue : value.length = maxLen.toNat := by omega
  by_cases hstale : m (address.toNat + maxLen.toNat) = 0
  · rw [writtenText_cut hge hstale, List.take_of_length_le hle]
    exact iff_of_true (shows_write _ _ _) (Or.inr hstale)
  · rw [writtenText_stale hge hstale, List.take_of_length_le hle]
    refine iff_of_false ?_ (not_or.mpr ⟨Nat.not_lt.mpr hge, hstale⟩)
    intro hshows
    -- the byte behind the string is both the stale one and the NUL
    have hbegins := hshows.begins (shows_write m address.toNat
      (value ++ [m (address.toNat + maxLen.toNat)] ++ [0])) (by simp)
    rw [List.append_assoc, List.prefix_append_right_inj, List.singleton_append,
      List.cons_prefix_cons] at hbegins
    exact hstale hbegins.1.symm

end WriteString

end Memory

end ParaTos
