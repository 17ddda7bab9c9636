/-
  ParaTos/Dir.lean
  ================
  **Directory handles** (`gemdos/dir.c`).

  `Dopendir` opens a stream of the host, asks the memory manager for a block of 16
  bytes, stores the host's pointer there and returns the address of the block.  That
  address is the handle: `Dreaddir`, `Drewinddir` and `Dclosedir` read the pointer
  back from whatever address they are given and follow it.

  The lemmas at the end say what the calls do with a handle that is good.
-/
import ParaTos.Errno
import ParaTos.Memory
import ParaTos.Streams

namespace ParaTos.Dir

open Bytes Streams

/-- `struct dirent`: `d_ino` and `d_name`. -/
structure Dirent where
  ino : UInt64
  name : List UInt8
deriving DecidableEq, Repr

/-- The emulated memory, the memory manager, the streams of the host and `errno`. -/
structure State where
  memory : Memory
  blocks : Mem.State
  host : Host Dirent
  errno : Errno

/-! ### The calls -/

/-- `Dopendir(name, flag)`.  `path` is what `read_path` makes of the name, and `found`
    the stream that `opendir` yields for it, its pointer and its entries. -/
def dopendir (path : Option (List UInt8)) (flag : Int16) (found : Option (UInt64 × List Dirent))
    (s : State) : Run (Int32 × State) :=
  if flag = 1 then Except.ok (tosEnosys, s) else
  match path with
  | none => Except.ok (tosEpthnf, s)
  | some _ =>
    match found with
    | none => Except.ok (tosEpthnf, s)
    | some (dirP, entries) => do
      let host := opendir dirP entries s.host
      let (retval, blocks) ← Mem.malloc 16 s.blocks
      let memory ← Memory.writeMemory64 retval dirP s.memory
      return (retval.toInt32, { s with memory, blocks, host })

/-- `NAME_MAX` -/
def nameMax : UInt32 := 255

/-- `Dreaddir(len, dirhandle, buf)`; it pays no attention to `len`. -/
def dreaddir (_len : Int16) (dirhandle buf : UInt32) (s : State) : Run (Int32 × State) := do
  let dirP ← Memory.readMemory64 dirhandle s.memory
  let (entry, host) ← readdir dirP s.host
  match entry with
  | none => return (if s.errno ≠ .zero then tosEihndl else tosEnmfil, { s with host })
  | some entry =>
    let memory ← Memory.writeMemory32 buf entry.ino.toUInt32 s.memory
    let (_, memory) ← Memory.writeString (buf + 4) entry.name nameMax memory
    return (Mem.tosEOk, { s with memory, host })

/-- `Drewinddir(dirhandle)` -/
def drewinddir (dirhandle : UInt32) (s : State) : Run (Int32 × State) := do
  let dirP ← Memory.readMemory64 dirhandle s.memory
  let host ← rewinddir dirP s.host
  return (Mem.tosEOk, { s with host })

/-- `Dclosedir(dirhandle)`; `closedir` of an open stream does not fail. -/
def dclosedir (dirhandle : UInt32) (s : State) : Run (Int32 × State) := do
  let dirP ← Memory.readMemory64 dirhandle s.memory
  let (retval, blocks) ← Mem.mfree dirhandle s.blocks
  if retval < 0 then return (retval, { s with blocks })
  let host ← closedir dirP s.host
  return (retval, { s with blocks, host })

/-! ### A good handle -/

/-- A pointer stands at an address in the RAM. -/
structure PointsTo (m : Memory) (a : UInt32) (p : UInt64) : Prop where
  shows : Shows m a.toNat (bigEndian 8 p.toNat)
  fits : a.toNat + 8 ≤ 0x1000000

theorem PointsTo.read {m : Memory} {a : UInt32} {p : UInt64} (h : PointsTo m a p) :
    Memory.readMemory64 a m = Except.ok p := Memory.readMemory64_shows h.shows h.fits

/-- A write apart from the pointer. -/
theorem PointsTo.write {m : Memory} {a : UInt32} {p : UInt64} (h : PointsTo m a p) {b : Nat}
    {l : List UInt8} (hapart : b + l.length ≤ a.toNat ∨ a.toNat + 8 ≤ b) :
    PointsTo (write m b l) a p where
  shows := h.shows.write (by rw [bigEndian_length]; omega)
  fits := h.fits

/-- What `Dreaddir` stores in its buffer: the entry's index, and its name with a NUL. -/
def delivered (entry : Dirent) : List UInt8 :=
  bigEndian 4 entry.ino.toUInt32.toNat ++ (entry.name ++ [0])

/-- A buffer in the RAM with room for everything that `Dreaddir` may store. -/
def BufferFits (buf : UInt32) : Prop := buf.toNat + 4 + nameMax.toNat + 2 ≤ 0x1000000

section Reading

variable {s : State} {dirhandle buf : UInt32} {p : UInt64} {d : Stream Dirent} {len : Int16}

/-- At the end of the directory. -/
theorem dreaddir_end (hp : PointsTo s.memory dirhandle p) (hd : s.host.streams p = some d)
    (hend : d.entries[d.pos]? = none) :
    dreaddir len dirhandle buf s =
      Except.ok (if s.errno ≠ .zero then tosEihndl else tosEnmfil,
        { s with host := { s.host with log := .read d.id :: s.host.log } }) := by
  simp [dreaddir, hp.read, readdir_none hd hend]

/-- Before the end an entry is stored, in at most 261 bytes, and the stream moves on.  A
    name of `NAME_MAX` bytes is taken to go on where the buffer is not zero behind it. -/
theorem dreaddir_entry {entry : Dirent} (hp : PointsTo s.memory dirhandle p)
    (hd : s.host.streams p = some d) (hentry : d.entries[d.pos]? = some entry)
    (hfits : BufferFits buf) : ∃ l,
      dreaddir len dirhandle buf s = Except.ok (Mem.tosEOk, { s with
        memory := write s.memory buf.toNat l
        host := { s.host with
          streams := Function.update s.host.streams p (some { d with pos := d.pos + 1 })
          log := .read d.id :: s.host.log } }) ∧
      l.length ≤ 261 ∧
      (entry.name.length ≤ nameMax.toNat →
        (Shows (write s.memory buf.toNat l) buf.toNat (delivered entry) ↔
          entry.name.length < nameMax.toNat ∨ s.memory (buf.toNat + 4 + nameMax.toNat) = 0)) := by
  have hmax : nameMax.toNat = 255 := rfl
  unfold BufferFits at hfits
  have hbuf : (buf + 4).toNat = buf.toNat + 4 := @Memory.toNat_advance buf 4 (by omega)
  let index := bigEndian 4 entry.ino.toUInt32.toNat
  have hindex : index.length = 4 := bigEndian_length _ _
  have hino : Memory.writeMemory32 buf entry.ino.toUInt32 s.memory =
      Except.ok (write s.memory buf.toNat index) := Memory.writeMemory32_ok _ _ (by omega)
  obtain ⟨i, l, hname, hlen, hshows⟩ := @Memory.writeString_ok (buf + 4) nameMax entry.name
    (write s.memory buf.toNat index) (by omega)
  -- the index and the name are one write
  have hjoin := write_append s.memory buf.toNat index l
  rw [hindex] at hjoin
  rw [hbuf, hjoin] at hname hshows
  refine ⟨index ++ l, ?_, ?_, ?_⟩
  · simp [dreaddir, hp.read, readdir_some hd hentry, hino, hname]
  · rw [List.length_append]
    omega
  · intro hle
    have hstale : write s.memory buf.toNat index (buf.toNat + 4 + nameMax.toNat) =
        s.memory (buf.toNat + 4 + nameMax.toNat) := write_outside _ (by omega)
    have hfront : Shows (write s.memory buf.toNat (index ++ l)) buf.toNat index :=
      (shows_append.mp (shows_write _ _ _)).1
    have hsplit := hshows hle
    rw [hstale] at hsplit
    rw [← hsplit, delivered, shows_append, bigEndian_length]
    exact ⟨fun h => h.2, fun h => ⟨hfront, h⟩⟩

theorem drewinddir_open (hp : PointsTo s.memory dirhandle p) (hd : s.host.streams p = some d) :
    drewinddir dirhandle s = Except.ok (Mem.tosEOk, { s with host := { s.host with
      streams := Function.update s.host.streams p (some { d with pos := 0 })
      log := .rewound d.id :: s.host.log } }) := by
  simp [drewinddir, hp.read, rewinddir_open hd]

end Reading

end ParaTos.Dir
