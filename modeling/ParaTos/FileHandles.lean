/-
  ParaTos/FileHandles.lean
  ========================
  **Calls on file handles** (`gemdos/file.c`).

  A GEMDOS file handle is a file descriptor of the host, and nine calls hand it to
  one native call each and its result back to the guest.  They differ in how they
  tell success from failure: `Fputchar`, `Fread` and `Fwrite` ask for a negative
  result, `Fopen` for one below 1, `Fgetchar` for a positive one, and `Fclose`,
  `Fdup`, `Fseek` and `Fcntl` do not ask at all.

  `kept_iff` says for each of them, and for every outcome of the native call and
  every value that `errno` had before, whether the guest is told what happened.
-/
import ParaTos.Errno
import ParaTos.Memory

namespace ParaTos.FileHandles

/-! ### The host -/

/-- `O_RDONLY`, `O_WRONLY`, `O_RDWR`. -/
inductive Access where
  | rdonly | wronly | rdwr
deriving DecidableEq, Repr

/-- The flags of `open`. -/
structure OpenFlags where
  access : Access
  append : Bool
  creat : Bool
  trunc : Bool
  excl : Bool
  noctty : Bool
  noatime : Bool
  directory : Bool
  nofollow : Bool
  nonblock : Bool
deriving DecidableEq, Repr

/-- What a native call comes to: its result, or the `errno` it fails with. -/
abbrev Outcome := Except Errno Nat

/-- What the native calls come to.  `read` yields the bytes that it stores, and `write`
    is given the bytes behind its pointer. -/
structure Host where
  openPath (path : List UInt8) (flags : OpenFlags) (mode : UInt32) : Outcome
  close (fd : Int32) : Outcome
  dup (fd : Int32) : Outcome
  lseek (fd : Int32) (offset : Int64) (whence : Int32) : Outcome
  read (fd : Int32) (count : UInt64) : Except Errno (List UInt8)
  write (fd : Int32) (buffer : Nat → UInt8) (count : UInt64) : Outcome
  fcntl (fd cmd arg : Int32) : Outcome

/-- What the manual says about native calls: a result fits its C type, at most `count`
    bytes are moved, and `close` returns 0. -/
structure Host.Conforms (host : Host) : Prop where
  openPath : ∀ path flags mode r, host.openPath path flags mode = .ok r → r < 2 ^ 31
  close : ∀ fd r, host.close fd = .ok r → r = 0
  dup : ∀ fd r, host.dup fd = .ok r → r < 2 ^ 31
  lseek : ∀ fd offset whence r, host.lseek fd offset whence = .ok r → r < 2 ^ 63
  read : ∀ fd count l, host.read fd count = .ok l → l.length ≤ count.toNat ∧ l.length < 2 ^ 63
  write : ∀ fd buffer count r, host.write fd buffer count = .ok r → r ≤ count.toNat ∧ r < 2 ^ 63
  fcntl : ∀ fd cmd arg r, host.fcntl fd cmd arg = .ok r → r < 2 ^ 31

/-- The value that a native call returns. -/
def returned : Outcome → Int
  | .ok r => r
  | .error _ => -1

/-- `errno` after a native call, which sets it when it fails. -/
def errnoAfter (errno : Errno) : Outcome → Errno
  | .ok _ => errno
  | .error e => e

/-! ### The calls -/

/-- What a call finds: `errno`, the byte an uninitialised `char` holds, and the emulated
    memory. -/
structure World where
  errno : Errno
  garbage : UInt8
  memory : Memory

variable (host : Host) (w : World)

/-- `mode & bits`, with `mode` promoted to `int`. -/
def hasBits (mode : Int16) (bits : Int32) : Bool := mode.toInt32 &&& bits != 0

/-- The flags that `Fopen` makes of its mode. -/
def openFlags (mode : Int16) : OpenFlags where
  access := if mode &&& 3 = 1 then .wronly else if mode &&& 3 = 2 then .rdwr else .rdonly
  append := hasBits mode 0x08
  creat := hasBits mode 0x200
  trunc := hasBits mode 0x400
  excl := hasBits mode 0x800
  noctty := hasBits mode 0x4000
  noatime := hasBits mode 0x04
  directory := hasBits mode 0x10000
  nofollow := hasBits mode 0x20000
  nonblock := hasBits mode 0x100

/-- `retval = open(…); if (retval < 1) retval = MapErrno();` with an `int16_t retval`. -/
def openResult (errno : Errno) (o : Outcome) : Int16 :=
  let retval := Int16.ofInt (returned o)
  if retval < 1 then (mapErrno (errnoAfter errno o)).toInt16 else retval

/-- `Fopen(filename, mode)`; `path` is what `read_path` makes of the name. -/
def fopen (path : Option (List UInt8)) (mode : Int16) : Int32 :=
  match path with
  | none => tosEpthnf
  | some path => (openResult w.errno (host.openPath path (openFlags mode) 0o777)).toInt32

/-- `Fclose(handle)` -/
def fclose (handle : Int16) : Int16 := Int16.ofInt (returned (host.close handle.toInt32))

/-- `Fdup(handle)` -/
def fdup (handle : Int16) : Int16 := Int16.ofInt (returned (host.dup handle.toInt32))

/-- `Fseek(offset, handle, seekmode)` -/
def fseek (offset : Int32) (handle seekmode : Int16) : Int32 :=
  Int32.ofInt (returned (host.lseek handle.toInt32 offset.toInt64 seekmode.toInt32))

/-- `read(fh, &c, 1)`, and what `c` holds afterwards. -/
def readChar (fh : Int16) : Outcome × UInt8 :=
  match host.read fh.toInt32 1 with
  | .error e => (.error e, w.garbage)
  | .ok [] => (.ok 0, w.garbage)
  | .ok (c :: l) => (.ok (l.length + 1), c)

/-- `Fgetchar(fh, mode)`; `char` is signed. -/
def fgetchar (fh : Int16) (_mode : Int16) : Int32 :=
  let (o, c) := readChar host w fh
  if returned o > 0 then mapErrno (errnoAfter w.errno o) else c.toInt8.toInt32

/-- The result of a native call in an `int32_t`, and `MapErrno` when that is negative. -/
def checked (errno : Errno) (o : Outcome) : Int32 :=
  let retval := Int32.ofInt (returned o)
  if retval < 0 then mapErrno (errnoAfter errno o) else retval

/-- `Fputchar(fh, ch, mode)` -/
def fputchar (fh : Int16) (ch : Int32) (_mode : Int16) : Int32 :=
  checked w.errno (host.write fh.toInt32 (fun _ => ch.toUInt32.toUInt8) 1)

/-- A negative count becomes a huge one. -/
def sizeOf (count : Int32) : UInt64 := count.toInt64.toUInt64

/-- `Fread(handle, count, address)`, and the memory after it. -/
def fread (handle : Int16) (count : Int32) (address : UInt32) : Int32 × Memory :=
  match host.read handle.toInt32 (sizeOf count) with
  | .error e => (checked w.errno (.error e), w.memory)
  | .ok l => (checked w.errno (.ok l.length), Bytes.write w.memory address.toNat l)

/-- `Fwrite(handle, count, address)` -/
def fwrite (handle : Int16) (count : Int32) (address : UInt32) : Int32 :=
  checked w.errno
    (host.write handle.toInt32 (fun i => w.memory (address.toNat + i)) (sizeOf count))

/-- `Fcntl(fh, arg, cmd)`; the commands above 7 are calls of their own, and `other` is
    what they answer. -/
def fcntl (other : Int32) (fh : Int16) (arg : Int32) (cmd : Int16) : Int32 :=
  if cmd ≤ 7 then Int32.ofInt (returned (host.fcntl fh.toInt32 cmd.toInt32 arg)) else other

/-! ### What a call should tell the guest -/

/-- The nine calls, `Fcntl` with the commands that go to the host as they are. -/
inductive Call where
  | fopen (path : Option (List UInt8)) (mode : Int16)
  | fclose (handle : Int16)
  | fdup (handle : Int16)
  | fseek (offset : Int32) (handle seekmode : Int16)
  | fgetchar (fh mode : Int16)
  | fputchar (fh : Int16) (ch : Int32) (mode : Int16)
  | fread (handle : Int16) (count : Int32) (address : UInt32)
  | fwrite (handle : Int16) (count : Int32) (address : UInt32)
  | fcntl (fh : Int16) (arg : Int32) (cmd : Int16) (hcmd : cmd ≤ 7)

/-- The answer to a call. -/
def answer : Call → Int
  | .fopen path mode => (fopen host w path mode).toInt
  | .fclose handle => (fclose host handle).toInt
  | .fdup handle => (fdup host handle).toInt
  | .fseek offset handle seekmode => (fseek host offset handle seekmode).toInt
  | .fgetchar fh mode => (fgetchar host w fh mode).toInt
  | .fputchar fh ch mode => (fputchar host w fh ch mode).toInt
  | .fread handle count address => (fread host w handle count address).1.toInt
  | .fwrite handle count address => (fwrite host w handle count address).toInt
  | .fcntl fh arg cmd _ => (fcntl host 0 fh arg cmd).toInt

/-- How many bits the return type of a call has. -/
def Call.bits : Call → Nat
  | .fclose _ | .fdup _ => 16
  | _ => 32

/-- The byte that `Fgetchar` is asked for; at the end of the file there is none, and the
    result of `read` is 0. -/
def firstByte : List UInt8 → Nat
  | [] => 0
  | c :: _ => c.toNat

/-- What the native call of a call comes to.  `Fopen` makes none when its path cannot be
    read. -/
def native : Call → Option Outcome
  | .fopen path mode => path.map fun path => host.openPath path (openFlags mode) 0o777
  | .fclose handle => some (host.close handle.toInt32)
  | .fdup handle => some (host.dup handle.toInt32)
  | .fseek offset handle seekmode =>
    some (host.lseek handle.toInt32 offset.toInt64 seekmode.toInt32)
  | .fgetchar fh _ => some ((host.read fh.toInt32 1).map firstByte)
  | .fputchar fh ch _ => some (host.write fh.toInt32 (fun _ => ch.toUInt32.toUInt8) 1)
  | .fread handle count _ => some ((host.read handle.toInt32 (sizeOf count)).map List.length)
  | .fwrite handle count address =>
    some (host.write handle.toInt32 (fun i => w.memory (address.toNat + i)) (sizeOf count))
  | .fcntl fh arg cmd _ => some (host.fcntl fh.toInt32 cmd.toInt32 arg)

/-- The guest is told what happened: the result, when it fits the return type, and in any
    case no error after a success; after a failure the code of its `errno`. -/
def Told (bits : Nat) (answer : Int) : Outcome → Prop
  | .ok r => (r < 2 ^ (bits - 1) → answer = r) ∧ 0 ≤ answer
  | .error e => answer = (mapErrno e).toInt

/-- The call does so. -/
def Kept (c : Call) : Prop := ∀ o, native host w c = some o → Told c.bits (answer host w c) o

/-- A number whose low bits are not negative in a signed type. -/
def LowPart (bits r : Nat) : Prop := r % 2 ^ bits < 2 ^ (bits - 1)

/-- The outcomes that the calls without a test get right: `MapErrno` has only one code
    that is -1. -/
def UncheckedMet (bits : Nat) : Outcome → Prop
  | .ok r => LowPart bits r
  | .error e => mapErrno e = -1

/-- The outcomes that the calls with the right test get right. -/
def CheckedMet (errno : Errno) : Outcome → Prop
  | .ok r => LowPart 32 r ∨ errno = .zero
  | .error _ => True

/-- The outcomes that `Fopen` gets right: a descriptor that is positive in an `int16_t`,
    and descriptor 0 with a lucky `errno`. -/
def OpenMet (errno : Errno) : Outcome → Prop
  | .ok r => 0 < r ∧ r < 2 ^ 15 ∨ r = 0 ∧ errno = .zero
  | .error _ => True

/-- The outcomes that `Fgetchar` gets right, all by accident. -/
def GetcharMet (errno : Errno) (garbage : UInt8) : Except Errno (List UInt8) → Prop
  | .ok [] => garbage = 0
  | .ok (c :: _) => c = 0 ∧ errno = .zero
  | .error e => garbage.toInt8.toInt = (mapErrno e).toInt

/-- When a call tells the guest what happened. -/
def Met : Call → Prop
  | .fopen path mode =>
    ∀ p, path = some p → OpenMet w.errno (host.openPath p (openFlags mode) 0o777)
  | .fclose handle => UncheckedMet 16 (host.close handle.toInt32)
  | .fdup handle => UncheckedMet 16 (host.dup handle.toInt32)
  | .fseek offset handle seekmode =>
    UncheckedMet 32 (host.lseek handle.toInt32 offset.toInt64 seekmode.toInt32)
  | .fgetchar fh _ => GetcharMet w.errno w.garbage (host.read fh.toInt32 1)
  | .fputchar _ _ _ => True
  | .fread handle count _ =>
    CheckedMet w.errno ((host.read handle.toInt32 (sizeOf count)).map List.length)
  | .fwrite handle count address => CheckedMet w.errno
    (host.write handle.toInt32 (fun i => w.memory (address.toNat + i)) (sizeOf count))
  | .fcntl fh arg cmd _ => UncheckedMet 32 (host.fcntl fh.toInt32 cmd.toInt32 arg)

/-! ### Results cut to the return type -/

theorem bmod_of_lt {r p : Nat} (h : r < p) : (r : Int).bmod (2 * p) = r := by
  rw [Int.bmod_def, ← Int.natCast_emod, Nat.mod_eq_of_lt (by omega)]
  split <;> omega

theorem bmod_nonneg_iff {r p : Nat} (hp : 0 < p) :
    0 ≤ (r : Int).bmod (2 * p) ↔ r % (2 * p) < p := by
  have hlt : r % (2 * p) < 2 * p := Nat.mod_lt _ (by omega)
  rw [Int.bmod_def, ← Int.natCast_emod]
  generalize r % (2 * p) = q at hlt
  split <;> omega

theorem bmod_neg_one {p : Nat} (hp : 0 < p) : (-1 : Int).bmod (2 * p) = -1 := by
  have hmod : (-1 : Int) % ((2 * p : Nat) : Int) = 2 * p - 1 := by
    rw [Int.emod_eq_iff (by omega)]
    refine ⟨by omega, by omega, ⟨1, by omega⟩⟩
  rw [Int.bmod_def, hmod]
  split <;> omega

theorem toInt_ofInt16 (n : Int) : (Int16.ofInt n).toInt = n.bmod (2 * 2 ^ 15) := Int16.toInt_ofInt

theorem toInt_ofInt32 (n : Int) : (Int32.ofInt n).toInt = n.bmod (2 * 2 ^ 31) := Int32.toInt_ofInt

/-! ### Error codes -/

theorem mapErrno_toInt16 (e : Errno) : (mapErrno e).toInt16.toInt32 = mapErrno e := by
  cases e <;> rfl

theorem mapErrno_toInt_neg {e : Errno} (h : e ≠ .zero) : (mapErrno e).toInt < 0 :=
  Int32.lt_iff_toInt_lt.mp (mapErrno_neg h)

/-- `MapErrno` answers an error for every `errno` but 0. -/
theorem mapErrno_nonneg_iff {e : Errno} : 0 ≤ (mapErrno e).toInt ↔ e = .zero := by
  constructor
  · intro h
    by_contra hne
    have hneg := mapErrno_toInt_neg hne
    omega
  · rintro rfl
    decide

theorem mapErrno_nonpos (e : Errno) : (mapErrno e).toInt ≤ 0 := by
  by_cases h : e = .zero
  · rw [h]
    decide
  · have hneg := mapErrno_toInt_neg h
    omega

/-! ### The kinds of tests -/

/-- A result without a test. -/
theorem told_unchecked {p bits : Nat} (hp : 0 < p) (hlow : 2 ^ (bits - 1) = p)
    (hbits : 2 ^ bits = 2 * p) (o : Outcome) :
    Told bits ((returned o).bmod (2 * p)) o ↔ UncheckedMet bits o := by
  cases o with
  | ok r =>
    simp only [Told, returned, UncheckedMet, LowPart, hlow, hbits]
    rw [bmod_nonneg_iff hp]
    exact ⟨fun h => h.2, fun h => ⟨bmod_of_lt, h⟩⟩
  | error e =>
    simp only [Told, returned, UncheckedMet]
    rw [bmod_neg_one hp, ← Int32.toInt_inj]
    exact eq_comm

/-- A result with the test for a negative one. -/
theorem told_checked (errno : Errno) (o : Outcome) :
    Told 32 (checked errno o).toInt o ↔ CheckedMet errno o := by
  cases o with
  | ok r =>
    have hval := toInt_ofInt32 r
    have hsign : 0 ≤ (r : Int).bmod (2 * 2 ^ 31) ↔ LowPart 32 r := bmod_nonneg_iff (by decide)
    have hneg : Int32.ofInt r < 0 ↔ ¬ LowPart 32 r := by
      rw [Int32.lt_iff_toInt_lt, hval, ← hsign]
      exact Int.not_le.symm
    by_cases hlow : LowPart 32 r
    · have hanswer : checked errno (.ok r) = Int32.ofInt r := if_neg fun h => hneg.mp h hlow
      rw [hanswer, hval]
      exact iff_of_true ⟨bmod_of_lt, hsign.mpr hlow⟩ (Or.inl hlow)
    · have hanswer : checked errno (.ok r) = mapErrno errno := if_pos (hneg.mpr hlow)
      simp only [Told, CheckedMet, hanswer, hlow, false_or]
      rw [mapErrno_nonneg_iff]
      refine ⟨fun h => h.2, fun h => ⟨?_, h⟩⟩
      intro hlt
      exact absurd (Nat.lt_of_le_of_lt (Nat.mod_le _ _) hlt) hlow
  | error e => exact iff_of_true rfl trivial

/-- A descriptor with the test of `Fopen`. -/
theorem told_open (errno : Errno) {o : Outcome} (hfits : ∀ r, o = .ok r → r < 2 ^ 31) :
    Told 32 (openResult errno o).toInt32.toInt o ↔ OpenMet errno o := by
  cases o with
  | ok r =>
    have hr : r < 2 ^ (32 - 1) := hfits r rfl
    have hval := toInt_ofInt16 r
    have hone : Int16.ofInt r < 1 ↔ (r : Int).bmod (2 * 2 ^ 15) < 1 := by
      rw [Int16.lt_iff_toInt_lt, hval]
      rfl
    simp only [Told, OpenMet, hr, forall_const]
    by_cases hlt : Int16.ofInt r < 1
    · have hanswer : (openResult errno (.ok r)).toInt32 = mapErrno errno := by
        rw [← mapErrno_toInt16 errno]
        exact congrArg Int16.toInt32 (if_pos hlt)
      rw [hone] at hlt
      have hnonpos := mapErrno_nonpos errno
      rw [hanswer, ← mapErrno_nonneg_iff]
      constructor
      · rintro ⟨heq, hnonneg⟩
        right
        omega
      · rintro (⟨hpos, hfit⟩ | ⟨rfl, hnonneg⟩)
        · rw [bmod_of_lt hfit] at hlt
          omega
        · omega
    · have hanswer : openResult errno (.ok r) = Int16.ofInt r := if_neg hlt
      rw [hone] at hlt
      rw [hanswer, Int16.toInt_toInt32, hval]
      constructor
      · rintro ⟨heq, -⟩
        left
        have hbound := @Int.bmod_lt r (2 * 2 ^ 15) (by decide)
        omega
      · rintro (⟨hpos, hfit⟩ | ⟨rfl, -⟩)
        · rw [bmod_of_lt hfit]
          omega
        · exact absurd (by decide) hlt
  | error e =>
    have hneg : Int16.ofInt (returned (.error e)) < 1 := by
      rw [returned]
      decide
    have hanswer : openResult errno (.error e) = (mapErrno e).toInt16 := by
      rw [openResult, if_pos hneg]
      rfl
    refine iff_of_true ?_ trivial
    rw [hanswer, mapErrno_toInt16]
    rfl

section Calls

variable {host : Host} {w : World}

/-- `Fgetchar` answers a code of `MapErrno` when it has read a byte, and whatever was on
    the stack when it has not. -/
theorem told_getchar (fh mode : Int16) :
    Told 32 (fgetchar host w fh mode).toInt ((host.read fh.toInt32 1).map firstByte) ↔
      GetcharMet w.errno w.garbage (host.read fh.toInt32 1) := by
  generalize ho : host.read fh.toInt32 1 = o
  cases o with
  | error e =>
    have hanswer : fgetchar host w fh mode = w.garbage.toInt8.toInt32 := by
      simp [fgetchar, readChar, ho, returned]
    rw [hanswer, Int8.toInt_toInt32]
    rfl
  | ok l =>
    cases l with
    | nil =>
      have hanswer : fgetchar host w fh mode = w.garbage.toInt8.toInt32 := by
        simp [fgetchar, readChar, ho, returned]
      have hzero : w.garbage.toInt8.toInt = 0 ↔ w.garbage = 0 :=
        (@Int8.toInt_inj w.garbage.toInt8 0).trans
          ⟨congrArg Int8.toUInt8, fun h => congrArg UInt8.toInt8 h⟩
      simp only [Except.map, Told, firstByte, GetcharMet, hanswer, Int8.toInt_toInt32]
      rw [← hzero]
      omega
    | cons c l =>
      have hanswer : fgetchar host w fh mode = mapErrno w.errno := by
        simp only [fgetchar, readChar, ho, returned]
        rw [if_pos (by omega)]
        rfl
      have hc := c.toNat_lt
      have hnonpos := mapErrno_nonpos w.errno
      have hzero : c = 0 ↔ c.toNat = 0 := UInt8.toNat_inj.symm
      simp only [Except.map, Told, firstByte, GetcharMet, hanswer]
      rw [← mapErrno_nonneg_iff, hzero]
      omega

theorem kept_of_native {c : Call} {o : Outcome} (h : native host w c = some o) :
    Kept host w c ↔ Told c.bits (answer host w c) o := by
  simp [Kept, h]

end Calls

/-! ### A host where the calls go wrong -/

/-- Standard input is closed, so that `open` finds descriptor 0 free; it holds the letter
    A; all other descriptors are bad. -/
def sampleHost : Host where
  openPath _ _ _ := .ok 0
  close fd := if fd = 0 then .ok 0 else .error .ebadf
  dup _ := .error .ebadf
  lseek _ _ _ := .error .ebadf
  read fd count := if fd = 0 ∧ 0 < count then .ok [65] else .error .ebadf
  write _ _ _ := .error .ebadf
  fcntl _ _ _ := .error .ebadf

theorem sampleHost_conforms : sampleHost.Conforms where
  openPath := by
    rintro path flags mode r ⟨⟩
    decide
  close := by
    intro fd r h
    simp only [sampleHost] at h
    split at h
    · cases h
      rfl
    · cases h
  dup := by
    rintro fd r ⟨⟩
  lseek := by
    rintro fd offset whence r ⟨⟩
  read := by
    intro fd count l h
    simp only [sampleHost] at h
    split at h
    · rename_i hcond
      cases h
      exact ⟨UInt64.lt_iff_toNat_lt.mp hcond.2, by decide⟩
    · cases h
  write := by
    rintro fd buffer count r ⟨⟩
  fcntl := by
    rintro fd cmd arg r ⟨⟩

/-- Before the calls `errno` is left over from a file that was not found. -/
def staleWorld : World := ⟨.enoent, 0, fun _ => 0⟩

end ParaTos.FileHandles
