/-
  ParaTos/HostStrings.lean
  ========================
  **Strings of the host in a buffer of the guest** (`m68k_write_string` in `memory.c`,
  `Dgetcwd` and `Dreaddir` in `gemdos/dir.c`, `Freadlink` in `gemdos/file.c`).

  `m68k_write_string` is meant to store a string that `maxLen` cuts off, to put a NUL
  behind it and to return its length.  Behind a string that was cut off it looks at the
  byte that memory held before, and takes it for a part of the string unless it is zero.

  Three calls hand a string of the host to a buffer whose size the guest gives as a
  signed word.  `Dgetcwd` compares it with an unsigned length, so that a negative size
  is larger than any string, `Dreaddir` does not look at it, and `Freadlink` leaves it
  to the host.
-/
import ParaTos.Dir
import ParaTos.FileHandles

namespace ParaTos

namespace Memory

open Bytes CString

/-! ### The prefix of a string -/

/-- The length of the prefix that a call is to store. -/
def prefixLength (value : List UInt8) (maxLen : UInt32) : Nat := min value.length maxLen.toNat

/-- What a call is to do: store the prefix with a NUL behind it, return its length and
    leave every other byte alone. -/
def StoresPrefix (address : UInt32) (value : List UInt8) (maxLen : UInt32) (m : Memory) : Prop :=
  ∃ m', writeString address value maxLen m =
      Except.ok (UInt32.ofNat (prefixLength value maxLen), m') ∧
    Shows m' address.toNat (value.take (prefixLength value maxLen) ++ [0]) ∧
    ∀ x, x < address.toNat ∨ address.toNat + prefixLength value maxLen < x → m' x = m x

variable {address maxLen : UInt32} {value : List UInt8} {m : Memory}

/-- Where the string is not cut off, or cut off in front of a zero, its prefix is stored. -/
theorem writtenText_take
    (h : value.length < maxLen.toNat ∨ m (address.toNat + maxLen.toNat) = 0) :
    writtenText m address.toNat value maxLen = value.take (prefixLength value maxLen) := by
  unfold prefixLength
  rcases Nat.lt_or_ge value.length maxLen.toNat with hlt | hge
  · rw [writtenText_short hlt, Nat.min_eq_left (Nat.le_of_lt hlt), List.take_length]
  · rw [writtenText_cut hge (h.resolve_left (Nat.not_lt.mpr hge)), Nat.min_eq_right hge]

theorem take_prefixLength_length (value : List UInt8) (maxLen : UInt32) :
    (value.take (prefixLength value maxLen)).length = prefixLength value maxLen := by
  rw [List.length_take]
  exact Nat.min_eq_left (Nat.min_le_left _ _)

theorem prefixLength_le_writtenText (a : Nat) (value : List UInt8) (maxLen : UInt32)
    (m : Memory) : prefixLength value maxLen ≤ (writtenText m a value maxLen).length := by
  unfold prefixLength writtenText
  split
  · exact Nat.min_le_left _ _
  · rw [List.length_append, List.length_take, Nat.min_comm]
    exact Nat.le_add_right _ _

/-- `m68k_write_string` stores the prefix exactly where it may store to it, and where no
    byte other than zero stands behind a string that is cut off. -/
theorem writeString_stores_prefix_iff (address : UInt32) (value : List UInt8) (maxLen : UInt32)
    (m : Memory) : StoresPrefix address value maxLen m ↔
      (∀ i ≤ prefixLength value maxLen, Mapped (address.toNat + i)) ∧
        (value.length < maxLen.toNat ∨ m (address.toNat + maxLen.toNat) = 0) := by
  have hlen := take_prefixLength_length value maxLen
  constructor
  · rintro ⟨m', hrun, -, -⟩
    obtain ⟨hmap, hret⟩ := writeString_iff.mp hrun
    by_cases h : value.length < maxLen.toNat ∨ m (address.toNat + maxLen.toNat) = 0
    · rw [writtenText_take h, hlen] at hmap
      exact ⟨hmap, h⟩
    · -- one byte too many is counted, and the count does not wrap to the right one
      obtain ⟨hge, hstale⟩ := not_or.mp h
      have hge := Nat.le_of_not_lt hge
      have hcount := congrArg (fun r => r.1.toNat) hret
      simp only [length_writtenText_stale hge hstale, prefixLength, Nat.min_eq_right hge,
        UInt32.toNat_ofNat'] at hcount
      have hlt := maxLen.toNat_lt
      omega
  · rintro ⟨hmap, h⟩
    have htext := @writtenText_take address maxLen value m h
    refine ⟨_, writeString_iff.mpr ⟨?_, Prod.ext ?_ rfl⟩, ?_, ?_⟩
    · rw [htext, hlen]
      exact hmap
    · rw [htext, hlen]
    · rw [htext]
      exact shows_write _ _ _
    · intro x hx
      apply write_outside
      rw [htext, List.length_append, hlen, List.length_singleton]
      omega

/-- `BuildTosArglist` stores `ARGV=` with a limit of five characters.  In front of a byte
    that is not zero the call says that it stored six. -/
theorem writeString_argv_stale :
    ¬ StoresPrefix 0x10000 (ascii "ARGV=") 5 (write initM68KMemory 0x10005 [65]) := by
  rintro ⟨m', hrun, -, -⟩
  have hcount := congrArg Prod.fst (writeString_iff.mp hrun).2
  have hsix : UInt32.ofNat (prefixLength (ascii "ARGV=") 5) ≠
      UInt32.ofNat (writtenText (write initM68KMemory 0x10005 [65]) 0x10000 (ascii "ARGV=")
        5).length := by decide
  exact hsix hcount

end Memory

namespace HostStrings

open Bytes Memory Words

/-! ### The calls -/

def tosEdrive : Int32 := -46
def tosEnametoolong : Int32 := -86

/-- `Dgetcwd(path, driveno, size)`; `unixPath` is what `get_current_dir_name` returns.  The
    comparison with `required` is one of values of type `size_t`. -/
def dgetcwd (unixPath : Option (List UInt8)) (path : UInt32) (driveno size : Int16) (m : Memory) :
    Run (Int32 × Memory) :=
  if driveno = 0 ∨ driveno = 21 then do
    let unixPath ← Run.ofOption .badPointer unixPath
    let required := unixPath.length + 1
    if required ≤ size.toInt64.toUInt64.toNat then do
      let (_, m) ← writeString path unixPath size.toInt32.toUInt32 m
      return (Mem.tosEOk, m)
    else return (tosEnametoolong, m)
  else return (tosEdrive, m)

/-- `EFAULT`, for which `MapErrno` has no case. -/
def efault : Errno := .other 14

/-- `readlink(path, buffer, bufsiz)`, where `target` is what the host finds at the path.  When
    the buffer runs into a page that is not mapped, some of the bytes may have arrived. -/
def readlink (target : Except Errno (List UInt8)) (arrived : Nat) (buffer : Nat) (bufsiz : Int16)
    (m : Memory) : FileHandles.Outcome × Memory :=
  if bufsiz ≤ 0 then (.error .einval, m)
  else
    match target with
    | .error e => (.error e, m)
    | .ok target =>
      let l := target.take bufsiz.toNatClampNeg
      if ∀ i < l.length, Mapped (buffer + i) then (.ok l.length, write m buffer l)
      else (.error efault, write m buffer (l.take arrived))

/-- `Freadlink(bufsiz, buf, filename)`; `path` is what `read_path` makes of the name. -/
def freadlink (path : Option (List UInt8)) (target : List UInt8 → Except Errno (List UInt8))
    (arrived : Nat) (errno : Errno) (bufsiz : Int16) (buf : UInt32) (m : Memory) :
    Int32 × Memory :=
  match path with
  | none => (tosEpthnf, m)
  | some path =>
    let (o, m) := readlink (target path) arrived buf.toNat bufsiz m
    (FileHandles.checked errno o, m)

/-! ### The buffer of the guest -/

/-- The bytes of a buffer.  Like every address of the processor, those in it wrap. -/
def InBuffer (buf : UInt32) (size : Int16) (x : Nat) : Prop :=
  ∃ i < size.toNatClampNeg, x = (buf + UInt32.ofNat i).toNat

/-- A call that returns has changed nothing outside the buffer. -/
def Stays (buf : UInt32) (size : Int16) (m : Memory) (run : Run (Int32 × Memory)) : Prop :=
  ∀ r m', run = Except.ok (r, m') → ∀ x, Mapped x → ¬ InBuffer buf size x → m' x = m x

section Stays

variable {buf : UInt32} {size : Int16} {m : Memory} {l : List UInt8} {o x : Nat}

/-- An offset from an address in the buffer that is not beyond the address space. -/
theorem toNat_offset (h : (buf + UInt32.ofNat o).toNat + x < 2 ^ 32) :
    (buf + UInt32.ofNat (o + x)).toNat = (buf + UInt32.ofNat o).toNat + x := by
  have hx : (UInt32.ofNat x).toNat = x := by
    rw [UInt32.toNat_ofNat']
    omega
  rw [← advance_advance, uint32_add (by omega), hx]

/-- A store that ends inside the buffer. -/
theorem write_stays (hlen : o + l.length ≤ size.toNatClampNeg) (hx : Mapped x)
    (hout : ¬ InBuffer buf size x) : write m (buf + UInt32.ofNat o).toNat l x = m x := by
  apply write_outside
  by_contra hin
  have hlt := mapped_lt hx
  obtain ⟨j, rfl⟩ : ∃ j, x = (buf + UInt32.ofNat o).toNat + j :=
    ⟨x - (buf + UInt32.ofNat o).toNat, by omega⟩
  exact hout ⟨o + j, by omega, (toNat_offset hlt).symm⟩

/-- An offset leads into the buffer exactly when it is smaller than its size. -/
theorem inBuffer_iff {i : Nat} (hi : i < 2 ^ 32) :
    InBuffer buf size (buf + UInt32.ofNat i).toNat ↔ i < size.toNatClampNeg := by
  have hsize := size.toNatClampNeg_lt
  constructor
  · rintro ⟨j, hj, heq⟩
    have hsame : UInt32.ofNat i = UInt32.ofNat j := by
      have h := UInt32.toNat_inj.mp heq
      exact (UInt32.add_right_inj buf).mp h
    have hnat := congrArg UInt32.toNat hsame
    rw [UInt32.toNat_ofNat', UInt32.toNat_ofNat'] at hnat
    omega
  · intro h
    exact ⟨i, h, rfl⟩

/-- No stretch of pages is longer than sixteen megabytes. -/
theorem stretch_lt {a n : Nat} (h : ∀ i ≤ n, Mapped (a + i)) : n < 0x1000000 := by
  have hsz : Mem.memorySz.toNat = 0x1000000 := rfl
  have hlast := mapped_lt (h n (Nat.le_refl n))
  rcases h 0 (Nat.zero_le n) with hlow | ⟨hhigh, -⟩
  · have hend := (@mapped_below a (n + 1) (by omega)).mp fun i hi => h i (Nat.lt_succ_iff.mp hi)
    omega
  · omega

end Stays

/-! ### `Dgetcwd` -/

section Dgetcwd

variable {path : UInt32} {driveno size : Int16} {cwd : List UInt8}

theorem toNatClampNeg_of_neg (h : ¬ 0 ≤ size) : size.toNatClampNeg = 0 := by
  rw [Int16.le_iff_toInt_le, Int16.toInt_zero] at h
  exact Int.toNat_of_nonpos (by omega)

/-- In either unsigned type a negative size is larger than any string. -/
theorem unsigned_of_neg (h : ¬ 0 ≤ size) :
    2 ^ 64 - 2 ^ 15 ≤ size.toInt64.toUInt64.toNat ∧
      2 ^ 32 - 2 ^ 15 ≤ size.toInt32.toUInt32.toNat := by
  have hmin := size.le_toInt
  rw [Int16.le_iff_toInt_le, Int16.toInt_zero] at h
  constructor
  · have h64 := Int16.toInt_toInt64 size
    have hbits : size.toInt64.toInt = size.toInt64.toUInt64.toBitVec.toInt := rfl
    rw [hbits, BitVec.toInt_eq_toNat_cond, UInt64.toNat_toBitVec] at h64
    split at h64 <;> omega
  · rw [toNat_toUInt32, Int16.toInt_toInt32]
    omega

/-- Another one is what it was. -/
theorem unsigned_of_nonneg (h : 0 ≤ size) :
    size.toInt64.toUInt64.toNat = size.toNatClampNeg ∧
      size.toInt32.toUInt32.toNat = size.toNatClampNeg := by
  have h64 : 0 ≤ size.toInt64 := by
    rw [Int64.le_iff_toInt_le, Int16.toInt_toInt64]
    exact Int16.le_iff_toInt_le.mp h
  have h32 : 0 ≤ size.toInt32 := by
    rw [Int32.le_iff_toInt_le, Int16.toInt_toInt32]
    exact Int16.le_iff_toInt_le.mp h
  rw [Int64.toNat_toUInt64_of_le h64, Int32.toNat_toUInt32_of_le h32]
  exact ⟨Int16.toNatClampNeg_toInt64 size, Int16.toNatClampNeg_toInt32 size⟩

/-- When the current drive is the root file system, the string arrives if its length passes
    for smaller than the size, and nothing is stored otherwise. -/
theorem dgetcwd_eq_ok {m : Memory} {r : Int32 × Memory}
    (hrun : dgetcwd (some cwd) path driveno size m = Except.ok r) :
    r.2 = m ∨ (driveno = 0 ∨ driveno = 21) ∧ cwd.length + 1 ≤ size.toInt64.toUInt64.toNat ∧
      ∃ i, writeString path cwd size.toInt32.toUInt32 m = Except.ok (i, r.2) := by
  unfold dgetcwd at hrun
  split at hrun
  · rename_i hdrive
    rw [Run.ofOption_some, Run.ok_bind] at hrun
    dsimp only at hrun
    split at hrun
    · rename_i hroom
      obtain ⟨⟨i, m'⟩, hwrite, hret⟩ := Run.bind_eq_ok.mp hrun
      cases hret
      exact Or.inr ⟨hdrive, hroom, i, hwrite⟩
    · cases hrun
      exact Or.inl rfl
  · cases hrun
    exact Or.inl rfl

/-- A size that is not negative is larger than a string that passes for smaller. -/
theorem dgetcwd_stays (hsize : 0 ≤ size) (m : Memory) :
    Stays path size m (dgetcwd (some cwd) path driveno size m) := by
  intro r m' hrun x hx hout
  rcases dgetcwd_eq_ok hrun with hm | ⟨-, hroom, i, hwrite⟩
  · exact congrFun hm x
  obtain ⟨h64, h32⟩ := unsigned_of_nonneg hsize
  obtain ⟨-, hret⟩ := writeString_iff.mp hwrite
  have hshort : cwd.length < size.toInt32.toUInt32.toNat := by omega
  have htext := @writtenText_short m path.toNat _ _ hshort
  rw [htext] at hret
  have hm' : m' = write m path.toNat (cwd ++ [0]) := congrArg Prod.snd hret
  have hpath : (path + UInt32.ofNat 0).toNat = path.toNat := by simp
  have hstay := @write_stays path size m (cwd ++ [0]) 0 x (by simp; omega) hx hout
  rw [hpath] at hstay
  rw [hm']
  exact hstay

/-- A negative size lets every string through.  Over a memory of ones its NUL is seen, and it
    is outside. -/
theorem dgetcwd_overruns (hdrive : driveno = 0 ∨ driveno = 21) (hsize : ¬ 0 ≤ size)
    (hmap : ∀ i ≤ cwd.length, Mapped (path.toNat + i)) :
    ¬ Stays path size (fun _ => 1) (dgetcwd (some cwd) path driveno size fun _ => 1) := by
  have hlen := stretch_lt hmap
  obtain ⟨h64, h32⟩ := unsigned_of_neg hsize
  have hshort : cwd.length < size.toInt32.toUInt32.toNat := by omega
  have htext := @writtenText_short (fun _ => 1) path.toNat _ _ hshort
  have hwrite := (@writeString_iff path size.toInt32.toUInt32 cwd (fun _ => 1) _).mpr
    ⟨by rwa [htext], rfl⟩
  rw [htext] at hwrite
  have hrun : dgetcwd (some cwd) path driveno size (fun _ => 1) =
      Except.ok (Mem.tosEOk, write (fun _ => 1) path.toNat (cwd ++ [0])) := by
    rw [dgetcwd, if_pos hdrive, Run.ofOption_some, Run.ok_bind]
    dsimp only
    rw [if_pos (by omega), hwrite]
    rfl
  have hout : ¬ InBuffer path size (path.toNat + cwd.length) := by
    rintro ⟨i, hi, -⟩
    rw [toNatClampNeg_of_neg hsize] at hi
    exact Nat.not_lt_zero i hi
  intro h
  have hsame := h _ _ hrun _ (hmap _ (Nat.le_refl _)) hout
  rw [write_inside _ _ (by simp)] at hsame
  simp at hsame

/-- A call that stores anything for a negative size needs the pages of the whole string. -/
theorem dgetcwd_pages {m : Memory} {i : UInt32 × Memory} (hsize : ¬ 0 ≤ size)
    (hwrite : writeString path cwd size.toInt32.toUInt32 m = Except.ok i) :
    ∀ i ≤ cwd.length, Mapped (path.toNat + i) := by
  obtain ⟨hmap, -⟩ := writeString_iff.mp hwrite
  have h32 := (unsigned_of_neg hsize).2
  have hstretch := stretch_lt hmap
  have hprefix := prefixLength_le_writtenText path.toNat cwd size.toInt32.toUInt32 m
  unfold prefixLength at hprefix
  intro i hi
  exact hmap i (by omega)

/-- `Dgetcwd` keeps to its buffer unless a size is negative. -/
theorem dgetcwd_stays_iff : (∀ m, Stays path size m (dgetcwd (some cwd) path driveno size m)) ↔
    ¬ (driveno = 0 ∨ driveno = 21) ∨ 0 ≤ size ∨ ¬ ∀ i ≤ cwd.length, Mapped (path.toNat + i) := by
  constructor
  · intro h
    by_contra hneg
    obtain ⟨hdrive, hneg⟩ := not_or.mp hneg
    obtain ⟨hsize, hmap⟩ := not_or.mp hneg
    exact dgetcwd_overruns (Classical.not_not.mp hdrive) hsize (Classical.not_not.mp hmap) (h _)
  · intro h m
    by_cases hsize : 0 ≤ size
    · exact dgetcwd_stays hsize m
    intro r m' hrun x hx hout
    rcases dgetcwd_eq_ok hrun with hm | ⟨hdrive, -, i, hwrite⟩
    · exact congrFun hm x
    rcases h with hrefused | hpos | hhole
    · exact absurd hdrive hrefused
    · exact absurd hpos hsize
    · exact absurd (dgetcwd_pages hsize hwrite) hhole

end Dgetcwd

/-! ### `Dreaddir` -/

section Dreaddir

open Dir

variable {buf dirhandle : UInt32} {len : Int16} {s : State}

/-- What `readdir` yields for a handle. -/
def Delivers (s : State) (dirhandle : UInt32) (next : Option Dirent) : Prop :=
  ∃ dirP host, readMemory64 dirhandle s.memory = Except.ok dirP ∧
    Streams.readdir dirP s.host = Except.ok (next, host)

/-- The memory that `Dreaddir` leaves. -/
def dreaddirMemory (len : Int16) (dirhandle buf : UInt32) (s : State) : Run (Int32 × Memory) :=
  (dreaddir len dirhandle buf s).map fun (r, s') => (r, s'.memory)

/-- The pages that an entry needs are there. -/
def EntryMapped (name : List UInt8) (buf : UInt32) : Prop :=
  (∀ i < 4, Mapped (buf.toNat + i)) ∧ ∀ i ≤ min name.length 255, Mapped ((buf + 4).toNat + i)

/-- How many bytes of the buffer an entry may change.  A name of 255 characters or more is cut
    off, and the byte behind it is either zero and stays so or is followed by the NUL. -/
def reach (name : List UInt8) (buf : UInt32) : Nat :=
  if name.length < 255 then 4 + name.length + 1
  else if Mapped ((buf + 4).toNat + 256) then 261
  else 259

theorem dreaddirMemory_none (hnext : Delivers s dirhandle none) :
    dreaddirMemory len dirhandle buf s =
      Except.ok (if s.errno ≠ .zero then tosEihndl else tosEnmfil, s.memory) := by
  obtain ⟨dirP, host, hptr, hread⟩ := hnext
  simp [dreaddirMemory, dreaddir, hptr, hread, Except.map]

theorem dreaddirMemory_some {entry : Dirent} (hnext : Delivers s dirhandle (some entry)) :
    dreaddirMemory len dirhandle buf s =
      writeMemory32 buf entry.ino.toUInt32 s.memory >>= fun m =>
        writeString (buf + 4) entry.name nameMax m >>= fun p => Except.ok (Mem.tosEOk, p.2) := by
  obtain ⟨dirP, host, hptr, hread⟩ := hnext
  simp only [dreaddirMemory, dreaddir, hptr, hread, Run.ok_bind]
  cases writeMemory32 buf entry.ino.toUInt32 s.memory with
  | error e => rfl
  | ok m =>
    rw [Run.ok_bind, Run.ok_bind]
    cases writeString (buf + 4) entry.name nameMax m with
    | error e => rfl
    | ok p => rfl

/-- A state in which a handle delivers an entry, over a memory that is otherwise given. -/
theorem exists_delivers (entry : Dirent) (m : Memory) (dirhandle : UInt32)
    (hfits : dirhandle.toNat + 8 ≤ 0x1000000) :
    ∃ s, s.memory = write m dirhandle.toNat (bigEndian 8 0) ∧ Delivers s dirhandle (some entry) := by
  let host : Streams.Host Dirent := ⟨fun _ => some ⟨0, [entry], 0⟩, [], 1⟩
  refine ⟨⟨write m dirhandle.toNat (bigEndian 8 0), Mem.initMemory, host, .zero⟩, rfl, 0, _, ?_,
    Streams.readdir_some rfl rfl⟩
  exact readMemory64_shows (shows_write _ _ _) hfits

/-- There is a place for a pointer apart from any two bytes. -/
theorem exists_apart (p q : Nat) : ∃ h : UInt32, h.toNat + 8 ≤ 0x1000000 ∧
    (p < h.toNat ∨ h.toNat + 8 ≤ p) ∧ (q < h.toNat ∨ h.toNat + 8 ≤ q) := by
  have h0 : (0 : UInt32).toNat = 0 := rfl
  have h8 : (8 : UInt32).toNat = 8 := rfl
  have h16 : (16 : UInt32).toNat = 16 := rfl
  rcases Nat.lt_or_ge p 8 with hp | hp
  · rcases Nat.lt_or_ge q 16 with hq | hq
    · exact ⟨16, by omega, by omega, by omega⟩
    · exact ⟨8, by omega, by omega, by omega⟩
  · rcases Nat.lt_or_ge q 8 with hq | hq
    · rcases Nat.lt_or_ge p 16 with hp | hp
      · exact ⟨16, by omega, by omega, by omega⟩
      · exact ⟨8, by omega, by omega, by omega⟩
    · exact ⟨0, by omega, by omega, by omega⟩

/-- A byte behind the buffer that some memory sees change. -/
theorem dreaddir_breaks {entry : Dirent} {text : List UInt8} {m : Memory} {k : Nat} {c : UInt8}
    (hmap : ∀ i < 4, Mapped (buf.toNat + i))
    (htext : ∀ m', (∀ o, o = k ∨ o = 255 → m' ((buf + 4).toNat + o) = m ((buf + 4).toNat + o)) →
      writtenText m' (buf + 4).toNat entry.name nameMax = text)
    (hpages : ∀ i ≤ text.length, Mapped ((buf + 4).toNat + i))
    (hc : (text ++ [0])[k]? = some c) (hnew : m ((buf + 4).toNat + k) ≠ c)
    (hlen : len.toNatClampNeg ≤ 4 + k) :
    ∃ s dirhandle, Delivers s dirhandle (some entry) ∧
      ¬ Stays buf len s.memory (dreaddirMemory len dirhandle buf s) := by
  obtain ⟨hk, hbyte⟩ := List.getElem?_eq_some_iff.mp hc
  have hkle : k ≤ text.length := by
    rw [List.length_append, List.length_singleton] at hk
    omega
  have hstretch := stretch_lt hpages
  -- a place for the pointer, away from the two bytes that matter
  obtain ⟨h, hh, hapart⟩ : ∃ h : UInt32, h.toNat + 8 ≤ 0x1000000 ∧ ∀ o, o = k ∨ o = 255 →
      (buf + 4).toNat + o < h.toNat ∨ h.toNat + 8 ≤ (buf + 4).toNat + o := by
    rcases exists_apart ((buf + 4).toNat + k) ((buf + 4).toNat + 255) with ⟨h, hh, hk, h255⟩
    refine ⟨h, hh, fun o ho => ?_⟩
    rcases ho with rfl | rfl
    · exact hk
    · exact h255
  obtain ⟨s, hs, hdelivers⟩ := exists_delivers entry m h hh
  refine ⟨s, h, hdelivers, ?_⟩
  -- neither the pointer nor the index of the entry lies there
  have hkept : ∀ o, o = k ∨ o = 255 →
      write s.memory buf.toNat (bigEndian 4 entry.ino.toUInt32.toNat) ((buf + 4).toNat + o) =
        s.memory ((buf + 4).toNat + o) ∧
      s.memory ((buf + 4).toNat + o) = m ((buf + 4).toNat + o) := by
    intro o ho
    constructor
    · have hlast := mapped_lt (hmap 3 (by omega))
      have hfour : (buf + 4).toNat = (buf.toNat + 4) % 2 ^ 32 := UInt32.toNat_add buf 4
      apply write_outside
      rw [bigEndian_length]
      omega
    · rw [hs]
      apply write_outside
      rw [bigEndian_length]
      exact hapart o ho
  have hindex := writeMemory32_eq_ok.mpr ⟨hmap, @rfl _
    (write s.memory buf.toNat (bigEndian 4 entry.ino.toUInt32.toNat))⟩
  have htext := htext _ fun o ho => (hkept o ho).1.trans (hkept o ho).2
  have hwrite := (@writeString_iff (buf + 4) nameMax entry.name _ _).mpr
    ⟨by rwa [htext], rfl⟩
  rw [htext] at hwrite
  have hrun : dreaddirMemory len h buf s = Except.ok (Mem.tosEOk,
      write (write s.memory buf.toNat (bigEndian 4 entry.ino.toUInt32.toNat)) (buf + 4).toNat
        (text ++ [0])) := by
    rw [dreaddirMemory_some hdelivers, hindex, Run.ok_bind, hwrite]
    rfl
  intro hstays
  have hout : ¬ InBuffer buf len ((buf + 4).toNat + k) := by
    have hplace : (buf + 4).toNat + k = (buf + UInt32.ofNat (4 + k)).toNat :=
      (@toNat_offset buf 4 k (mapped_lt (hpages k hkle))).symm
    rw [hplace, inBuffer_iff (by omega)]
    omega
  have hsame := hstays _ _ hrun _ (hpages k hkle) hout
  rw [write_inside _ _ hk, hbyte, (hkept k (Or.inl rfl)).2] at hsame
  exact hnew hsame.symm

/-- Where the pages are there and the buffer is too small, some memory sees a change. -/
theorem exists_break {entry : Dirent} (hmapped : EntryMapped entry.name buf)
    (hlen : len.toNatClampNeg < reach entry.name buf) :
    ∃ s dirhandle, Delivers s dirhandle (some entry) ∧
      ¬ Stays buf len s.memory (dreaddirMemory len dirhandle buf s) := by
  obtain ⟨hmap, hname⟩ := hmapped
  have hmax : nameMax.toNat = 255 := rfl
  unfold reach at hlen
  rcases Nat.lt_or_ge entry.name.length 255 with hshort | hlong
  · -- over ones, the NUL is seen
    rw [if_pos hshort] at hlen
    rw [Nat.min_eq_left (Nat.le_of_lt hshort)] at hname
    refine @dreaddir_breaks buf len entry entry.name (fun _ => 1) entry.name.length 0 hmap
      (fun m' _ => writtenText_short hshort) hname ?_ ?_ (by omega)
    · simp
    · simp
  · rw [if_neg (Nat.not_lt.mpr hlong)] at hlen
    rw [Nat.min_eq_right hlong] at hname
    have htake : (entry.name.take 255).length = 255 := by
      rw [List.length_take, Nat.min_eq_left hlong]
    by_cases hmore : Mapped ((buf + 4).toNat + 256)
    · -- over ones, the NUL behind the byte that is taken for a character
      rw [if_pos hmore] at hlen
      refine @dreaddir_breaks buf len entry (entry.name.take 255 ++ [1]) (fun _ => 1) 256 0 hmap
        ?_ ?_ ?_ (by simp) (by omega)
      · intro m' hm'
        have hstale := hm' 255 (Or.inr rfl)
        rw [writtenText_stale (by rwa [hmax]) (by rw [hmax, hstale]; decide), hmax, hstale]
      · intro i hi
        rw [List.length_append, htake, List.length_singleton] at hi
        rcases Nat.lt_or_ge i 256 with hlt | hge
        · exact hname i (by omega)
        · obtain rfl : i = 256 := by omega
          exact hmore
      · rw [List.getElem?_append_right (by simp [htake])]
        simp [htake]
    · -- the last character itself
      rw [if_neg hmore] at hlen
      have hlast : 254 < entry.name.length := by omega
      refine @dreaddir_breaks buf len entry (entry.name.take 255)
        (fun y => if y = (buf + 4).toNat + 254 then entry.name[254] + 1 else 0) 254
        entry.name[254] hmap ?_ (by rwa [htake]) ?_ ?_ (by omega)
      · intro m' hm'
        have hstale := hm' 255 (Or.inr rfl)
        rw [if_neg (by omega)] at hstale
        rw [writtenText_cut (by rwa [hmax]) (by rwa [hmax]), hmax]
      · rw [List.getElem?_append_left (by omega), List.getElem?_take_of_lt (by omega),
          List.getElem?_eq_getElem hlast]
      · rw [if_pos rfl]
        simp

/-- The name of an entry stays in a buffer that is large enough. -/
theorem writeString_name_stays {name : List UInt8} {m : Memory} {x : Nat} {p : UInt32 × Memory}
    (hrun : writeString (buf + 4) name nameMax m = Except.ok p)
    (hreach : reach name buf ≤ len.toNatClampNeg) (hx : Mapped x) (hout : ¬ InBuffer buf len x) :
    p.2 x = m x := by
  have hmax : nameMax.toNat = 255 := rfl
  have hstay : ∀ l : List UInt8, 4 + l.length ≤ len.toNatClampNeg →
      write m (buf + 4).toNat l x = m x := fun l hl => @write_stays buf len m l 4 x hl hx hout
  obtain ⟨hpages, rfl⟩ := writeString_iff.mp hrun
  dsimp only
  unfold reach at hreach
  rcases Nat.lt_or_ge name.length 255 with hshort | hlong
  · rw [if_pos hshort] at hreach
    have htext := @writtenText_short m (buf + 4).toNat name nameMax hshort
    rw [htext]
    exact hstay _ (by rw [List.length_append, List.length_singleton]; omega)
  rw [if_neg (Nat.not_lt.mpr hlong)] at hreach
  have htake : (name.take 255).length = 255 := by
    rw [List.length_take, Nat.min_eq_left hlong]
  rcases eq_or_ne (m ((buf + 4).toNat + 255)) 0 with hstale | hstale
  · -- the NUL is laid over a zero
    have htext := @writtenText_cut m (buf + 4).toNat name nameMax hlong hstale
    rw [hmax] at htext
    have hsame := write_same m (buf + 4).toNat (name.take 255)
    rw [htake, hstale] at hsame
    rw [htext, hsame]
    apply hstay
    split at hreach <;> omega
  · have hlength := @length_writtenText_stale m (buf + 4).toNat name nameMax hlong hstale
    rw [hmax] at hlength
    rw [if_pos (hpages 256 (by omega))] at hreach
    exact hstay _ (by rw [List.length_append, List.length_singleton]; omega)

/-- `Dreaddir` keeps to its buffer in every memory exactly when no entry is left, a page that
    the entry needs is missing, or the buffer is as large as the entry. -/
theorem dreaddir_stays_iff (next : Option Dirent) :
    (∀ s dirhandle, Delivers s dirhandle next →
      Stays buf len s.memory (dreaddirMemory len dirhandle buf s)) ↔
    ∀ entry, next = some entry → EntryMapped entry.name buf →
      reach entry.name buf ≤ len.toNatClampNeg := by
  constructor
  · rintro h entry rfl hmapped
    by_contra hlen
    obtain ⟨s, dirhandle, hdelivers, hnot⟩ := exists_break hmapped (Nat.lt_of_not_le hlen)
    exact hnot (h s dirhandle hdelivers)
  · intro h s dirhandle hdelivers r m' hrun x hx hout
    cases next with
    | none =>
      rw [dreaddirMemory_none hdelivers] at hrun
      cases hrun
      rfl
    | some entry =>
      rw [dreaddirMemory_some hdelivers] at hrun
      obtain ⟨m, hindex, hrest⟩ := Run.bind_eq_ok.mp hrun
      obtain ⟨p, hwrite, hret⟩ := Run.bind_eq_ok.mp hrest
      obtain ⟨hmap, rfl⟩ := writeMemory32_eq_ok.mp hindex
      have hprefix := prefixLength_le_writtenText (buf + 4).toNat entry.name nameMax
        (write s.memory buf.toNat (bigEndian 4 entry.ino.toUInt32.toNat))
      have hreach := h entry rfl
        ⟨hmap, fun i hi => (writeString_iff.mp hwrite).1 i (Nat.le_trans hi hprefix)⟩
      have hfour : 4 ≤ reach entry.name buf := by
        unfold reach
        split
        · omega
        · split <;> omega
      have hbuf : (buf + UInt32.ofNat 0).toNat = buf.toNat := by simp
      have hfirst := @write_stays buf len s.memory (bigEndian 4 entry.ino.toUInt32.toNat) 0 x
        (by rw [bigEndian_length]; omega) hx hout
      rw [hbuf] at hfirst
      cases hret
      exact (writeString_name_stays hwrite hreach hx hout).trans hfirst

end Dreaddir

/-! ### The three calls -/

/-- The host keeps to the buffer that it is given. -/
theorem readlink_stays {target : Except Errno (List UInt8)} {arrived : Nat} {buf : UInt32}
    {bufsiz : Int16} {m : Memory} {x : Nat} (hx : Mapped x) (hout : ¬ InBuffer buf bufsiz x) :
    (readlink target arrived buf.toNat bufsiz m).2 x = m x := by
  have hstay : ∀ l : List UInt8, l.length ≤ bufsiz.toNatClampNeg →
      write m buf.toNat l x = m x := by
    intro l hl
    have h := @write_stays buf bufsiz m l 0 x (by omega) hx hout
    rwa [show (buf + UInt32.ofNat 0).toNat = buf.toNat by simp] at h
  unfold readlink
  split
  · rfl
  cases target with
  | error e => rfl
  | ok target =>
    have htake := List.length_take_le bufsiz.toNatClampNeg target
    dsimp only
    split
    · exact hstay _ htake
    · exact hstay _ (Nat.le_trans (List.length_take_le' _ _) htake)

/-- `Freadlink` leaves it to the host. -/
theorem freadlink_stays (path : Option (List UInt8))
    (target : List UInt8 → Except Errno (List UInt8)) (arrived : Nat) (errno : Errno)
    (bufsiz : Int16) (buf : UInt32) (m : Memory) :
    Stays buf bufsiz m (Except.ok (freadlink path target arrived errno bufsiz buf m)) := by
  intro r m' hrun x hx hout
  have hm' : (freadlink path target arrived errno bufsiz buf m).2 = m' :=
    congrArg Prod.snd (Run.ok_inj.mp hrun)
  rw [← hm']
  cases path with
  | none => rfl
  | some path => exact readlink_stays hx hout

/-- A call that hands a string of the host to a buffer. -/
inductive Call where
  /-- `Dgetcwd`, in this directory -/
  | dgetcwd (unixPath : List UInt8) (driveno : Int16)
  /-- `Dreaddir`, with this entry next -/
  | dreaddir (next : Option Dir.Dirent)
  /-- `Freadlink`, of what the host finds at the path -/
  | freadlink (path : Option (List UInt8)) (target : List UInt8 → Except Errno (List UInt8))
      (arrived : Nat) (errno : Errno)

/-- Whatever the memory holds, the call changes nothing outside its buffer. -/
def Call.KeepsToBuffer (buf : UInt32) (size : Int16) : Call → Prop
  | .dgetcwd unixPath driveno =>
    ∀ m, Stays buf size m (HostStrings.dgetcwd (some unixPath) buf driveno size m)
  | .dreaddir next => ∀ s dirhandle, Delivers s dirhandle next →
    Stays buf size s.memory (dreaddirMemory size dirhandle buf s)
  | .freadlink path target arrived errno =>
    ∀ m, Stays buf size m (Except.ok (HostStrings.freadlink path target arrived errno size buf m))

/-- `Dgetcwd` is not given a negative size, and `Dreaddir` not a size below the entry's, unless
    they store nothing at all. -/
def Call.Fits (buf : UInt32) (size : Int16) : Call → Prop
  | .dgetcwd unixPath driveno =>
    ¬ (driveno = 0 ∨ driveno = 21) ∨ 0 ≤ size ∨ ¬ ∀ i ≤ unixPath.length, Mapped (buf.toNat + i)
  | .dreaddir next => ∀ entry, next = some entry → EntryMapped entry.name buf →
    reach entry.name buf ≤ size.toNatClampNeg
  | .freadlink _ _ _ _ => True

theorem keepsToBuffer_iff (buf : UInt32) (size : Int16) (call : Call) :
    call.KeepsToBuffer buf size ↔ call.Fits buf size := by
  cases call with
  | dgetcwd unixPath driveno => exact dgetcwd_stays_iff
  | dreaddir next => exact dreaddir_stays_iff next
  | freadlink path target arrived errno =>
    exact iff_true_intro fun m => freadlink_stays path target arrived errno size buf m

/-- `Dgetcwd` with a size of minus one stores the name of the root directory, and `Dreaddir` an
    entry in a buffer of four bytes. -/
theorem negative_size_overruns :
    ¬ (Call.dgetcwd [47] 0).KeepsToBuffer 0x10000 (-1) ∧
      ¬ (Call.dreaddir (some ⟨2, [46]⟩)).KeepsToBuffer 0x10000 4 := by
  constructor
  · intro h
    exact absurd (dgetcwd_stays_iff.mp h) (by decide)
  · intro h
    have hfits := (dreaddir_stays_iff _).mp h _ rfl
    exact absurd (hfits (by unfold EntryMapped; decide)) (by decide)

end HostStrings

end ParaTos
