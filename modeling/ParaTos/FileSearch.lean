/-
  ParaTos/FileSearch.lean
  =======================
  **Searching a directory** (`Fsetdta`, `Fsfirst` and `Fsnext` in `gemdos/file.c`).

  `Fsfirst` opens a directory and keeps the stream, the pattern and the attribute
  mask in a record on the host's heap.  The pointer to that record is stored in the
  first 8 bytes of the current DTA, in the memory of the guest, where `Fsnext` finds
  it again.  A record lives until its search has come to an end.

  `current_process` is the address of the basepage, whose field `p_dta` says which
  DTA is current.  What `read_path` makes of a name, what `opendir` finds in each
  directory, which pointer `calloc` picks and what is in a local variable that was
  not set yet are arguments.
-/
import ParaTos.Dir
import ParaTos.Filename
import ParaTos.Loader
import ParaTos.Pool

namespace ParaTos.FileSearch

open Bytes CString Filename Loader Memory Streams

/-- `struct stat`, as far as it is used. -/
structure Stat where
  mode : UInt32
  size : Int64
  mtime : Int64
deriving DecidableEq, Repr

/-- A directory entry, and what `fstatat` says about it, if anything. -/
structure Entry where
  name : List UInt8
  stat : Option Stat
deriving DecidableEq, Repr

/-- `struct DTAPrivate` -/
structure DTAPrivate where
  dirh : UInt64
  attr : Int16
  glob : Bool
  pattern : List UInt8
deriving DecidableEq, Repr

structure State where
  memory : Memory
  host : Host Entry
  records : Pool DTAPrivate

/-! ### The DTA -/

/-- The offsets of the fields of `struct DTA`, and its size. -/
def dAttrib : UInt32 := 21
def dTime : UInt32 := 22
def dDate : UInt32 := 24
def dLength : UInt32 := 26
def dFname : UInt32 := 30
def sizeofDTA : Nat := 44

/-- The offset of `mint_domain` in the basepage. -/
def mintDomain : UInt32 := 256

/-- `struct tm` -/
structure Tm where
  sec : Int32
  min : Int32
  hour : Int32
  mday : Int32
  mon : Int32
  year : Int32
deriving DecidableEq, Repr

def dosTime (t : Tm) : UInt16 :=
  let sec : Int32 := t.sec / 2
  let bits : Int32 := (sec &&& (0xF : Int32)) ||| (t.min <<< (5 : Int32)) |||
    (t.hour <<< (11 : Int32))
  bits.toUInt32.toUInt16

def dosDate (t : Tm) : UInt16 :=
  let mon : Int32 := t.mon + 1
  let year : Int32 := t.year - 80
  let bits : Int32 := t.mday ||| (mon <<< (5 : Int32)) |||
    ((year &&& (0x7f : Int32)) <<< (9 : Int32))
  bits.toUInt32.toUInt16

/-- What the loop of `Fsnext` breaks with. -/
structure Hit where
  entry : Entry
  fn83 : List UInt8
  attrib : Int32
  fileStat : Stat
deriving DecidableEq, Repr

/-- The end of `Fsnext`, which fills in the DTA. -/
def storeHit (localtime : Int64 → Tm) (currentDta : UInt32) (hit : Hit) (m : Memory) :
    Run Memory := do
  let t := localtime hit.fileStat.mtime
  let m ← writeMemory16 (currentDta + dTime) (dosTime t) m
  let m ← writeMemory16 (currentDta + dDate) (dosDate t) m
  let m ← writeMemory32 (currentDta + dLength) hit.fileStat.size.toInt32.toUInt32 m
  let m ← writeMemory8 (currentDta + dAttrib) hit.attrib.toUInt32.toUInt8 m
  let (_, m) ← writeString (currentDta + dFname) hit.fn83 13 m
  return m

/-! ### Fsnext -/

/-- `S_IFMT` and `S_IFDIR` -/
def sIfmt : UInt32 := 0o170000
def sIfdir : UInt32 := 0o040000

def attributes (name : List UInt8) (fileStat : Stat) : Int32 :=
  (if name[0]? = some dot then 0x02 else 0) |||
    (if fileStat.mode &&& sIfmt = sIfdir then 0x10 else 0) |||
    (if fileStat.mode &&& 0o200 = 0 then 0x1 else 0)

/-- The pattern is empty, or the name or the 8.3 name. -/
def matchesPattern (pattern name fn83 : List UInt8) : Bool :=
  pattern.isEmpty || decide (CaseEq pattern name) || decide (CaseEq pattern fn83)

/-- The body of the loop: the hit, if it breaks, and `fileStat` behind it.  Where
    `fstatat` fails `fileStat` stays as it is. -/
def tryEntry (uppercase : Bool) (priv : DTAPrivate) (fileStat : Stat) (entry : Entry) :
    Option Hit × Stat :=
  if priv.glob && (entry.name == ascii ".." || entry.name == ascii ".") then (none, fileStat)
  else
    let fn83 := (filename83 uppercase entry.name).1
    if matchesPattern priv.pattern entry.name fn83 then
      let fileStat := entry.stat.getD fileStat
      let attrib := attributes entry.name fileStat
      if attrib &&& priv.attr.toInt32 = attrib then
        (some ⟨entry, fn83, attrib, fileStat⟩, fileStat)
      else (none, fileStat)
    else (none, fileStat)

/-- The `while(true)` loop of `Fsnext`. -/
def fsnextLoop (uppercase : Bool) (priv : DTAPrivate) :
    Nat → Stat → Host Entry → Run (Option Hit × Host Entry)
  | 0, _, _ => Except.error .diverges
  | rounds + 1, fileStat, host => do
    let (entry, host) ← readdir priv.dirh host
    match entry with
    | none => return (none, host)
    | some entry =>
      match tryEntry uppercase priv fileStat entry with
      | (some hit, _) => return (some hit, host)
      | (none, fileStat) => fsnextLoop uppercase priv rounds fileStat host

/-- More rounds than the stream has entries. -/
def enoughRounds (dirh : UInt64) (host : Host Entry) : Nat :=
  match host.streams dirh with
  | some d => d.entries.length + 1
  | none => 1

/-- `cleanup:`, when the search has come to an end. -/
def cleanup (priv : UInt64) (record : DTAPrivate) (currentDta : UInt32) (s : State) :
    Run State := do
  let host ← if record.dirh ≠ 0 then closedir record.dirh s.host else Except.ok s.host
  let records ← Pool.free priv s.records
  let memory ← writeMemory64 currentDta 0 s.memory
  return { memory, host, records }

section Process

variable (currentProcess : UInt32) (localtime : Int64 → Tm)

/-- `Fsnext()`; `unset` is what its variable `fileStat` starts with.  `filename8_3` reads
    the domain for each entry anew, which nothing changes in between. -/
def fsnext (unset : Stat) (s : State) : Run (Int16 × State) := do
  let currentDta ← readBasepage currentProcess pDta s.memory
  let priv ← readMemory64 currentDta s.memory
  if priv = 0 then return (tosEnmfil.toInt16, s)
  let record ← Pool.deref priv s.records
  if record.dirh = 0 then
    let s ← cleanup priv record currentDta s
    return (tosEnmfil.toInt16, s)
  let domain ← readBasepage currentProcess mintDomain s.memory
  let (hit, host) ←
    fsnextLoop (domain = 0) record (enoughRounds record.dirh s.host) unset s.host
  match hit with
  | none =>
    let s ← cleanup priv record currentDta { s with host }
    return (tosEnmfil.toInt16, s)
  | some hit =>
    let memory ← storeHit localtime currentDta hit s.memory
    if record.glob then return (Mem.tosEOk.toInt16, { s with memory, host })
    let s ← cleanup priv record currentDta { s with memory, host }
    return (Mem.tosEOk.toInt16, s)

/-! ### Fsfirst and Fsetdta -/

abbrev star : UInt8 := 0x2a
abbrev question : UInt8 := 0x3f

/-- The loop that looks for the last `/` from the end, and for wildcards behind it. -/
def scanBack (path : List UInt8) : Nat → Bool → Option Nat × Bool
  | 0, glob => (none, glob)
  | i + 1, glob =>
    let c := path.getD i 0
    if c = slash then (some i, glob)
    else scanBack path i (glob || c == star || c == question)

/-- `dir`, `pattern` and `glob`. -/
def splitPath (path : List UInt8) : List UInt8 × List UInt8 × Bool :=
  let (sep, glob) := scanBack path path.length false
  let (dir, pattern) :=
    match sep with
    | some i => (path.take i, path.drop (i + 1))
    | none => (ascii ".", path)
  (dir, if pattern = ascii "*.*" then [] else pattern, glob)

/-- `Fsfirst(filename, attr)`.  `priv` is the pointer that `calloc` picks, and `found`
    what `opendir` yields for each directory. -/
def fsfirst (path : Option (List UInt8)) (attr : Int16) (priv : UInt64)
    (found : List UInt8 → Option (UInt64 × List Entry)) (unset : Stat) (s : State) :
    Run (Int32 × State) :=
  match path with
  | none => Except.ok (tosEpthnf, s)
  | some path => do
    let (dir, pattern, glob) := splitPath path
    let currentDta ← readBasepage currentProcess pDta s.memory
    match found dir with
    | none =>
      let records ← Pool.free priv (Pool.calloc priv ⟨0, attr, glob, pattern⟩ s.records)
      let memory ← writeMemory64 currentDta 0 s.memory
      return (tosEfilnf, { s with memory, records })
    | some (dirh, entries) =>
      let records := Pool.calloc priv ⟨dirh, attr, glob, pattern⟩ s.records
      let host := opendir dirh entries s.host
      let memory ← writeMemory64 currentDta priv s.memory
      let (retval, s) ← fsnext currentProcess localtime unset { memory, host, records }
      if retval = tosEnmfil.toInt16 then return (tosEfilnf, s)
      return (retval.toInt32, s)

/-- `Fsetdta(buf)` -/
def fsetdta (buf : UInt32) (s : State) : Run State := do
  let memory ← writeBasepage currentProcess pDta buf s.memory
  return { s with memory }

end Process

/-! ### The loop -/

/-- The first hit among the entries that are left, and the entries behind it. -/
def scan (uppercase : Bool) (priv : DTAPrivate) : Stat → List Entry → Option Hit × List Entry
  | _, [] => (none, [])
  | fileStat, entry :: rest =>
    match tryEntry uppercase priv fileStat entry with
    | (some hit, _) => (some hit, rest)
    | (none, fileStat) => scan uppercase priv fileStat rest

/-- How often `scan` asks for an entry. -/
def reads (uppercase : Bool) (priv : DTAPrivate) : Stat → List Entry → Nat
  | _, [] => 1
  | fileStat, entry :: rest =>
    match tryEntry uppercase priv fileStat entry with
    | (some _, _) => 1
    | (none, fileStat) => reads uppercase priv fileStat rest + 1

theorem reads_pos (uppercase : Bool) (priv : DTAPrivate) (fileStat : Stat) (entries : List Entry) :
    0 < reads uppercase priv fileStat entries := by
  cases entries with
  | nil => exact Nat.one_pos
  | cons entry rest =>
    rw [reads]
    split
    · exact Nat.one_pos
    · exact Nat.succ_pos _

/-- A hit is the last entry that was asked for. -/
theorem reads_hit {uppercase : Bool} {priv : DTAPrivate} {fileStat : Stat}
    {entries left : List Entry} {hit : Hit}
    (h : scan uppercase priv fileStat entries = (some hit, left)) :
    reads uppercase priv fileStat entries + left.length = entries.length := by
  induction entries generalizing fileStat with
  | nil => cases h
  | cons entry rest ih =>
    rw [scan] at h
    rw [reads, List.length_cons]
    cases htry : tryEntry uppercase priv fileStat entry with
    | mk found fileStat' =>
    simp only [htry] at h ⊢
    cases found with
    | some first =>
      cases h
      exact Nat.add_comm 1 _
    | none =>
      simp only at h ⊢
      rw [Nat.add_right_comm, ih h]

/-- The loop finds what `scan` finds, and leaves the stream behind it. -/
theorem fsnextLoop_spec {uppercase : Bool} {priv : DTAPrivate} {id : Nat} {rest : List Entry} :
    ∀ {pre : List Entry} {fileStat : Stat} {host : Host Entry} {rounds : Nat},
      host.streams priv.dirh = some ⟨id, pre ++ rest, pre.length⟩ → rest.length < rounds →
      fsnextLoop uppercase priv rounds fileStat host =
        Except.ok ((scan uppercase priv fileStat rest).1, { host with
          streams := Function.update host.streams priv.dirh (some ⟨id, pre ++ rest,
            (pre ++ rest).length - (scan uppercase priv fileStat rest).2.length⟩)
          log := List.replicate (reads uppercase priv fileStat rest) (.read id) ++ host.log }) := by
  induction rest with
  | nil =>
    intro pre fileStat host rounds hd hrounds
    obtain ⟨n, rfl⟩ : ∃ n, rounds = n + 1 := ⟨rounds - 1, by omega⟩
    have hend : (pre ++ [])[pre.length]? = none := by simp
    have hstay : Function.update host.streams priv.dirh (some ⟨id, pre ++ [],
        (pre ++ []).length - 0⟩) = host.streams := by
      rw [Function.update_eq_self_iff, hd]
      simp
    simp only [fsnextLoop, readdir_none hd hend, Run.ok_bind, scan, reads, List.length_nil, hstay]
    rfl
  | cons entry rest ih =>
    intro pre fileStat host rounds hd hrounds
    obtain ⟨n, rfl⟩ : ∃ n, rounds = n + 1 := ⟨rounds - 1, by omega⟩
    have hentry : (pre ++ entry :: rest)[pre.length]? = some entry := by simp
    simp only [fsnextLoop, readdir_some hd hentry, Run.ok_bind, scan, reads]
    split
    · have hpos : (pre ++ entry :: rest).length - rest.length = pre.length + 1 := by
        simp only [List.length_append, List.length_cons]
        omega
      rw [hpos]
      rfl
    · rename_i fileStat' _
      have hsplit : pre ++ entry :: rest = (pre ++ [entry]) ++ rest := by simp
      have hlen : pre.length + 1 = (pre ++ [entry]).length := by simp
      rw [hsplit, hlen]
      have hrun := @ih (pre ++ [entry]) fileStat'
        { host with
          streams := Function.update host.streams priv.dirh
            (some ⟨id, (pre ++ [entry]) ++ rest, (pre ++ [entry]).length⟩)
          log := .read id :: host.log }
        n (Function.update_self _ _ _) (by simpa using hrounds)
      have hlog : ∀ k, List.replicate (k + 1) (Event.read id) ++ host.log =
          List.replicate k (Event.read id) ++ .read id :: host.log := by
        intro k
        rw [List.replicate_succ', List.append_assoc]
        rfl
      rw [hrun, Function.update_idem, hlog]

/-- Every hit of the loop is one of its body, at some entry. -/
theorem scan_some {uppercase : Bool} {priv : DTAPrivate} {fileStat : Stat} {entries : List Entry}
    {hit : Hit} (h : (scan uppercase priv fileStat entries).1 = some hit) :
    ∃ fileStat' fileStat'', ∃ entry ∈ entries,
      tryEntry uppercase priv fileStat' entry = (some hit, fileStat'') := by
  induction entries generalizing fileStat with
  | nil => cases h
  | cons entry rest ih =>
    rw [scan] at h
    split at h
    · rename_i hit' fileStat' htry
      cases h
      exact ⟨fileStat, fileStat', entry, List.mem_cons_self, htry⟩
    · obtain ⟨st, st', e, he, htry⟩ := ih h
      exact ⟨st, st', e, List.mem_cons_of_mem _ he, htry⟩

/-- When the body of the loop breaks. -/
theorem tryEntry_some {uppercase : Bool} {priv : DTAPrivate} {fileStat fileStat' : Stat}
    {entry : Entry} {hit : Hit} (h : tryEntry uppercase priv fileStat entry = (some hit, fileStat')) :
    hit.entry = entry ∧ hit.fn83 = (filename83 uppercase entry.name).1 ∧
      hit.fileStat = entry.stat.getD fileStat ∧
      hit.attrib = attributes entry.name hit.fileStat := by
  simp only [tryEntry] at h
  split at h
  · cases h
  · split at h
    · split at h
      · cases h
        exact ⟨rfl, rfl, rfl, rfl⟩
      · cases h
    · cases h

theorem scan_length_le {uppercase : Bool} {priv : DTAPrivate} {fileStat : Stat}
    {entries : List Entry} {hit : Hit} (h : (scan uppercase priv fileStat entries).1 = some hit) :
    hit.fn83.length ≤ 12 := by
  obtain ⟨_, _, entry, -, htry⟩ := scan_some h
  rw [(tryEntry_some htry).2.1]
  exact filename83_length_le uppercase entry.name

/-! ### The end of a call -/

/-- What a hit leaves in the DTA, from `d_attrib` on. -/
def hitBytes (localtime : Int64 → Tm) (hit : Hit) : List UInt8 :=
  let t := localtime hit.fileStat.mtime
  (hit.attrib.toUInt32.toUInt8 ::
    (bigEndian 2 (dosTime t).toNat ++ bigEndian 2 (dosDate t).toNat ++
      bigEndian 4 hit.fileStat.size.toInt32.toUInt32.toNat)) ++ (hit.fn83 ++ [0])

theorem hitBytes_length (localtime : Int64 → Tm) (hit : Hit) :
    (hitBytes localtime hit).length = hit.fn83.length + 10 := by
  simp only [hitBytes, List.length_append, List.length_cons, bigEndian_length, List.length_nil]
  omega

theorem storeHit_ok (localtime : Int64 → Tm) {dta : UInt32} (hfits : dta.toNat + 44 ≤ 0x1000000)
    {hit : Hit} (hname : hit.fn83.length ≤ 12) (m : Memory) :
    storeHit localtime dta hit m =
      Except.ok (write m (dta.toNat + 21) (hitBytes localtime hit)) := by
  have hattrib : (dta + dAttrib).toNat = dta.toNat + 21 := @toNat_advance dta 21 (by omega)
  have htime : (dta + dTime).toNat = dta.toNat + 22 := @toNat_advance dta 22 (by omega)
  have hdate : (dta + dDate).toNat = dta.toNat + 24 := @toNat_advance dta 24 (by omega)
  have hlength : (dta + dLength).toNat = dta.toNat + 26 := @toNat_advance dta 26 (by omega)
  have hfname : (dta + dFname).toNat = dta.toNat + 30 := @toNat_advance dta 30 (by omega)
  have hmax : (13 : UInt32).toNat = 13 := rfl
  let time := bigEndian 2 (dosTime (localtime hit.fileStat.mtime)).toNat
  let date := bigEndian 2 (dosDate (localtime hit.fileStat.mtime)).toNat
  let size := bigEndian 4 hit.fileStat.size.toInt32.toUInt32.toNat
  let attrib := hit.attrib.toUInt32.toUInt8
  -- the fields in the order of the source
  let m₁ := write m (dta.toNat + 22) time
  let m₂ := write m₁ (dta.toNat + 24) date
  let m₃ := write m₂ (dta.toNat + 26) size
  let m₄ := write m₃ (dta.toNat + 21) [attrib]
  have h₁ : writeMemory16 (dta + dTime) (dosTime (localtime hit.fileStat.mtime)) m =
      Except.ok m₁ := by
    rw [writeMemory16_ok _ _ (by omega), htime]
  have h₂ : writeMemory16 (dta + dDate) (dosDate (localtime hit.fileStat.mtime)) m₁ =
      Except.ok m₂ := by
    rw [writeMemory16_ok _ _ (by omega), hdate]
  have h₃ : writeMemory32 (dta + dLength) hit.fileStat.size.toInt32.toUInt32 m₂ =
      Except.ok m₃ := by
    rw [writeMemory32_ok _ _ (by omega), hlength]
  have h₄ : writeMemory8 (dta + dAttrib) hit.attrib.toUInt32.toUInt8 m₃ = Except.ok m₄ := by
    rw [writeMemory8_eq_ok (by omega), hattrib]
    exact ⟨by omega, rfl⟩
  have h₅ : writeString (dta + dFname) hit.fn83 13 m₄ =
      Except.ok (UInt32.ofNat hit.fn83.length, write m₄ (dta.toNat + 30) (hit.fn83 ++ [0])) :=
    (writeString_short (by omega) (by omega)).mpr ⟨by omega, by rw [hfname]⟩
  -- they are one write
  have hjoin : m₄ = write m (dta.toNat + 21) (attrib :: (time ++ date ++ size)) := by
    have htd : m₂ = write m (dta.toNat + 22) (time ++ date) := write_append m _ time date
    have htds : m₃ = write m (dta.toNat + 22) (time ++ date ++ size) := by
      show write m₂ _ size = _
      rw [htd]
      exact write_append m _ (time ++ date) size
    show write m₃ _ [attrib] = _
    rw [htds, write_comm m (Or.inr (by simp))]
    exact write_cons m _ attrib _
  have hlen : (attrib :: (time ++ date ++ size)).length = 9 := by
    simp [time, date, size]
  have hall := write_append m (dta.toNat + 21) (attrib :: (time ++ date ++ size)) (hit.fn83 ++ [0])
  rw [hlen, ← hjoin] at hall
  simp only [storeHit, h₁, h₂, h₃, h₄, h₅, Run.ok_bind, Run.pure_eq_ok]
  exact congrArg Except.ok hall

/-- What `cleanup` leaves: the stream closed, the record freed, and no pointer. -/
def ended (priv : UInt64) (c : Pool.Cell DTAPrivate) (d : Stream Entry) (currentDta : UInt32)
    (s : State) : State where
  memory := write s.memory currentDta.toNat (bigEndian 8 0)
  host := { s.host with
    streams := Function.update s.host.streams c.val.dirh none, log := .closed d.id :: s.host.log }
  records := { s.records with
    cells := Function.update s.records.cells priv none, freed := c.id :: s.records.freed }

theorem cleanup_live {priv : UInt64} {c : Pool.Cell DTAPrivate} {d : Stream Entry}
    {currentDta : UInt32} {s : State} (hc : s.records.cells priv = some c)
    (hdirh : c.val.dirh ≠ 0) (hd : s.host.streams c.val.dirh = some d)
    (hfits : currentDta.toNat + 8 ≤ 0x1000000) :
    cleanup priv c.val currentDta s = Except.ok (ended priv c d currentDta s) := by
  simp only [cleanup, if_pos hdirh, closedir_open hd, Pool.free_live hc,
    writeMemory64_ok _ _ hfits, Run.ok_bind]
  rfl

/-! ### A call of `Fsnext` -/

/-- The current DTA is at `b`, and points to the record of a search whose stream has the
    entries `rest` left. -/
structure Searching (currentProcess : UInt32) (s : State) (b : UInt32) (p : UInt64)
    (c : Pool.Cell DTAPrivate) (id : Nat) (pre rest : List Entry) (domain : UInt32) : Prop where
  current : readBasepage currentProcess pDta s.memory = Except.ok b
  fits : b.toNat + 44 ≤ 0x1000000
  pointer : readMemory64 b s.memory = Except.ok p
  nonnull : p ≠ 0
  record : s.records.cells p = some c
  dirh : c.val.dirh ≠ 0
  stream : s.host.streams c.val.dirh = some ⟨id, pre ++ rest, pre.length⟩
  domain : readBasepage currentProcess mintDomain s.memory = Except.ok domain

/-- The stream of the search after `k` reads, with the entries `left` still to come. -/
def advanced (c : Pool.Cell DTAPrivate) (id : Nat) (entries left : List Entry) (k : Nat)
    (host : Host Entry) : Host Entry :=
  { host with
    streams := Function.update host.streams c.val.dirh
      (some ⟨id, entries, entries.length - left.length⟩)
    log := List.replicate k (.read id) ++ host.log }

theorem advanced_self (c : Pool.Cell DTAPrivate) (id : Nat) (entries left : List Entry) (k : Nat)
    (host : Host Entry) : (advanced c id entries left k host).streams c.val.dirh =
      some ⟨id, entries, entries.length - left.length⟩ := Function.update_self _ _ _

theorem advanced_other {c : Pool.Cell DTAPrivate} {q : UInt64} (h : q ≠ c.val.dirh) (id : Nat)
    (entries left : List Entry) (k : Nat) (host : Host Entry) :
    (advanced c id entries left k host).streams q = host.streams q :=
  Function.update_of_ne h _ _

section Fsnext

variable {currentProcess : UInt32} {localtime : Int64 → Tm} {unset : Stat} {s : State}
  {b : UInt32} {p : UInt64} {c : Pool.Cell DTAPrivate} {id : Nat} {pre rest : List Entry}
  {domain : UInt32}

/-- A DTA that points to nothing. -/
theorem fsnext_null (hcurrent : readBasepage currentProcess pDta s.memory = Except.ok b)
    (hnull : readMemory64 b s.memory = Except.ok 0) :
    fsnext currentProcess localtime unset s = Except.ok (tosEnmfil.toInt16, s) := by
  simp only [fsnext, hcurrent, hnull, Run.ok_bind]
  rfl

theorem Searching.loop (h : Searching currentProcess s b p c id pre rest domain)
    (unset : Stat) :
    fsnextLoop (domain = 0) c.val (enoughRounds c.val.dirh s.host) unset s.host =
      Except.ok ((scan (domain = 0) c.val unset rest).1,
        advanced c id (pre ++ rest) (scan (domain = 0) c.val unset rest).2
          (reads (domain = 0) c.val unset rest) s.host) := by
  apply fsnextLoop_spec h.stream
  simp only [enoughRounds, h.stream, List.length_append]
  omega

/-- Ending the search, wherever its stream stands by then. -/
theorem Searching.cleanup (h : Searching currentProcess s b p c id pre rest domain)
    (m : Memory) (left : List Entry) (k : Nat) :
    FileSearch.cleanup p c.val b { s with
      memory := m, host := advanced c id (pre ++ rest) left k s.host } =
    Except.ok (ended p c ⟨id, pre ++ rest, (pre ++ rest).length - left.length⟩ b { s with
      memory := m, host := advanced c id (pre ++ rest) left k s.host }) := by
  have hfits := h.fits
  exact cleanup_live h.record h.dirh (Function.update_self _ _ _) (by omega)

theorem fsnext_hit (h : Searching currentProcess s b p c id pre rest domain) {hit : Hit}
    {left : List Entry} (hscan : scan (domain = 0) c.val unset rest = (some hit, left)) :
    fsnext currentProcess localtime unset s =
      Except.ok (Mem.tosEOk.toInt16,
        let t : State := { s with
          memory := write s.memory (b.toNat + 21) (hitBytes localtime hit)
          host := advanced c id (pre ++ rest) left (reads (domain = 0) c.val unset rest) s.host }
        if c.val.glob then t
        else ended p c ⟨id, pre ++ rest, (pre ++ rest).length - left.length⟩ b t) := by
  have hloop := h.loop unset
  rw [hscan] at hloop
  have hname : hit.fn83.length ≤ 12 := scan_length_le (congrArg Prod.fst hscan)
  have hstore := storeHit_ok localtime h.fits hname s.memory
  simp only [fsnext, h.current, h.pointer, if_neg h.nonnull, Pool.deref_live h.record,
    if_neg h.dirh, h.domain, hloop, hstore, Run.ok_bind]
  by_cases hglob : c.val.glob = true
  · simp only [hglob, if_true]
    rfl
  · simp only [hglob, h.cleanup]
    rfl

theorem fsnext_end (h : Searching currentProcess s b p c id pre rest domain)
    (hscan : (scan (domain = 0) c.val unset rest).1 = none) :
    ∃ left, fsnext currentProcess localtime unset s =
      Except.ok (tosEnmfil.toInt16,
        ended p c ⟨id, pre ++ rest, (pre ++ rest).length - left.length⟩ b { s with
          host := advanced c id (pre ++ rest) left (reads (domain = 0) c.val unset rest)
            s.host }) := by
  have hloop := h.loop unset
  rw [hscan] at hloop
  refine ⟨(scan (domain = 0) c.val unset rest).2, ?_⟩
  simp only [fsnext, h.current, h.pointer, if_neg h.nonnull, Pool.deref_live h.record,
    if_neg h.dirh, h.domain, hloop, h.cleanup, Run.ok_bind]
  rfl

/-- What `Fsnext` does to a search, whatever it finds: the stream moves on, the DTA is
    written behind the pointer, and the search may end. -/
theorem Searching.fsnext (h : Searching currentProcess s b p c id pre rest domain)
    (localtime : Int64 → Tm) (unset : Stat) :
    ∃ r t m left, ∃ k > 0, FileSearch.fsnext currentProcess localtime unset s = Except.ok (r, t) ∧
      (∀ x, x < b.toNat + 21 ∨ b.toNat + 44 ≤ x → m x = s.memory x) ∧
      (t = { s with memory := m, host := advanced c id (pre ++ rest) left k s.host } ∨
        t = ended p c ⟨id, pre ++ rest, (pre ++ rest).length - left.length⟩ b
          { s with memory := m, host := advanced c id (pre ++ rest) left k s.host }) := by
  cases hscan : scan (domain = 0) c.val unset rest with
  | mk found left =>
  cases found with
  | none =>
    obtain ⟨left, hrun⟩ := @fsnext_end _ localtime _ _ _ _ _ _ _ _ _ h
      (congrArg Prod.fst hscan)
    exact ⟨_, _, s.memory, left, _, reads_pos _ _ _ _, hrun, fun _ _ => rfl, Or.inr rfl⟩
  | some hit =>
    have hrun := @fsnext_hit _ localtime _ _ _ _ _ _ _ _ _ h _ _ hscan
    have hname : hit.fn83.length ≤ 12 := scan_length_le (congrArg Prod.fst hscan)
    have hlen := hitBytes_length localtime hit
    have houtside : ∀ x, x < b.toNat + 21 ∨ b.toNat + 44 ≤ x →
        write s.memory (b.toNat + 21) (hitBytes localtime hit) x = s.memory x :=
      fun x hx => write_outside _ (by omega)
    refine ⟨_, _, _, left, _, reads_pos (domain = 0) c.val unset rest, hrun, houtside, ?_⟩
    by_cases hglob : c.val.glob = true
    · exact Or.inl (if_pos hglob)
    · exact Or.inr (if_neg hglob)

end Fsnext

/-! ### A call of `Fsfirst` -/

/-- What `Fsfirst` leaves for its call of `Fsnext`. -/
def begun (priv : UInt64) (v : DTAPrivate) (entries : List Entry) (currentDta : UInt32)
    (s : State) : State where
  memory := write s.memory currentDta.toNat (bigEndian 8 priv.toNat)
  host := opendir v.dirh entries s.host
  records := Pool.calloc priv v s.records

/-- The record of a search. -/
def recordOf (path : List UInt8) (attr : Int16) (dirh : UInt64) : DTAPrivate where
  dirh := dirh
  attr := attr
  glob := (splitPath path).2.2
  pattern := (splitPath path).2.1

section Fsfirst

variable {currentProcess : UInt32} {localtime : Int64 → Tm} {path : List UInt8} {attr : Int16}
  {priv : UInt64} {found : List UInt8 → Option (UInt64 × List Entry)} {unset : Stat} {s : State}
  {b : UInt32}

theorem fsfirst_unfound (hcurrent : readBasepage currentProcess pDta s.memory = Except.ok b)
    (hfits : b.toNat + 8 ≤ 0x1000000) (hfound : found (splitPath path).1 = none) :
    fsfirst currentProcess localtime (some path) attr priv found unset s =
      Except.ok (tosEfilnf, { s with
        memory := write s.memory b.toNat (bigEndian 8 0)
        records :=
          { cells := Function.update (Function.update s.records.cells priv
              (some ⟨s.records.next, recordOf path attr 0⟩)) priv none
            freed := s.records.next :: s.records.freed
            next := s.records.next + 1 } }) := by
  have hfree := @Pool.free_live _ priv (Pool.calloc priv (recordOf path attr 0) s.records) _
    (Function.update_self _ _ _)
  unfold recordOf at hfree
  simp only [fsfirst, hcurrent, hfound, hfree, writeMemory64_ok _ _ hfits, Run.ok_bind]
  rfl

theorem fsfirst_found (hcurrent : readBasepage currentProcess pDta s.memory = Except.ok b)
    (hfits : b.toNat + 8 ≤ 0x1000000) {dirh : UInt64} {entries : List Entry}
    (hfound : found (splitPath path).1 = some (dirh, entries)) {r : Int16} {t : State}
    (hnext : fsnext currentProcess localtime unset
      (begun priv (recordOf path attr dirh) entries b s) = Except.ok (r, t)) :
    fsfirst currentProcess localtime (some path) attr priv found unset s =
      Except.ok (if r = tosEnmfil.toInt16 then tosEfilnf else r.toInt32, t) := by
  unfold begun recordOf at hnext
  simp only [fsfirst, hcurrent, hfound, writeMemory64_ok _ _ hfits, hnext, Run.ok_bind]
  by_cases h : r = tosEnmfil.toInt16
  · simp [h]
  · simp [h]

end Fsfirst

end ParaTos.FileSearch
