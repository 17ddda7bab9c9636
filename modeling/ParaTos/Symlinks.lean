/-
  ParaTos/Symlinks.lean
  =====================
  **Symbolic links** (`Fsymlink` and `Freadlink` in `gemdos/file.c`).

  `Freadlink` is documented to return the name that was given to `Fsymlink`.  Both calls
  send their names through `tos_path_to_unix` first, so that what the host keeps in the
  link is the translation of that name: its drive is gone, its separators are slashes, and
  a component that there is no file for has become the entry that matches it.  The host
  then stores the contents of the link in the buffer, and no NUL behind them.

  What comes back is therefore the name only when it begins with its own translation, and
  when the buffer happened to hold the rest of it (`fsymlink_freadlink_iff`).

  The host is a parameter.  It has the contract that `symlink` and `readlink` are
  documented with.
-/
import ParaTos.HostStrings
import ParaTos.PathContract

namespace ParaTos.Symlinks

open Bytes CString Filename HostStrings Memory ParaTos.Path

/-! ### The host -/

/-- A host with states of type `σ`: its files, what `readlink` finds at a path, and
    `symlink(target, path)`. -/
structure Host (σ : Type) where
  files : σ → HostFiles
  readlink : σ → List UInt8 → Except Errno (List UInt8)
  symlink : List UInt8 → List UInt8 → σ → Except Errno σ
  /-- a link is read back as it was made -/
  stored : ∀ target path s s', symlink target path s = .ok s' → readlink s' path = .ok target
  /-- what is in a link is a string -/
  string : ∀ s path target, readlink s path = .ok target → 0 ∉ target
  /-- a call that fails sets `errno` -/
  readlinkErrno : ∀ s path, readlink s path ≠ .error .zero
  symlinkErrno : ∀ target path s, symlink target path s ≠ .error .zero

/-! ### The calls -/

/-- `read_path(name)`, and the string at the pointer unless it is `NULL`. -/
def readPath (fs : HostFiles) (uppercase : Bool) (garbage : Nat → UInt8) (name : List UInt8) :
    Run (Option (List UInt8)) := do
  match ← tosPathToUnix fs uppercase garbage name with
  | none => return none
  | some block => do
    let path ← cstr block
    return some path

section Calls

variable {σ : Type} (host : Host σ) (uppercase : Bool) (garbage garbage' : Nat → UInt8)

/-- `Fsymlink(oldname, newname)` -/
def fsymlink (oldname newname : List UInt8) (s : σ) : Run (Int32 × σ) := do
  match ← readPath (host.files s) uppercase garbage oldname with
  | none => return (tosEpthnf, s)
  | some oldpath =>
    match ← readPath (host.files s) uppercase garbage' newname with
    | none => return (tosEpthnf, s)
    | some newpath =>
      match host.symlink oldpath newpath s with
      | .error e => return (mapErrno e, s)
      | .ok s => return (Mem.tosEOk, s)

/-- `Freadlink(bufsiz, buf, filename)` -/
def freadlink (arrived : Nat) (errno : Errno) (bufsiz : Int16) (buf : UInt32)
    (filename : List UInt8) (s : σ) (m : Memory) : Run (Int32 × Memory) := do
  let path ← readPath (host.files s) uppercase garbage filename
  return HostStrings.freadlink path (host.readlink s) arrived errno bufsiz buf m

end Calls

/-! ### Where names lead -/

/-- The path that a name stands for, component by component. -/
def hostPath (fs : HostFiles) (uppercase : Bool) (name : List UInt8) : Option (List UInt8) :=
  (stripDrive name).bind fun path =>
    resolve fs uppercase (lead path) (components path) (trailing path)

/-- Only a name of which nothing is left behind the drive is not read. -/
theorem readPath_iff {fs : HostFiles} {uppercase : Bool} {garbage : Nat → UInt8}
    {name : List UInt8} {r : Option (List UInt8)} (hnul : 0 ∉ name) :
    readPath fs uppercase garbage name = Except.ok r ↔
      stripDrive name ≠ some [] ∧ r = hostPath fs uppercase name := by
  unfold readPath hostPath tosPathToUnix
  cases hstrip : stripDrive name with
  | none => simp [eq_comm]
  | some path =>
    by_cases hne : path = []
    · -- the block that nothing was written to
      subst hne
      have hempty : convert fs uppercase garbage [] = Except.ok (some []) := rfl
      simp [hempty, cstr]
    · obtain ⟨res, hrun, hres⟩ :=
        convert_resolves fs uppercase garbage (nul_notMem_stripDrive hnul hstrip) hne
      cases hout : resolve fs uppercase (lead path) (components path) (trailing path) with
      | none =>
        rw [hout] at hres
        simp [hrun, hres, hne, hout, eq_comm]
      | some out =>
        rw [hout] at hres
        obtain ⟨block, rfl, hstr⟩ := hres
        simp [hrun, hstr, hne, hout, eq_comm]

section Names

variable {σ : Type} {host : Host σ} {uppercase : Bool} {garbage garbage' : Nat → UInt8}
  {oldname newname : List UInt8} {s s' : σ}

/-- `Fsymlink` succeeds when both names have paths and the host makes the link. -/
theorem fsymlink_iff (hold : 0 ∉ oldname) (hnew : 0 ∉ newname) :
    fsymlink host uppercase garbage garbage' oldname newname s = Except.ok (Mem.tosEOk, s') ↔
      stripDrive oldname ≠ some [] ∧ stripDrive newname ≠ some [] ∧
        ∃ oldpath newpath, hostPath (host.files s) uppercase oldname = some oldpath ∧
          hostPath (host.files s) uppercase newname = some newpath ∧
          host.symlink oldpath newpath s = .ok s' := by
  have hcode : tosEpthnf ≠ Mem.tosEOk := by decide
  simp only [fsymlink, Run.bind_eq_ok, readPath_iff hold]
  constructor
  · rintro ⟨o, ⟨hdrive, rfl⟩, hrun⟩
    cases holdpath : hostPath (host.files s) uppercase oldname with
    | none =>
      rw [holdpath] at hrun
      exact absurd (congrArg Prod.fst (Run.ok_inj.mp hrun)) hcode
    | some oldpath =>
      rw [holdpath] at hrun
      obtain ⟨n, hread, hrun⟩ := Run.bind_eq_ok.mp hrun
      obtain ⟨hdrive', rfl⟩ := (readPath_iff hnew).mp hread
      cases hnewpath : hostPath (host.files s) uppercase newname with
      | none =>
        rw [hnewpath] at hrun
        exact absurd (congrArg Prod.fst (Run.ok_inj.mp hrun)) hcode
      | some newpath =>
        rw [hnewpath] at hrun
        cases hlink : host.symlink oldpath newpath s with
        | error e =>
          simp only [hlink] at hrun
          have hzero : mapErrno e = Mem.tosEOk := congrArg Prod.fst (Run.ok_inj.mp hrun)
          have hneg := @mapErrno_neg e fun h => host.symlinkErrno oldpath newpath s (h ▸ hlink)
          rw [hzero] at hneg
          exact absurd hneg (by decide)
        | ok s'' =>
          simp only [hlink] at hrun
          cases hrun
          exact ⟨hdrive, hdrive', oldpath, newpath, rfl, rfl, hlink⟩
  · rintro ⟨hdrive, hdrive', oldpath, newpath, hold', hnew', hlink⟩
    refine ⟨_, ⟨hdrive, rfl⟩, ?_⟩
    have hread := (@readPath_iff (host.files s) uppercase garbage' newname _ hnew).mpr
      ⟨hdrive', rfl⟩
    simp [hold', hread, hnew', hlink]

end Names

/-! ### What comes back -/

/-- `Freadlink` succeeds and leaves the name in the buffer. -/
def Yields (name : List UInt8) (buf : UInt32) (run : Run (Int32 × Memory)) : Prop :=
  ∃ r m, run = Except.ok (r, m) ∧ 0 ≤ r ∧ Shows m buf.toNat (name ++ [0])

/-- The name begins with what is in a link, and the buffer holds the rest of it already. -/
def Completes (name : List UInt8) (buf : UInt32) (m : Memory) (target : List UInt8) : Prop :=
  (∀ i < target.length, Mapped (buf.toNat + i)) ∧
    ∃ rest, name = target ++ rest ∧ Shows m (buf.toNat + target.length) (rest ++ [0])

/-- A name that is in the link as it is needs no more than its NUL. -/
theorem completes_self_iff {name : List UInt8} {buf : UInt32} {m : Memory} :
    Completes name buf m name ↔
      (∀ i < name.length, Mapped (buf.toNat + i)) ∧ m (buf.toNat + name.length) = 0 := by
  refine and_congr_right fun _ => ⟨?_, fun hzero => ⟨[], (List.append_nil name).symm, ?_⟩⟩
  · rintro ⟨rest, hname, hshows⟩
    have hrest : rest = [] := List.self_eq_append_right.mp hname
    rw [hrest] at hshows
    exact (shows_cons.mp hshows).1
  · exact shows_cons.mpr ⟨hzero, shows_nil _ _⟩

/-- A string behind which no NUL is stored, seen as another string. -/
theorem shows_take_iff {m : Memory} {a n : Nat} {name target : List UInt8}
    (hname : 0 ∉ name) (htarget : 0 ∉ target) (hn : name.length < n) :
    Shows (write m a (target.take n)) a (name ++ [0]) ↔
      ∃ rest, name = target ++ rest ∧ Shows m (a + target.length) (rest ++ [0]) := by
  constructor
  · intro h
    have hstands := shows_write m a (target.take n)
    have hle : (target.take n).length ≤ name.length := by
      by_contra hlong
      have hbegins := h.begins hstands (by
        rw [List.length_append, List.length_singleton]
        omega)
      exact htarget (List.mem_of_mem_take (hbegins.subset (by simp)))
    have htake : target.take n = target := by
      apply List.take_of_length_le
      rw [List.length_take] at hle
      omega
    rw [htake] at h hstands hle
    have hbegins := hstands.begins h (by
      rw [List.length_append]
      omega)
    obtain ⟨rest, rfl⟩ := List.prefix_of_prefix_length_le hbegins (List.prefix_append _ _) hle
    refine ⟨rest, rfl, ?_⟩
    rw [List.append_assoc, shows_append] at h
    exact h.2.congr fun x hx _ => (write_outside m (Or.inr hx)).symm
  · rintro ⟨rest, rfl, hrest⟩
    have htake : target.take n = target := by
      apply List.take_of_length_le
      rw [List.length_append] at hn
      omega
    rw [htake, List.append_assoc, shows_append]
    exact ⟨shows_write _ _ _, hrest.congr fun x hx _ => write_outside m (Or.inr hx)⟩

section Names

variable {σ : Type} {host : Host σ} {uppercase : Bool} {garbage garbage' : Nat → UInt8}
  {name filename : List UInt8} {s s' : σ}

theorem checked_error (errno e : Errno) : FileHandles.checked errno (.error e) = mapErrno e := by
  have hneg : Int32.ofInt (FileHandles.returned (.error e)) < 0 :=
    show Int32.ofInt (-1) < 0 by decide
  rw [FileHandles.checked, if_pos hneg, FileHandles.errnoAfter]

theorem checked_ok (errno : Errno) {n : Nat} (h : n < 2 ^ 31) :
    0 ≤ FileHandles.checked errno (.ok n) := by
  have hn : (Int32.ofInt n).toInt = n := Int32.toInt_ofInt_of_le (by omega) (by omega)
  have hpos : ¬ Int32.ofInt n < 0 := by
    rw [Int32.lt_iff_toInt_lt, hn, Int32.toInt_zero]
    omega
  have hanswer : FileHandles.checked errno (.ok n) = Int32.ofInt n := if_neg hpos
  rw [hanswer, Int32.le_iff_toInt_le, hn, Int32.toInt_zero]
  omega

theorem not_yields_error {buf : UInt32} {r : Int32} {m : Memory} (hr : r < 0) :
    ¬ Yields name buf (Except.ok (r, m)) := by
  rintro ⟨r', m', hrun, hnonneg, -⟩
  cases hrun
  exact absurd hr (Int32.not_lt.mpr hnonneg)

/-- What `Freadlink` leaves, whatever link the name leads to. -/
theorem yields_iff (arrived : Nat) (errno : Errno) {bufsiz : Int16} (buf : UInt32) (m : Memory)
    (hname : 0 ∉ name) (hfile : 0 ∉ filename) (hdrive : stripDrive filename ≠ some [])
    (hsize : name.length < bufsiz.toNatClampNeg) :
    Yields name buf (freadlink host uppercase garbage arrived errno bufsiz buf filename s m) ↔
      ∃ path target, hostPath (host.files s) uppercase filename = some path ∧
        host.readlink s path = .ok target ∧ Completes name buf m target := by
  have hread := (@readPath_iff (host.files s) uppercase garbage filename _ hfile).mpr ⟨hdrive, rfl⟩
  have hpos : ¬ bufsiz ≤ 0 := by
    intro hle
    rw [Int16.le_iff_toInt_le, Int16.toInt_zero] at hle
    have hclamp : bufsiz.toNatClampNeg = 0 := Int.toNat_of_nonpos hle
    omega
  rw [freadlink, hread, Run.ok_bind]
  cases hpath : hostPath (host.files s) uppercase filename with
  | none =>
    refine iff_of_false (not_yields_error (by decide)) ?_
    rintro ⟨path, target, h, -⟩
    cases h
  | some path =>
    simp only [HostStrings.freadlink, HostStrings.readlink, if_neg hpos, Option.some_inj]
    cases htarget : host.readlink s path with
    | error e =>
      have hzero : e ≠ .zero := fun h => host.readlinkErrno s path (h ▸ htarget)
      refine iff_of_false (not_yields_error ?_) ?_
      · rw [checked_error]
        exact mapErrno_neg hzero
      · rintro ⟨_, target, rfl, h, -⟩
        rw [htarget] at h
        cases h
    | ok target =>
      have hshows := @shows_take_iff m buf.toNat _ _ _ hname (host.string s path target htarget) hsize
      have hlen := List.length_take_le bufsiz.toNatClampNeg target
      have hclamp := bufsiz.toNatClampNeg_lt
      dsimp only
      split
      · rename_i hmap
        constructor
        · rintro ⟨r, m', hrun, -, h⟩
          have hm := congrArg Prod.snd (Run.ok_inj.mp hrun)
          dsimp only at hm
          rw [← hm, hshows] at h
          obtain ⟨rest, rfl, hrest⟩ := h
          -- the buffer was large enough for all of it
          rw [List.length_append] at hsize
          rw [List.take_of_length_le (by omega)] at hmap
          exact ⟨path, target, rfl, htarget, hmap, rest, rfl, hrest⟩
        · rintro ⟨_, target', rfl, htarget', -, h⟩
          rw [htarget] at htarget'
          cases htarget'
          exact ⟨_, _, rfl, checked_ok errno (by omega), hshows.mpr h⟩
      · rename_i hmap
        refine iff_of_false (not_yields_error ?_) ?_
        · have hneg := @mapErrno_neg efault (by decide)
          rwa [← checked_error errno] at hneg
        · rintro ⟨_, target', rfl, htarget', hpages, -⟩
          rw [htarget] at htarget'
          cases htarget'
          exact hmap fun i hi => hpages i (Nat.lt_of_lt_of_le hi (List.length_take_le' _ _))

end Names

/-! ### There and back -/

section RoundTrip

variable {σ : Type} (host : Host σ) (uppercase uppercase' : Bool)

/-- What is in the link that `newname` leads to after `Fsymlink(oldname, newname)`: the path
    that `oldname` stood for, if `newname` leads where it did before. -/
def Found (oldname newname : List UInt8) (s s' : σ) (target : List UInt8) : Prop :=
  if hostPath (host.files s') uppercase' newname = hostPath (host.files s) uppercase newname then
    hostPath (host.files s) uppercase oldname = some target
  else
    ∃ path, hostPath (host.files s') uppercase' newname = some path ∧
      host.readlink s' path = .ok target

/-- `Freadlink` yields the name of a link that `Fsymlink` made exactly when the name begins
    with what is in the link and the buffer completes it. -/
theorem fsymlink_freadlink_iff (garbage garbage' garbage'' : Nat → UInt8) (arrived : Nat)
    (errno : Errno) {oldname newname : List UInt8} {s s' : σ} (hold : 0 ∉ oldname)
    (hnew : 0 ∉ newname)
    (hlink : fsymlink host uppercase garbage garbage' oldname newname s =
      Except.ok (Mem.tosEOk, s'))
    {bufsiz : Int16} (hsize : oldname.length < bufsiz.toNatClampNeg) (buf : UInt32) (m : Memory) :
    Yields oldname buf
        (freadlink host uppercase' garbage'' arrived errno bufsiz buf newname s' m) ↔
      ∃ target, Found host uppercase uppercase' oldname newname s s' target ∧
        Completes oldname buf m target := by
  obtain ⟨-, hdrive, oldpath, newpath, hold', hnew', hmade⟩ := (fsymlink_iff hold hnew).mp hlink
  have hread := host.stored oldpath newpath s s' hmade
  rw [yields_iff arrived errno buf m hold hnew hdrive hsize]
  constructor
  · rintro ⟨path, target, hpath, htarget, hrest⟩
    refine ⟨target, ?_, hrest⟩
    unfold Found
    split
    · rename_i hsame
      rw [hpath, hnew'] at hsame
      cases hsame
      rw [hread] at htarget
      cases htarget
      exact hold'
    · exact ⟨path, hpath, htarget⟩
  · rintro ⟨target, hfound, hrest⟩
    unfold Found at hfound
    split at hfound
    · rename_i hsame
      rw [hold'] at hfound
      cases hfound
      exact ⟨newpath, oldpath, hsame.trans hnew', hread, hrest⟩
    · obtain ⟨path, hpath, htarget⟩ := hfound
      exact ⟨path, target, hpath, htarget, hrest⟩

end RoundTrip

/-! ### A directory of links -/

/-- A link in the current directory. -/
structure Link where
  name : List UInt8
  target : List UInt8
  isName : name ≠ [] ∧ 0 ∉ name ∧ slash ∉ name
  isTarget : target ≠ [] ∧ 0 ∉ target

/-- A host whose current directory has nothing but links, and no other directory. -/
def linksHere : Host (List Link) where
  files links :=
    { lstat := fun path => links.any fun link => link.name = path
      opendir := fun dir => if dir = ascii "." then some (links.map (·.name)) else none
      names := by
        intro dir entries hdir entry hentry
        split at hdir
        · cases hdir
          obtain ⟨link, -, rfl⟩ := List.mem_map.mp hentry
          exact link.isName
        · cases hdir }
  readlink links path :=
    match links.find? fun link => link.name = path with
    | some link => .ok link.target
    | none => .error .enoent
  symlink target path links :=
    if h : (path ≠ [] ∧ 0 ∉ path ∧ slash ∉ path) ∧ target ≠ [] ∧ 0 ∉ target then
      if links.any fun link => link.name = path then .error .eexist
      else .ok (⟨path, target, h.1, h.2⟩ :: links)
    else .error .enoent
  stored := by
    intro target path links links' h
    split at h
    · split at h
      · cases h
      · cases h
        simp
    · cases h
  string := by
    intro links path target h
    split at h
    · cases h
      exact (Link.isTarget _).2
    · cases h
  readlinkErrno := by
    intro links path h
    split at h <;> cases h
  symlinkErrno := by
    intro target path links h
    split at h
    · split at h <;> cases h
    · cases h

/-- The link `l` to `x`, which there is no file for. -/
def dangling : Link := ⟨ascii "l", ascii "x", by decide, by decide⟩

/-- In a buffer of zeros the name of that link comes back. -/
theorem fsymlink_freadlink_zeros :
    Yields (ascii "x") 0x10000 (freadlink linksHere true (fun _ => 0) 0 .zero 256 0x10000
        (ascii "l") [dangling] initM68KMemory) ↔
      ∃ target, Found linksHere true true (ascii "x") (ascii "l") [] [dangling] target ∧
        Completes (ascii "x") 0x10000 initM68KMemory target :=
  fsymlink_freadlink_iff linksHere true true (fun _ => 0) (fun _ => 0) (fun _ => 0) 0 .zero
    (by decide) (by decide) rfl (by decide) 0x10000 initM68KMemory

/-- In another buffer it does not end where it should, and a name with a drive comes back
    without it. -/
theorem freadlink_changed :
    (fsymlink linksHere true (fun _ => 0) (fun _ => 0) (ascii "x") (ascii "l") [] =
        Except.ok (Mem.tosEOk, [dangling]) ∧
      ¬ Yields (ascii "x") 0x10000 (freadlink linksHere true (fun _ => 0) 0 .zero 256 0x10000
        (ascii "l") [dangling] (write initM68KMemory 0x10001 [65]))) ∧
    fsymlink linksHere true (fun _ => 0) (fun _ => 0) (ascii "U:x") (ascii "l") [] =
        Except.ok (Mem.tosEOk, [dangling]) ∧
      ¬ Yields (ascii "U:x") 0x10000 (freadlink linksHere true (fun _ => 0) 0 .zero 256 0x10000
        (ascii "l") [dangling] initM68KMemory) := by
  -- either way the link has `x` in it
  have hcompletes : ∀ name m, 0 ∉ name → name.length < 256 →
      Yields name 0x10000 (freadlink linksHere true (fun _ => 0) 0 .zero 256 0x10000 (ascii "l")
        [dangling] m) → Completes name 0x10000 m (ascii "x") := by
    intro name m hname hlen h
    have hsize : name.length < (256 : Int16).toNatClampNeg := hlen
    obtain ⟨path, target, hpath, htarget, hrest⟩ :=
      (yields_iff 0 .zero 0x10000 m hname (by decide) (by decide) hsize).mp h
    have hl : hostPath (linksHere.files [dangling]) true (ascii "l") = some (ascii "l") := rfl
    rw [hl] at hpath
    cases hpath
    cases htarget
    exact hrest
  refine ⟨⟨rfl, fun h => ?_⟩, rfl, fun h => ?_⟩
  · have hbyte := (completes_self_iff.mp (hcompletes _ _ (by decide) (by decide) h)).2
    revert hbyte
    decide
  · obtain ⟨-, rest, hname, -⟩ := hcompletes _ _ (by decide) (by decide) h
    exact absurd (List.head_eq_of_cons_eq hname) (by decide)

end ParaTos.Symlinks
