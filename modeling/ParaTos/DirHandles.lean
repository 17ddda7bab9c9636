/-
  ParaTos/DirHandles.lean
  =======================
  **Directory handles over whole runs.**

  A run is any list of directory calls and memory calls, with whatever the guest does
  in between.  Beside the state it carries the handles that `Dopendir` has returned
  and that were not closed since, each with the stream it was opened for; the calls
  do not look at that list.

  A handle is the address of a block of the guest's heap, and nothing but `Mfree`
  ever checks it.  `handles_iff` says which runs treat only streams that they own.
-/
import ParaTos.Dir
import ParaTos.Machine
import ParaTos.MemRuns

namespace ParaTos.Dir

open Bytes Streams

namespace Handles

/-- The address that `Dopendir` returned, the pointer that it stored there, and the
    number of the stream that it opened. -/
structure Handle where
  address : UInt32
  dir : UInt64
  id : Nat

/-- The state, and the handles in use. -/
structure System where
  state : State
  handles : List Handle

inductive Call where
  | dopendir (path : Option (List UInt8)) (flag : Int16)
      (found : Option (UInt64 × List Dirent))
  | dreaddir (len : Int16) (dirhandle buf : UInt32)
  | drewinddir (dirhandle : UInt32)
  | dclosedir (dirhandle : UInt32)
  | memory (c : Mem.Call)
  /-- what the guest writes in between, and what other calls leave in `errno` -/
  | guest (memory : Memory) (errno : Errno)

/-- The handles after a `Dopendir` that returned `r`. -/
def System.opened (s : System) (found : Option (UInt64 × List Dirent)) (r : Int32) :
    List Handle :=
  match found with
  | some (dirP, _) =>
    if 0 ≤ r then ⟨r.toUInt32, dirP, s.state.host.next⟩ :: s.handles else s.handles
  | none => s.handles

/-- The handles after a `Dclosedir` that returned `r`. -/
def System.closed (s : System) (dirhandle : UInt32) (r : Int32) : List Handle :=
  if 0 ≤ r then s.handles.filter fun h => h.address ≠ dirhandle else s.handles

def step : Call → System → Run (Mem.Reply × System)
  | .dopendir path flag found, s => do
    let (r, state) ← dopendir path flag found s.state
    return (.status r, ⟨state, s.opened found r⟩)
  | .dreaddir len dirhandle buf, s => do
    let (r, state) ← dreaddir len dirhandle buf s.state
    return (.status r, ⟨state, s.handles⟩)
  | .drewinddir dirhandle, s => do
    let (r, state) ← drewinddir dirhandle s.state
    return (.status r, ⟨state, s.handles⟩)
  | .dclosedir dirhandle, s => do
    let (r, state) ← dclosedir dirhandle s.state
    return (.status r, ⟨state, s.closed dirhandle r⟩)
  | .memory c, s => do
    let (r, blocks) ← Mem.step c s.state.blocks
    return (r, ⟨{ s.state with blocks }, s.handles⟩)
  | .guest memory errno, s =>
    Except.ok (.status Mem.tosEOk, ⟨{ s.state with memory, errno }, s.handles⟩)

/-! ### What is promised, what is right, and what it takes -/

/-- Host and guest keep to this: `opendir` yields a pointer that is not in use, a buffer
    has room for an entry, and neither it nor a write of the guest touches the 16 bytes
    of a handle. -/
def Promised (s : System) : Call → Prop
  | .dopendir _ _ (some (dirP, _)) => s.state.host.streams dirP = none
  | .dreaddir _ _ buf => BufferFits buf ∧
    ∀ h ∈ s.handles, buf.toNat + 261 ≤ h.address.toNat ∨ h.address.toNat + 16 ≤ buf.toNat
  | .guest memory _ => ∀ h ∈ s.handles, ∀ i < 16,
    memory (h.address.toNat + i) = s.state.memory (h.address.toNat + i)
  | _ => True

/-- The call acts on the stream of the handle, and on no other. -/
structure ActsOn (event : Nat → Event) (h : Handle) (s s' : State) : Prop where
  stream : ∃ d, s.host.streams h.dir = some d ∧ d.id = h.id
  log : s'.host.log = event h.id :: s.host.log
  others : ∀ q, q ≠ h.dir → s'.host.streams q = s.host.streams q

/-- A handle in use is acted on; any other value is refused, and nothing changes. -/
def Answered (event : Nat → Event) (s : System) (dirhandle : UInt32) (r : Mem.Reply)
    (s' : System) : Prop :=
  (∃ h ∈ s.handles, h.address = dirhandle ∧ ActsOn event h s.state s'.state) ∨
  (∀ h ∈ s.handles, h.address ≠ dirhandle) ∧ (∃ e < 0, r = .status e) ∧ s'.state = s.state

/-- `Dopendir` fails, and nothing changes; or it opens one stream and stores its pointer
    apart from those of the handles in use. -/
def Opened (found : Option (UInt64 × List Dirent)) (s : System) (r : Mem.Reply) (s' : System) :
    Prop :=
  (∃ e < 0, r = .status e ∧ s'.state = s.state) ∨
  ∃ a : UInt32, ∃ dirP entries, r = .status a.toInt32 ∧ found = some (dirP, entries) ∧
    s'.state.host = opendir dirP entries s.state.host ∧ PointsTo s'.state.memory a dirP ∧
    ∀ h ∈ s.handles, a.toNat + 8 ≤ h.address.toNat ∨ h.address.toNat + 8 ≤ a.toNat

def Right (s : System) : Call → Mem.Reply → System → Prop
  | .dopendir _ _ found, r, s' => Opened found s r s'
  | .dreaddir _ dirhandle _, r, s' => Answered .read s dirhandle r s'
  | .drewinddir dirhandle, r, s' => Answered .rewound s dirhandle r s'
  | .dclosedir dirhandle, r, s' => Answered .closed s dirhandle r s'
  | .memory _, _, s' => s'.state.host = s.state.host
  | .guest _ _, _, s' => s'.state.host = s.state.host

/-- Every stream was closed at most once. -/
def ClosedOnce (s : System) : Prop := ∀ i, s.state.host.log.count (.closed i) ≤ 1

/-- The block that `Malloc(16)` would hand out lies in the RAM, and its first 8 bytes
    are apart from those of the handles in use. -/
def RoomForHandle (s : System) : Prop :=
  ∃ a blocks, Mem.malloc 16 s.state.blocks = Except.ok (a, blocks) ∧
    a.toNat + 8 ≤ 0x1000000 ∧
    ∀ h ∈ s.handles, a.toNat + 8 ≤ h.address.toNat ∨ h.address.toNat + 8 ≤ a.toNat

def InUse (s : System) (a : UInt32) : Prop := ∃ h ∈ s.handles, h.address = a

/-- A block of the guest's heap starts at the address. -/
def Allocated (s : System) (a : UInt32) : Prop :=
  ∃ L, s.state.blocks.lists = Except.ok L ∧ ∃ c ∈ L.used, c.2.start = a

/-- The calls that are served well. -/
def Sound (s : System) : Call → Prop
  | .dopendir (some _) flag (some _) => flag = 1 ∨ RoomForHandle s
  | .dreaddir _ dirhandle _ => InUse s dirhandle
  | .drewinddir dirhandle => InUse s dirhandle
  | .dclosedir dirhandle =>
    (InUse s dirhandle ∧ Allocated s dirhandle) ∨
    (¬ InUse s dirhandle ∧ ¬ Allocated s dirhandle ∧
      ∀ i < 8, Memory.Mapped (dirhandle.toNat + i))
  | _ => True

/-! ### The calls one by one -/

section Calls

variable {s s' : State} {r : Int32} {dirhandle : UInt32} {p : UInt64}

theorem dopendir_opens {path : List UInt8} {flag : Int16} {entries : List Dirent} {a : UInt32}
    {blocks : Mem.State} (hflag : flag ≠ 1)
    (hmalloc : Mem.malloc 16 s.blocks = Except.ok (a, blocks)) (hfits : a.toNat + 8 ≤ 0x1000000) :
    dopendir (some path) flag (some (p, entries)) s = Except.ok (a.toInt32, { s with
      memory := write s.memory a.toNat (bigEndian 8 p.toNat), blocks
      host := opendir p entries s.host }) := by
  simp [dopendir, hflag, hmalloc, Memory.writeMemory64_ok _ _ hfits]

/-- A handle leads `Dreaddir` to its stream, which may move on, and to nothing else. -/
theorem dreaddir_moves {d : Stream Dirent} {buf : UInt32} (len : Int16)
    (hp : PointsTo s.memory dirhandle p) (hd : s.host.streams p = some d)
    (hfits : BufferFits buf) :
    ∃ r l pos, dreaddir len dirhandle buf s = Except.ok (r, { s with
      memory := write s.memory buf.toNat l
      host := { s.host with
        streams := Function.update s.host.streams p (some { d with pos })
        log := .read d.id :: s.host.log } }) ∧ l.length ≤ 261 := by
  cases hentry : d.entries[d.pos]? with
  | none =>
    have hstay : Function.update s.host.streams p (some { d with pos := d.pos }) =
        s.host.streams := Function.update_eq_self_iff.mpr hd.symm
    refine ⟨if s.errno ≠ .zero then tosEihndl else tosEnmfil, [], d.pos, ?_, Nat.zero_le _⟩
    rw [hstay, write_nil]
    exact dreaddir_end hp hd hentry
  | some entry =>
    obtain ⟨l, hrun, hlen, -⟩ := @dreaddir_entry s dirhandle buf p d len entry hp hd hentry hfits
    exact ⟨_, l, d.pos + 1, hrun, hlen⟩

theorem dclosedir_open {d : Stream Dirent} {blocks : Mem.State}
    (hp : PointsTo s.memory dirhandle p) (hd : s.host.streams p = some d)
    (hmfree : Mem.mfree dirhandle s.blocks = Except.ok (Mem.tosEOk, blocks)) :
    dclosedir dirhandle s = Except.ok (Mem.tosEOk, { s with
      blocks
      host := { s.host with
        streams := Function.update s.host.streams p none, log := .closed d.id :: s.host.log } }) := by
  have hnonneg : ¬ Mem.tosEOk < 0 := by decide
  simp [dclosedir, hp.read, hmfree, hnonneg, closedir_open hd]

/-- `Mfree` knows no such block. -/
theorem dclosedir_unknown (hmapped : ∀ i < 8, Memory.Mapped (dirhandle.toNat + i))
    (hmfree : Mem.mfree dirhandle s.blocks = Except.ok (Mem.tosEimba, s.blocks)) :
    dclosedir dirhandle s = Except.ok (Mem.tosEimba, s) := by
  have hneg : Mem.tosEimba < 0 := by decide
  have hread : ∃ p, Memory.readMemory64 dirhandle s.memory = Except.ok p := by
    rw [Memory.readMemory64, Memory.peeks, if_pos hmapped]
    exact ⟨_, rfl⟩
  obtain ⟨p, hread⟩ := hread
  simp [dclosedir, hread, hmfree, hneg]

/-! Whatever the value of the handle, a call that returns has read its 8 bytes and has
followed what it found there. -/

theorem dreaddir_log {len : Int16} {buf : UInt32}
    (h : dreaddir len dirhandle buf s = Except.ok (r, s')) :
    ∃ id, s'.host.log = .read id :: s.host.log := by
  obtain ⟨p, -, h⟩ := Run.bind_eq_ok.mp h
  obtain ⟨⟨entry, host⟩, hread, h⟩ := Run.bind_eq_ok.mp h
  obtain ⟨id, hlog⟩ := readdir_log hread
  refine ⟨id, ?_⟩
  cases entry with
  | none =>
    cases h
    exact hlog
  | some entry =>
    obtain ⟨m, -, h⟩ := Run.bind_eq_ok.mp h
    obtain ⟨m', -, h⟩ := Run.bind_eq_ok.mp h
    cases h
    exact hlog

theorem drewinddir_log (h : drewinddir dirhandle s = Except.ok (r, s')) :
    ∃ id, s'.host.log = .rewound id :: s.host.log := by
  obtain ⟨p, -, h⟩ := Run.bind_eq_ok.mp h
  obtain ⟨host, hrewind, h⟩ := Run.bind_eq_ok.mp h
  cases h
  exact rewinddir_log hrewind

/-- `Dclosedir` returns what `Mfree` says. -/
theorem dclosedir_mfree (h : dclosedir dirhandle s = Except.ok (r, s')) :
    (∀ i < 8, Memory.Mapped (dirhandle.toNat + i)) ∧
      Mem.mfree dirhandle s.blocks = Except.ok (r, s'.blocks) := by
  obtain ⟨p, hread, h⟩ := Run.bind_eq_ok.mp h
  obtain ⟨⟨r', blocks⟩, hmfree, h⟩ := Run.bind_eq_ok.mp h
  have hr : r' = r ∧ blocks = s'.blocks := by
    by_cases hneg : r' < 0
    · simp only [hneg, if_true] at h
      cases h
      exact ⟨rfl, rfl⟩
    · simp only [hneg, if_false] at h
      obtain ⟨host, -, h⟩ := Run.bind_eq_ok.mp h
      cases h
      exact ⟨rfl, rfl⟩
  obtain ⟨rfl, rfl⟩ := hr
  refine ⟨?_, hmfree⟩
  apply Classical.byContradiction
  intro hmapped
  simp [Memory.readMemory64, Memory.peeks, hmapped] at hread

end Calls

/-! ### The invariant -/

/-- Every handle in use leads to the stream that it was opened for, and no two of them
    to the same one. -/
structure Good (s : System) : Prop where
  blocks : ∃ L, Mem.Rep s.state.blocks L
  numbered : Numbered s.state.host
  points : ∀ h ∈ s.handles, PointsTo s.state.memory h.address h.dir
  stream : ∀ h ∈ s.handles, ∃ d, s.state.host.streams h.dir = some d ∧ d.id = h.id
  distinct : ∀ h ∈ s.handles, ∀ k ∈ s.handles, h.dir = k.dir → h.address = k.address

theorem allocated_iff {s : System} {L : Mem.Lists} (hr : Mem.Rep s.state.blocks L) {a : UInt32} :
    Allocated s a ↔ ∃ c ∈ L.used, c.2.start = a := hr.exists_lists

section Steps

variable {s : System} {h : Handle} {d : Stream Dirent} {r : Int32} {t : State}
  {dirhandle : UInt32}

theorem step_dreaddir {len : Int16} {buf : UInt32}
    (hrun : Dir.dreaddir len dirhandle buf s.state = Except.ok (r, t)) :
    step (.dreaddir len dirhandle buf) s = Except.ok (.status r, ⟨t, s.handles⟩) := by
  simp [step, hrun]

theorem step_drewinddir (hrun : Dir.drewinddir dirhandle s.state = Except.ok (r, t)) :
    step (.drewinddir dirhandle) s = Except.ok (.status r, ⟨t, s.handles⟩) := by
  simp [step, hrun]

theorem step_dclosedir (hrun : Dir.dclosedir dirhandle s.state = Except.ok (r, t)) :
    step (.dclosedir dirhandle) s = Except.ok (.status r, ⟨t, s.closed dirhandle r⟩) := by
  simp [step, hrun]

/-- A stream that moves, and a write apart from the handles. -/
theorem Good.moved (hg : Good s)
    (hd : s.state.host.streams h.dir = some d) (pos : Nat) {event : Event}
    (hevent : ∀ i, event ≠ .closed i) {memory : Memory}
    (hpoints : ∀ k ∈ s.handles, PointsTo memory k.address k.dir) :
    Good ⟨{ s.state with
      memory
      host := { s.state.host with
        streams := Function.update s.state.host.streams h.dir (some { d with pos })
        log := event :: s.state.host.log } }, s.handles⟩ where
  blocks := hg.blocks
  numbered := hg.numbered.move hd pos hevent
  points := hpoints
  stream := by
    intro k hk
    obtain ⟨e, he, hid⟩ := hg.stream k hk
    by_cases heq : k.dir = h.dir
    · rw [heq, hd] at he
      cases he
      exact ⟨{ d with pos }, by simp [heq], hid⟩
    · exact ⟨e, by simp [Function.update_of_ne heq, he], hid⟩
  distinct := hg.distinct

theorem Good.dreaddir (hg : Good s) (len : Int16) {buf : UInt32} (hfits : BufferFits buf)
    (happart : ∀ k ∈ s.handles,
      buf.toNat + 261 ≤ k.address.toNat ∨ k.address.toNat + 16 ≤ buf.toNat)
    (hh : h ∈ s.handles) :
    ∃ r s', step (.dreaddir len h.address buf) s = Except.ok (r, s') ∧
      Answered .read s h.address r s' ∧ Good s' := by
  obtain ⟨d, hd, hid⟩ := hg.stream h hh
  obtain ⟨r, l, pos, hrun, hlen⟩ := dreaddir_moves len (hg.points h hh) hd hfits
  have hpoints : ∀ k ∈ s.handles,
      PointsTo (write s.state.memory buf.toNat l) k.address k.dir := by
    intro k hk
    have hk' := happart k hk
    exact (hg.points k hk).write (by omega)
  refine ⟨_, _, step_dreaddir hrun, ?_, ?_⟩
  · exact Or.inl ⟨h, hh, rfl, ⟨d, hd, hid⟩, by rw [hid], fun q hq => Function.update_of_ne hq _ _⟩
  · exact hg.moved hd pos (fun _ heq => by cases heq) hpoints

theorem Good.drewinddir (hg : Good s) (hh : h ∈ s.handles) :
    ∃ r s', step (.drewinddir h.address) s = Except.ok (r, s') ∧
      Answered .rewound s h.address r s' ∧ Good s' := by
  obtain ⟨d, hd, hid⟩ := hg.stream h hh
  have hrun := drewinddir_open (hg.points h hh) hd
  refine ⟨_, _, step_drewinddir hrun, ?_, ?_⟩
  · exact Or.inl ⟨h, hh, rfl, ⟨d, hd, hid⟩, by rw [hid], fun q hq => Function.update_of_ne hq _ _⟩
  · exact hg.moved hd 0 (fun _ heq => by cases heq) hg.points

/-- Closing a handle whose block is allocated. -/
theorem Good.dclosedir (hg : Good s) (hh : h ∈ s.handles) (halloc : Allocated s h.address) :
    ∃ r s', step (.dclosedir h.address) s = Except.ok (r, s') ∧
      Answered .closed s h.address r s' ∧ Good s' := by
  obtain ⟨L, hr⟩ := hg.blocks
  obtain ⟨c, hc, hstart⟩ := (allocated_iff hr).mp halloc
  obtain ⟨blocks, L', hmfree, hr'⟩ := Mem.mfree_known hr hc
  rw [hstart] at hmfree
  obtain ⟨d, hd, hid⟩ := hg.stream h hh
  have hrun := dclosedir_open (hg.points h hh) hd hmfree
  have hclosed : s.closed h.address Mem.tosEOk =
      s.handles.filter fun k => k.address ≠ h.address := if_pos (by decide)
  refine ⟨_, _, step_dclosedir hrun, ?_, ?_⟩
  · exact Or.inl ⟨h, hh, rfl, ⟨d, hd, hid⟩, by rw [hid], fun q hq => Function.update_of_ne hq _ _⟩
  · have hold : ∀ k ∈ s.closed h.address Mem.tosEOk, k ∈ s.handles ∧ k.dir ≠ h.dir := by
      intro k hk
      rw [hclosed, List.mem_filter, decide_eq_true_eq] at hk
      exact ⟨hk.1, fun heq => hk.2 (hg.distinct k hk.1 h hh heq)⟩
    constructor
    · exact ⟨L', hr'⟩
    · exact hg.numbered.close hd
    · exact fun k hk => hg.points k (hold k hk).1
    · intro k hk
      obtain ⟨e, he, hid'⟩ := hg.stream k (hold k hk).1
      exact ⟨e, (Function.update_of_ne (hold k hk).2 _ _).trans he, hid'⟩
    · exact fun j hj k hk => hg.distinct j (hold j hj).1 k (hold k hk).1

/-! `Dopendir` -/

theorem toInt32_nonneg {a : UInt32} (h : a.toNat < 2 ^ 31) : 0 ≤ a.toInt32 := by
  have hbits : a.toInt32.toInt = a.toBitVec.toInt := rfl
  have hnat : a.toBitVec.toNat = a.toNat := rfl
  rw [Int32.le_iff_toInt_le, hbits, BitVec.toInt_eq_toNat_of_lt (by omega)]
  exact Int.natCast_nonneg _

theorem dopendir_fails {path : Option (List UInt8)} {flag : Int16}
    {found : Option (UInt64 × List Dirent)} (h : flag = 1 ∨ path = none ∨ found = none)
    (s : State) : ∃ e < 0, Dir.dopendir path flag found s = Except.ok (e, s) := by
  by_cases hflag : flag = 1
  · exact ⟨tosEnosys, by decide, if_pos hflag⟩
  · refine ⟨tosEpthnf, by decide, ?_⟩
    rcases h with h | rfl | rfl
    · exact absurd h hflag
    · exact if_neg hflag
    · cases path <;> exact if_neg hflag

theorem step_dopendir {path : Option (List UInt8)} {flag : Int16}
    {found : Option (UInt64 × List Dirent)}
    (hrun : Dir.dopendir path flag found s.state = Except.ok (r, t)) :
    step (.dopendir path flag found) s = Except.ok (.status r, ⟨t, s.opened found r⟩) := by
  simp [step, hrun]

/-- A `Dopendir` that fails leaves everything as it is. -/
theorem opened_fails {found : Option (UInt64 × List Dirent)} (h : r < 0) :
    s.opened found r = s.handles := by
  have hneg : ¬ 0 ≤ r := Int32.not_le.mpr h
  cases found with
  | none => rfl
  | some f => simp [System.opened, hneg]

/-- A `Dopendir` that finds room puts a handle in use. -/
theorem Good.opened (hg : Good s) {p : UInt64} {entries : List Dirent} {a : UInt32}
    {blocks : Mem.State} {L : Mem.Lists} (hp : s.state.host.streams p = none)
    (hr : Mem.Rep blocks L) (hfits : a.toNat + 8 ≤ 0x1000000)
    (happart : ∀ k ∈ s.handles,
      a.toNat + 8 ≤ k.address.toNat ∨ k.address.toNat + 8 ≤ a.toNat) :
    Good ⟨{ s.state with
      memory := write s.state.memory a.toNat (bigEndian 8 p.toNat), blocks
      host := opendir p entries s.state.host }, ⟨a, p, s.state.host.next⟩ :: s.handles⟩ where
  blocks := ⟨L, hr⟩
  numbered := hg.numbered.opendir p entries
  points := by
    intro k hk
    rcases List.mem_cons.mp hk with rfl | hk
    · exact ⟨shows_write _ _ _, hfits⟩
    · exact (hg.points k hk).write (by rw [bigEndian_length]; exact happart k hk)
  stream := by
    intro k hk
    rcases List.mem_cons.mp hk with rfl | hk
    · exact ⟨_, Function.update_self _ _ _, rfl⟩
    · obtain ⟨e, he, hid⟩ := hg.stream k hk
      exact ⟨e, Lookup.update_kept hp he _, hid⟩
  distinct := by
    have hne : ∀ k ∈ s.handles, k.dir ≠ p := by
      intro k hk
      obtain ⟨e, he, -⟩ := hg.stream k hk
      exact Lookup.ne_of_none hp he
    intro j hj k hk heq
    rcases List.mem_cons.mp hj with rfl | hj <;> rcases List.mem_cons.mp hk with rfl | hk
    · rfl
    · exact absurd heq.symm (hne k hk)
    · exact absurd heq (hne j hj)
    · exact hg.distinct j hj k hk heq

theorem Good.dopendir (hg : Good s) {path : Option (List UInt8)} {flag : Int16}
    {found : Option (UInt64 × List Dirent)} (hdom : Promised s (.dopendir path flag found))
    (hsound : Sound s (.dopendir path flag found)) :
    ∃ r s', step (.dopendir path flag found) s = Except.ok (r, s') ∧
      Opened found s r s' ∧ Good s' := by
  have hfails : flag = 1 ∨ path = none ∨ found = none → ∃ r s',
      step (.dopendir path flag found) s = Except.ok (r, s') ∧ Opened found s r s' ∧ Good s' := by
    intro h
    obtain ⟨e, he, hrun⟩ := dopendir_fails h s.state
    refine ⟨_, _, step_dopendir hrun, Or.inl ⟨e, he, rfl, rfl⟩, ?_⟩
    rw [opened_fails he]
    exact hg
  by_cases hflag : flag = 1
  · exact hfails (Or.inl hflag)
  cases path with
  | none => exact hfails (Or.inr (Or.inl rfl))
  | some path =>
    cases found with
    | none => exact hfails (Or.inr (Or.inr rfl))
    | some f =>
      obtain ⟨p, entries⟩ := f
      obtain ⟨a, blocks, hmalloc, hfits, happart⟩ := hsound.resolve_left hflag
      obtain ⟨L, hr⟩ := hg.blocks
      obtain ⟨a', blocks', L', hmalloc', -, hr', -⟩ := Mem.malloc_spec hr 16
      rw [hmalloc] at hmalloc'
      cases hmalloc'
      have hrun := @dopendir_opens s.state p path flag entries a blocks hflag hmalloc hfits
      have hopened : s.opened (some (p, entries)) a.toInt32 =
          ⟨a, p, s.state.host.next⟩ :: s.handles := if_pos (toInt32_nonneg (by omega))
      refine ⟨_, _, step_dopendir hrun, Or.inr ?_, ?_⟩
      · exact ⟨a, p, entries, rfl, rfl, rfl, ⟨shows_write _ _ _, hfits⟩, happart⟩
      · rw [hopened]
        exact hg.opened hdom hr' hfits happart

/-! Every call -/

theorem Good.step (hg : Good s) {c : Call} (hdom : Promised s c) (hsound : Sound s c) :
    ∃ r s', Handles.step c s = Except.ok (r, s') ∧ Right s c r s' ∧ Good s' := by
  cases c with
  | dopendir path flag found => exact hg.dopendir hdom hsound
  | dreaddir len dirhandle buf =>
    obtain ⟨h, hh, rfl⟩ := hsound
    exact hg.dreaddir len hdom.1 hdom.2 hh
  | drewinddir dirhandle =>
    obtain ⟨h, hh, rfl⟩ := hsound
    exact hg.drewinddir hh
  | dclosedir dirhandle =>
    rcases hsound with ⟨⟨h, hh, rfl⟩, halloc⟩ | ⟨hnot, halloc, hmapped⟩
    · exact hg.dclosedir hh halloc
    · obtain ⟨L, hr⟩ := hg.blocks
      have hnone : ∀ c ∈ L.used, c.2.start ≠ dirhandle :=
        fun c hc heq => halloc ((allocated_iff hr).mpr ⟨c, hc, heq⟩)
      have hrun := dclosedir_unknown hmapped (Mem.mfree_unknown hr hnone)
      have hneg : Mem.tosEimba < 0 := by decide
      have hclosed : s.closed dirhandle Mem.tosEimba = s.handles := if_neg (by decide)
      refine ⟨_, _, step_dclosedir hrun, Or.inr ⟨?_, ⟨_, hneg, rfl⟩, rfl⟩, ?_⟩
      · exact fun h hh heq => hnot ⟨h, hh, heq⟩
      · rw [hclosed]
        exact hg
  | memory c =>
    obtain ⟨L, hr⟩ := hg.blocks
    obtain ⟨r, blocks, L', hrun, -, hr'⟩ := Mem.step_refines s.state.blocks L hr c
    refine ⟨r, ⟨{ s.state with blocks }, s.handles⟩, ?_, rfl, ?_⟩
    · simp [Handles.step, hrun]
    · exact ⟨⟨L', hr'⟩, hg.numbered, hg.points, hg.stream, hg.distinct⟩
  | guest memory errno =>
    refine ⟨_, _, rfl, rfl, hg.blocks, hg.numbered, ?_, hg.stream, hg.distinct⟩
    intro h hh
    obtain ⟨hshows, hfits⟩ := hg.points h hh
    refine ⟨hshows.congr ?_, hfits⟩
    intro x hlo hhi
    rw [bigEndian_length] at hhi
    have hkept := hdom h hh (x - h.address.toNat) (by omega)
    rwa [Nat.add_sub_cancel' hlo] at hkept

/-- A value that is no handle and is not refused was followed somewhere. -/
theorem not_answered {event : Nat → Event} {answer : Mem.Reply} {s' : System} {id : Nat}
    (hnot : ¬ InUse s dirhandle) (hlog : s'.state.host.log = event id :: s.state.host.log) :
    ¬ Answered event s dirhandle answer s' := by
  rintro (⟨h, hh, heq, -⟩ | ⟨-, -, hsame⟩)
  · exact hnot ⟨h, hh, heq⟩
  · rw [hsame] at hlog
    exact List.cons_ne_self _ _ hlog.symm

theorem Good.not_answers_dopendir (hg : Good s) {path : Option (List UInt8)} {flag : Int16}
    {found : Option (UInt64 × List Dirent)} (hnot : ¬ Sound s (.dopendir path flag found)) :
    ¬ Machine.Answers Handles.step Right s (.dopendir path flag found) := by
  cases path with
  | none => exact absurd trivial hnot
  | some path =>
  cases found with
  | none => exact absurd trivial hnot
  | some f =>
  obtain ⟨p, entries⟩ := f
  obtain ⟨hflag, hroom⟩ := not_or.mp hnot
  rintro ⟨r, s', hrun, hright⟩
  obtain ⟨L, hr⟩ := hg.blocks
  obtain ⟨a, blocks, L', hmalloc, -, -, -⟩ := Mem.malloc_spec hr 16
  obtain ⟨⟨r', t⟩, hopen, hend⟩ := Run.bind_eq_ok.mp hrun
  cases hend
  simp only [Dir.dopendir, hflag, if_false, hmalloc, Run.ok_bind] at hopen
  obtain ⟨memory, -, hopen⟩ := Run.bind_eq_ok.mp hopen
  cases hopen
  rcases hright with ⟨e, -, -, hsame⟩ | ⟨b, p', entries', hstatus, -, -, hpoints, happart⟩
  · have hnext := congrArg (fun t : State => t.host.next) hsame
    exact Nat.succ_ne_self _ hnext
  · have hab : a = b := by simpa using congrArg Int32.toUInt32 (Mem.Reply.status.inj hstatus)
    subst hab
    exact hroom ⟨a, blocks, hmalloc, hpoints.fits, happart⟩

theorem Good.not_answers_dclosedir (hg : Good s) (hnot : ¬ Sound s (.dclosedir dirhandle)) :
    ¬ Machine.Answers Handles.step Right s (.dclosedir dirhandle) := by
  rintro ⟨r, s', hrun, hright⟩
  obtain ⟨L, hr⟩ := hg.blocks
  obtain ⟨⟨e, t⟩, hclose, hend⟩ := Run.bind_eq_ok.mp hrun
  cases hend
  obtain ⟨hmapped, hmfree⟩ := dclosedir_mfree hclose
  by_cases halloc : Allocated s dirhandle
  · -- `Mfree` succeeds, so that nothing is refused
    obtain ⟨c, hc, rfl⟩ := (allocated_iff hr).mp halloc
    obtain ⟨blocks', L', hmfree', -⟩ := Mem.mfree_known hr hc
    rw [hmfree] at hmfree'
    cases hmfree'
    rcases hright with ⟨h, hh, heq, -⟩ | ⟨-, ⟨e, he, hstatus⟩, -⟩
    · exact hnot (Or.inl ⟨⟨h, hh, heq⟩, halloc⟩)
    · cases hstatus
      exact absurd he (by decide)
  · -- `Mfree` fails, and nothing is closed
    have hnone : ∀ c ∈ L.used, c.2.start ≠ dirhandle :=
      fun c hc heq => halloc ((allocated_iff hr).mpr ⟨c, hc, heq⟩)
    have hsame := dclosedir_unknown hmapped (Mem.mfree_unknown hr hnone)
    rw [hclose] at hsame
    cases hsame
    rcases hright with ⟨h, hh, heq, hacts⟩ | ⟨hnoHandle, -, -⟩
    · exact List.cons_ne_self _ _ hacts.log.symm
    · exact hnot (Or.inr ⟨fun ⟨h, hh, heq⟩ => hnoHandle h hh heq, halloc, hmapped⟩)

theorem Good.not_answers (hg : Good s) {c : Call} (hnot : ¬ Sound s c) :
    ¬ Machine.Answers Handles.step Right s c := by
  cases c with
  | dopendir path flag found => exact hg.not_answers_dopendir hnot
  | dreaddir len dirhandle buf =>
    rintro ⟨r, s', hrun, hright⟩
    obtain ⟨⟨e, t⟩, hread, hend⟩ := Run.bind_eq_ok.mp hrun
    cases hend
    obtain ⟨id, hlog⟩ := dreaddir_log hread
    exact not_answered hnot hlog hright
  | drewinddir dirhandle =>
    rintro ⟨r, s', hrun, hright⟩
    obtain ⟨⟨e, t⟩, hrewind, hend⟩ := Run.bind_eq_ok.mp hrun
    cases hend
    obtain ⟨id, hlog⟩ := drewinddir_log hrewind
    exact not_answered hnot hlog hright
  | dclosedir dirhandle => exact hg.not_answers_dclosedir hnot
  | memory c => exact absurd trivial hnot
  | guest memory errno => exact absurd trivial hnot

end Steps

/-! ### Whole runs -/

/-- Where a run starts: no stream was opened yet, and the memory manager is as
    `InitCookieJar` leaves it. -/
structure Fresh (s : State) : Prop where
  blocks : Mem.malloc 0x800 Mem.initMemory = Except.ok (0x10000, s.blocks)
  host : s.host = Host.init

theorem Fresh.good {s : State} (hs : Fresh s) : Good ⟨s, []⟩ where
  blocks := ⟨_, Mem.boot_rep_of hs.blocks⟩
  numbered := by
    rw [show (⟨s, []⟩ : System).state.host = Host.init from hs.host]
    exact Numbered.init
  points := fun _ hh => by cases hh
  stream := fun _ hh => by cases hh
  distinct := fun _ hh => by cases hh

/-- A program opens a directory, closes it, and goes on using the handle. -/
def useAfterClose : List Call :=
  [.dopendir (some [47]) 0 (some (0x7000, [])), .dclosedir 0x10800, .drewinddir 0x10800]

theorem exists_fresh : ∃ s, Fresh s := by
  obtain ⟨blocks, hboot, -⟩ := Mem.boot_rep
  exact ⟨⟨Memory.initM68KMemory, blocks, Host.init, .zero⟩, hboot, rfl⟩

theorem useAfterClose_promised {s : State} (hs : Fresh s) :
    Machine.Meets step Promised useAfterClose ⟨s, []⟩ := by
  refine ⟨?_, fun _ _ _ => ⟨trivial, fun _ _ _ => ⟨trivial, fun _ _ _ => trivial⟩⟩⟩
  show s.host.streams 0x7000 = none
  rw [hs.host]
  rfl

/-- A handle that was closed, or refused, is not in use. -/
theorem not_inUse_closed {s s' : System} {dirhandle : UInt32} {answer : Mem.Reply}
    (hrun : step (.dclosedir dirhandle) s = Except.ok (answer, s'))
    (hright : Answered .closed s dirhandle answer s') : ¬ InUse s' dirhandle := by
  obtain ⟨⟨r, t⟩, hclose, hend⟩ := Run.bind_eq_ok.mp hrun
  cases hend
  by_cases hr : 0 ≤ r
  · rintro ⟨h, hh, heq⟩
    have hclosed : s.closed dirhandle r = s.handles.filter fun k => k.address ≠ dirhandle :=
      if_pos hr
    rw [hclosed, List.mem_filter, decide_eq_true_eq] at hh
    exact hh.2 heq
  · have hclosed : s.closed dirhandle r = s.handles := if_neg hr
    rw [hclosed]
    rcases hright with ⟨h, -, -, hacts⟩ | ⟨hnone, -, -⟩
    · -- no stream is closed where `Mfree` fails
      obtain ⟨p, -, hclose⟩ := Run.bind_eq_ok.mp hclose
      obtain ⟨⟨e, blocks⟩, -, hclose⟩ := Run.bind_eq_ok.mp hclose
      by_cases he : e < 0
      · simp only [he, if_true] at hclose
        cases hclose
        exact absurd hacts.log.symm (List.cons_ne_self _ _)
      · simp only [he, if_false] at hclose
        obtain ⟨host, -, hclose⟩ := Run.bind_eq_ok.mp hclose
        cases hclose
        exact absurd (Int32.not_lt.mp he) hr
    · exact fun ⟨h, hh, heq⟩ => hnone h hh heq

end Handles

end ParaTos.Dir
