/-
  ParaTos/DirReads.lean
  =====================
  **Reading a directory to its end.**

  A session is a handle that `Dopendir` has returned, and the calls that follow:
  `Dreaddir` and `Drewinddir` on the handle, and any other calls in between, which
  may do whatever they like except to the block of the handle and to its stream.

  `Dreaddir` should deliver the entries one after the other, and answer
  `TOS_ENMFIL` behind the last one.  It tells the end from a failure by `errno`,
  which `readdir` does not touch at the end and every call that failed has set.
  `reads_iff` says which sessions go well.
-/
import ParaTos.Dir
import ParaTos.Machine

namespace ParaTos.Dir

open Bytes Streams

namespace Reads

/-- The state, and how often `Dreaddir` was called since the stream was opened or rewound. -/
structure Session where
  state : State
  reads : Nat

inductive Call where
  | dreaddir (len : Int16) (buf : UInt32)
  | drewinddir
  /-- any other call, succeeding or failing, and what the guest does in between -/
  | other (effect : State → State)

def step (dirhandle : UInt32) : Call → Session → Run (Int32 × Session)
  | .dreaddir len buf, s => do
    let (r, state) ← dreaddir len dirhandle buf s.state
    return (r, ⟨state, s.reads + 1⟩)
  | .drewinddir, s => do
    let (r, state) ← drewinddir dirhandle s.state
    return (r, ⟨state, 0⟩)
  | .other effect, s => Except.ok (Mem.tosEOk, ⟨effect s.state, s.reads⟩)

/-- The buffer is apart from the handle's block, which other calls leave alone as they do
    the stream. -/
def Alone (dirhandle : UInt32) (p : UInt64) (s : Session) : Call → Prop
  | .dreaddir _ buf =>
    BufferFits buf ∧ (buf.toNat + 261 ≤ dirhandle.toNat ∨ dirhandle.toNat + 8 ≤ buf.toNat)
  | .drewinddir => True
  | .other effect => PointsTo (effect s.state).memory dirhandle p ∧
    (effect s.state).host.streams p = s.state.host.streams p

/-- The n-th `Dreaddir` delivers the n-th entry, and `TOS_ENMFIL` when there is none. -/
def Right (entries : List Dirent) (s : Session) (c : Call) (r : Int32) (s' : Session) : Prop :=
  match c with
  | .dreaddir _ buf =>
    match entries[s.reads]? with
    | some entry => r = Mem.tosEOk ∧ Shows s'.state.memory buf.toNat (delivered entry)
    | none => r = tosEnmfil
  | .drewinddir => r = Mem.tosEOk
  | .other _ => True

/-- At the end of the directory `errno` is 0, and the byte behind a name of `NAME_MAX`
    bytes is zero in the buffer. -/
def Undisturbed (entries : List Dirent) (s : Session) : Call → Prop
  | .dreaddir _ buf =>
    match entries[s.reads]? with
    | some entry => entry.name.length < nameMax.toNat ∨
      s.state.memory (buf.toNat + 4 + nameMax.toNat) = 0
    | none => s.state.errno = .zero
  | _ => True

/-- The handle leads to the stream, which stands where the count says. -/
structure Positioned (dirhandle : UInt32) (p : UInt64) (entries : List Dirent) (s : Session) :
    Prop where
  points : PointsTo s.state.memory dirhandle p
  stream : ∃ id, s.state.host.streams p = some ⟨id, entries, min s.reads entries.length⟩

section Steps

variable {dirhandle : UInt32} {p : UInt64} {entries : List Dirent} {s : Session}

theorem step_dreaddir {len : Int16} {buf : UInt32} {r : Int32} {t : State}
    (h : Dir.dreaddir len dirhandle buf s.state = Except.ok (r, t)) :
    step dirhandle (.dreaddir len buf) s = Except.ok (r, ⟨t, s.reads + 1⟩) := by
  simp [step, h]

theorem step_drewinddir {r : Int32} {t : State}
    (h : Dir.drewinddir dirhandle s.state = Except.ok (r, t)) :
    step dirhandle .drewinddir s = Except.ok (r, ⟨t, 0⟩) := by
  simp [step, h]

/-- The entry at the position of the stream is the one that the count asks for. -/
theorem getElem?_position (n : Nat) : entries[min n entries.length]? = entries[n]? := by
  by_cases h : n ≤ entries.length
  · rw [Nat.min_eq_left h]
  · have hle : entries.length ≤ n := Nat.le_of_not_le h
    rw [Nat.min_eq_right hle, List.getElem?_eq_none hle, List.getElem?_eq_none (Nat.le_refl _)]

/-- A call of `Dreaddir` answers what the stream holds, and `errno` decides at the end. -/
theorem Positioned.dreaddir (hi : Positioned dirhandle p entries s)
    (hnames : ∀ entry ∈ entries, entry.name.length ≤ nameMax.toNat) (len : Int16) {buf : UInt32}
    (halone : Alone dirhandle p s (.dreaddir len buf)) :
    ∃ r s', step dirhandle (.dreaddir len buf) s = Except.ok (r, s') ∧
      Positioned dirhandle p entries s' ∧ s'.reads = s.reads + 1 ∧
      s'.state.errno = s.state.errno ∧
      (Right entries s (.dreaddir len buf) r s' ↔ Undisturbed entries s (.dreaddir len buf)) := by
  obtain ⟨hpoints, id, hstream⟩ := hi
  obtain ⟨hfits, hapart⟩ := halone
  have hpos := @getElem?_position entries s.reads
  simp only [Right, Undisturbed]
  cases hentry : entries[s.reads]? with
  | none =>
    have hend := @dreaddir_end s.state dirhandle buf p _ len hpoints hstream (hpos.trans hentry)
    have hlen : entries.length ≤ s.reads := List.getElem?_eq_none_iff.mp hentry
    refine ⟨_, _, step_dreaddir hend, ⟨hpoints, id, ?_⟩, rfl, rfl, ?_⟩
    · simpa [Nat.min_eq_right hlen, Nat.min_eq_right (Nat.le_succ_of_le hlen)] using hstream
    · by_cases herrno : s.state.errno = .zero
      · simp [herrno]
      · simp [herrno, tosEihndl, tosEnmfil]
  | some entry =>
    obtain ⟨l, hrun, hlen, hshows⟩ :=
      @dreaddir_entry s.state dirhandle buf p _ len entry hpoints hstream (hpos.trans hentry) hfits
    have hlt : s.reads < entries.length := (List.getElem?_eq_some_iff.mp hentry).1
    refine ⟨_, _, step_dreaddir hrun, ⟨?_, id, ?_⟩, rfl, rfl, ?_⟩
    · exact hpoints.write (by omega)
    · simp [Nat.min_eq_left (Nat.le_of_lt hlt), Nat.min_eq_left hlt]
    · refine Iff.trans ?_ (hshows (hnames entry (List.mem_of_getElem? hentry)))
      exact ⟨fun h => h.2, fun h => ⟨rfl, h⟩⟩

/-- The other calls of a session. -/
theorem Positioned.step (hi : Positioned dirhandle p entries s)
    (hnames : ∀ entry ∈ entries, entry.name.length ≤ nameMax.toNat) {c : Call}
    (halone : Alone dirhandle p s c) :
    ∃ r s', Reads.step dirhandle c s = Except.ok (r, s') ∧ Positioned dirhandle p entries s' ∧
      (Right entries s c r s' ↔ Undisturbed entries s c) := by
  cases c with
  | dreaddir len buf =>
    obtain ⟨r, s', hrun, hi', -, -, hiff⟩ := hi.dreaddir hnames len halone
    exact ⟨r, s', hrun, hi', hiff⟩
  | drewinddir =>
    obtain ⟨hpoints, id, hstream⟩ := hi
    have hrun := drewinddir_open hpoints hstream
    refine ⟨_, _, step_drewinddir hrun, ⟨hpoints, id, ?_⟩, ?_⟩
    · simp
    · exact iff_of_true rfl trivial
  | other effect =>
    obtain ⟨-, id, hstream⟩ := hi
    obtain ⟨hpoints, hsame⟩ := halone
    exact ⟨_, _, rfl, ⟨hpoints, id, hsame.trans hstream⟩, iff_of_true trivial trivial⟩

/-- Calls that leave every good handle alone do so in a whole session. -/
theorem Positioned.meets_alone (hnames : ∀ entry ∈ entries, entry.name.length ≤ nameMax.toNat) :
    ∀ (calls : List Call) {s : Session}, Positioned dirhandle p entries s →
      (∀ c ∈ calls, ∀ t, Positioned dirhandle p entries t → Alone dirhandle p t c) →
      Machine.Meets (Reads.step dirhandle) (Alone dirhandle p) calls s := by
  intro calls
  induction calls with
  | nil => exact fun _ _ => trivial
  | cons c calls ih =>
    intro s hi hcalls
    have halone := hcalls c (by simp) s hi
    refine ⟨halone, ?_⟩
    intro r s' hrun
    obtain ⟨r₁, s₁, hrun₁, hi₁, -⟩ := hi.step hnames halone
    rw [hrun] at hrun₁
    cases hrun₁
    exact ih hi₁ (fun d hd => hcalls d (by simp [hd]))

end Steps

/-- **When a directory is read to its end**: exactly if the session is undisturbed at
    every call. -/
theorem reads_iff {dirhandle : UInt32} {p : UInt64} {s : State} {id : Nat}
    {entries : List Dirent} (hpoints : PointsTo s.memory dirhandle p)
    (hopen : s.host.streams p = some ⟨id, entries, 0⟩)
    (hnames : ∀ entry ∈ entries, entry.name.length ≤ nameMax.toNat) (calls : List Call)
    (halone : Machine.Meets (step dirhandle) (Alone dirhandle p) calls ⟨s, 0⟩) :
    Machine.Meets (step dirhandle) (Machine.Answers (step dirhandle) (Right entries)) calls
        ⟨s, 0⟩ ↔
      Machine.Meets (step dirhandle) (Undisturbed entries) calls ⟨s, 0⟩ := by
  have hstart : Positioned dirhandle p entries ⟨s, 0⟩ := ⟨hpoints, id, by simpa using hopen⟩
  refine Machine.answers_iff_meets ?_ ?_ calls hstart halone
  · intro s c hi hd hcond
    obtain ⟨r, s', hrun, hi', hiff⟩ := hi.step hnames hd
    exact ⟨r, s', hrun, hiff.mpr hcond, hi'⟩
  · rintro s c hi hd hnot ⟨r, s', hrun, hright⟩
    obtain ⟨r₁, s₁, hrun₁, -, hiff⟩ := hi.step hnames hd
    rw [hrun] at hrun₁
    cases hrun₁
    exact hnot (hiff.mp hright)

/-! ### A session that goes wrong -/

/-- The entries of an empty directory. -/
def dots : List Dirent := [⟨1, [46]⟩, ⟨2, [46, 46]⟩]

/-- A handle at `0x10800` and its stream, just opened. -/
def opened : State where
  memory := write Memory.initM68KMemory 0x10800 (bigEndian 8 0x7000)
  blocks := Mem.initMemory
  host := opendir 0x7000 dots Host.init
  errno := .zero

/-- A call that looks for a file and does not find it. -/
def missingFile : Call := .other fun s => { s with errno := .enoent }

/-- The session reads both entries, looks for a file in vain, and asks for a third one. -/
def session : List Call :=
  [.dreaddir 0 0x20000, .dreaddir 0 0x20000, missingFile, .dreaddir 0 0x20000]

theorem opened_points : PointsTo opened.memory 0x10800 0x7000 := ⟨shows_write _ _ _, by decide⟩

theorem session_alone :
    Machine.Meets (step 0x10800) (Alone 0x10800 0x7000) session ⟨opened, 0⟩ := by
  apply Positioned.meets_alone (by decide) session ⟨opened_points, 0, rfl⟩
  have hread : ∀ t, Alone 0x10800 0x7000 t (.dreaddir 0 0x20000) :=
    fun _ => ⟨by unfold BufferFits; decide, Or.inr (by decide)⟩
  intro c hc t ht
  simp only [session, List.mem_cons, List.not_mem_nil, or_false] at hc
  rcases hc with rfl | rfl | rfl | rfl
  · exact hread t
  · exact hread t
  · exact ⟨ht.points, rfl⟩
  · exact hread t

theorem reads_iff_session :
    Machine.Meets (step 0x10800) (Machine.Answers (step 0x10800) (Right dots)) session
        ⟨opened, 0⟩ ↔
      Machine.Meets (step 0x10800) (Undisturbed dots) session ⟨opened, 0⟩ :=
  reads_iff opened_points rfl (by decide) session session_alone

/-- The third `Dreaddir` does not answer `TOS_ENMFIL`. -/
theorem end_of_directory_missed :
    ¬ Machine.Meets (step 0x10800) (Machine.Answers (step 0x10800) (Right dots)) session
      ⟨opened, 0⟩ := by
  have hread : ∀ t, Alone 0x10800 0x7000 t (.dreaddir 0 0x20000) :=
    fun _ => ⟨by unfold BufferFits; decide, Or.inr (by decide)⟩
  have hstart : Positioned 0x10800 0x7000 dots ⟨opened, 0⟩ := ⟨opened_points, 0, rfl⟩
  obtain ⟨r₁, s₁, hrun₁, hi₁, hreads₁, -, -⟩ := hstart.dreaddir (by decide) 0 (hread _)
  obtain ⟨r₂, s₂, hrun₂, hi₂, hreads₂, -, -⟩ := hi₁.dreaddir (by decide) 0 (hread _)
  let s₃ : Session := ⟨{ s₂.state with errno := .enoent }, s₂.reads⟩
  have hi₃ : Positioned 0x10800 0x7000 dots s₃ := ⟨hi₂.points, hi₂.stream⟩
  obtain ⟨r₄, s₄, hrun₄, -, -, -, hiff⟩ := hi₃.dreaddir (by decide) 0 (hread _)
  intro h
  obtain ⟨r, s', hrun, hright⟩ := (((h.2 _ _ hrun₁).2 _ _ hrun₂).2 _ s₃ rfl).1
  rw [hrun₄] at hrun
  cases hrun
  have hreads : s₃.reads = 2 := by
    show s₂.reads = 2
    rw [hreads₂, hreads₁]
  have herrno : s₃.state.errno = .zero := by simpa [Undisturbed, hreads, dots] using hiff.mp hright
  cases herrno

end Reads

end ParaTos.Dir
