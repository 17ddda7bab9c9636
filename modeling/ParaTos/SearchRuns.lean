/-
  ParaTos/SearchRuns.lean
  =======================
  **Searches over whole runs.**

  A run is any list of `Fsetdta`, `Fsfirst` and `Fsnext`, with whatever the guest does
  in between.  Beside the state it carries the buffers that have been the DTA, and for
  each of them the record of the search that it holds: the one that `Fsfirst` stored
  there and that has not been freed since.  The calls do not look at these.

  Records and streams belong to the DTA that holds them.  `searches_iff` says which
  runs lose none of them and follow no other pointer.
-/
import ParaTos.FileSearch
import ParaTos.LoaderBounds
import ParaTos.Machine

namespace ParaTos.FileSearch

open Bytes Loader Memory Streams
open Dir (PointsTo)

namespace Runs

/-- The state, the buffers that have been the DTA, and the searches that they hold. -/
structure System where
  state : State
  dtas : List UInt32
  searches : UInt32 → Option UInt64

inductive Call where
  | fsetdta (buf : UInt32)
  | fsfirst (path : Option (List UInt8)) (attr : Int16) (priv : UInt64)
      (found : List UInt8 → Option (UInt64 × List Entry)) (unset : Stat)
  | fsnext (unset : Stat)
  /-- what the guest writes in between -/
  | guest (memory : Memory)

/-- The record is there. -/
def State.live (s : State) (p : UInt64) : Bool := (s.records.cells p).isSome

section Process

variable (currentProcess : UInt32) (localtime : Int64 → Tm)

def step : Call → System → Run (Int32 × System)
  | .fsetdta buf, s => do
    let state ← fsetdta currentProcess buf s.state
    return (Mem.tosEOk, ⟨state, buf :: s.dtas, s.searches⟩)
  | .fsfirst path attr priv found unset, s => do
    let b ← readBasepage currentProcess pDta s.state.memory
    let (r, state) ← fsfirst currentProcess localtime path attr priv found unset s.state
    let searches :=
      if path = none then s.searches
      else Function.update s.searches b ((some priv).filter (State.live state))
    return (r, ⟨state, s.dtas, searches⟩)
  | .fsnext unset, s => do
    let b ← readBasepage currentProcess pDta s.state.memory
    let (r, state) ← fsnext currentProcess localtime unset s.state
    let searches := Function.update s.searches b ((s.searches b).filter (State.live state))
    return (r.toInt32, ⟨state, s.dtas, searches⟩)
  | .guest memory, s =>
    Except.ok (Mem.tosEOk, ⟨{ s.state with memory }, s.dtas, s.searches⟩)

/-! ### What is promised, what is right, and what it takes -/

/-- Two buffers of `n` bytes that do not overlap. -/
def Apart (n : Nat) (a b : UInt32) : Prop := a.toNat + n ≤ b.toNat ∨ b.toNat + n ≤ a.toNat

/-- A buffer for a DTA: it lies in the RAM and apart from the field `p_dta`. -/
structure IsBuffer (buf : UInt32) : Prop where
  fits : buf.toNat + sizeofDTA ≤ 0x1000000
  apart : buf.toNat + sizeofDTA ≤ currentProcess.toNat + 32 ∨
    currentProcess.toNat + 36 ≤ buf.toNat

/-- Host and guest keep to this: buffers do not overlap, `calloc` and `opendir` yield
    pointers that are not in use, and the guest writes neither to the first 8 bytes of a
    DTA nor to `p_dta`. -/
def Promised (s : System) : Call → Prop
  | .fsetdta buf => IsBuffer currentProcess buf ∧
    ∀ b ∈ s.dtas, b = buf ∨ Apart sizeofDTA b buf
  | .fsfirst _ _ priv found _ =>
    priv ≠ 0 ∧ s.state.records.cells priv = none ∧
      ∀ dir dirh entries, found dir = some (dirh, entries) →
        dirh ≠ 0 ∧ s.state.host.streams dirh = none
  | .fsnext _ => True
  | .guest memory =>
    (∀ b ∈ s.dtas, ∀ i < 8, memory (b.toNat + i) = s.state.memory (b.toNat + i)) ∧
      ∀ i < 4, memory (currentProcess.toNat + 32 + i) =
        s.state.memory (currentProcess.toNat + 32 + i)

/-- The buffer holds the search of the record, and its first 8 bytes point there. -/
structure Refers (s : System) (b : UInt32) (p : UInt64) : Prop where
  used : b ∈ s.dtas
  holds : s.searches b = some p
  pointer : readMemory64 b s.state.memory = Except.ok p

/-- Every record and every stream is referred to by exactly one DTA, or it was freed or
    closed exactly once. -/
structure Accounted (s : System) : Prop where
  streams : ∀ i < s.state.host.next,
    (∃ q d p c, s.state.host.streams q = some d ∧ d.id = i ∧
      s.state.records.cells p = some c ∧ c.val.dirh = q ∧ ∃! b, Refers s b p) ∨
    s.state.host.log.count (.closed i) = 1
  records : ∀ i < s.state.records.next,
    (∃ p c, s.state.records.cells p = some c ∧ c.id = i ∧ ∃! b, Refers s b p) ∨
    s.state.records.freed.count i = 1

/-- The current DTA. -/
def Current (s : System) (b : UInt32) : Prop :=
  readBasepage currentProcess pDta s.state.memory = Except.ok b

/-- Everything is accounted for behind the call, and `Fsnext` answers `TOS_ENMFIL` and
    does nothing where the DTA holds no search. -/
def Right (s : System) (c : Call) (r : Int32) (s' : System) : Prop :=
  Accounted s' ∧
    match c with
    | .fsnext _ => ∀ b, Current currentProcess s b → s.searches b = none →
      r = tosEnmfil ∧ s'.state = s.state
    | _ => True

/-- The calls that are served well: `Fsfirst` where the DTA holds no search that has not
    come to its end, and `Fsnext` where it holds one or its first 8 bytes are zero. -/
def Sound (s : System) : Call → Prop
  | .fsfirst (some _) _ _ _ _ => ∀ b, Current currentProcess s b → s.searches b = none
  | .fsnext _ => ∀ b, Current currentProcess s b →
    s.searches b ≠ none ∨ readMemory64 b s.state.memory = Except.ok 0
  | _ => True

end Process

/-! ### The invariant -/

/-- Every record belongs to one DTA that points to it, and every stream to one record. -/
structure Good (currentProcess : UInt32) (s : System) : Prop where
  numbered : Numbered s.state.host
  complete : Complete s.state.host
  tidy : Pool.Tidy s.state.records
  current : ∃ b ∈ s.dtas,
    Shows s.state.memory (currentProcess.toNat + 32) (bigEndian 4 b.toNat)
  buffer : ∀ b ∈ s.dtas, IsBuffer currentProcess b
  apart : ∀ b ∈ s.dtas, ∀ b' ∈ s.dtas, b = b' ∨ Apart sizeofDTA b b'
  position : ∀ q d, s.state.host.streams q = some d → d.pos ≤ d.entries.length
  held : ∀ b p, s.searches b = some p →
    b ∈ s.dtas ∧ p ≠ 0 ∧ PointsTo s.state.memory b p ∧ s.state.records.cells p ≠ none
  holder : ∀ p c, s.state.records.cells p = some c → ∃ b, s.searches b = some p
  alone : ∀ b b' p, s.searches b = some p → s.searches b' = some p → b = b'
  stream : ∀ p c, s.state.records.cells p = some c →
    c.val.dirh ≠ 0 ∧ s.state.host.streams c.val.dirh ≠ none
  record : ∀ q d, s.state.host.streams q = some d →
    ∃ p c, s.state.records.cells p = some c ∧ c.val.dirh = q
  distinct : ∀ p p' c c', s.state.records.cells p = some c → s.state.records.cells p' = some c' →
    c.val.dirh = c'.val.dirh → p = p'

section Invariant

variable {currentProcess : UInt32} {s : System} {b : UInt32} {p : UInt64}

theorem Good.refers (hg : Good currentProcess s) (h : s.searches b = some p) :
    ∃! b, Refers s b p := by
  obtain ⟨hb, -, hpoints, -⟩ := hg.held b p h
  refine ⟨b, ⟨hb, h, hpoints.read⟩, ?_⟩
  intro b' h'
  exact hg.alone b' b p h'.holds h

theorem Good.accounted (hg : Good currentProcess s) : Accounted s where
  streams := by
    intro i hi
    rcases hg.complete i hi with ⟨q, d, hd, hid⟩ | hclosed
    · obtain ⟨p, c, hc, hdirh⟩ := hg.record q d hd
      obtain ⟨b, hb⟩ := hg.holder p c hc
      exact Or.inl ⟨q, d, p, c, hd, hid, hc, hdirh, hg.refers hb⟩
    · have hpos := List.count_pos_iff.mpr hclosed
      exact Or.inr (Nat.le_antisymm (hg.numbered.once i) hpos)
  records := by
    intro i hi
    rcases hg.tidy.complete i hi with ⟨p, c, hc, hid⟩ | hfreed
    · obtain ⟨b, hb⟩ := hg.holder p c hc
      exact Or.inl ⟨p, c, hc, hid, hg.refers hb⟩
    · exact Or.inr (List.count_eq_one_of_mem hg.tidy.once hfreed)

/-- `p_dta` leads to the current DTA. -/
theorem Good.read (hbase : currentProcess.toNat + 260 ≤ 0x1000000) (hg : Good currentProcess s) :
    ∃ b ∈ s.dtas, Current currentProcess s b := by
  obtain ⟨b, hb, hshows⟩ := hg.current
  exact ⟨b, hb, readBasepage_shows hbase (by decide) hshows⟩

/-- A write that leaves the pointers of the DTAs and `p_dta` alone. -/
theorem Good.memory (hg : Good currentProcess s) {m : Memory}
    (hdtas : ∀ b ∈ s.dtas, ∀ i < 8, m (b.toNat + i) = s.state.memory (b.toNat + i))
    (hfield : ∀ i < 4, m (currentProcess.toNat + 32 + i) =
      s.state.memory (currentProcess.toNat + 32 + i)) :
    Good currentProcess ⟨{ s.state with memory := m }, s.dtas, s.searches⟩ := by
  refine { hg with current := ?_, held := ?_ }
  · obtain ⟨b, hb, hshows⟩ := hg.current
    refine ⟨b, hb, hshows.congr ?_⟩
    intro x hlo hhi
    rw [bigEndian_length] at hhi
    have hkept := hfield (x - (currentProcess.toNat + 32)) (by omega)
    rwa [Nat.add_sub_cancel' hlo] at hkept
  · intro b p h
    obtain ⟨hb, hp, hpoints, hrecord⟩ := hg.held b p h
    refine ⟨hb, hp, ⟨hpoints.shows.congr ?_, hpoints.fits⟩, hrecord⟩
    intro x hlo hhi
    rw [bigEndian_length] at hhi
    have hkept := hdtas b hb (x - b.toNat) (by omega)
    rwa [Nat.add_sub_cancel' hlo] at hkept

/-- The stream of a record moves on. -/
theorem Good.advanced (hg : Good currentProcess s) {c : Pool.Cell DTAPrivate} {id : Nat}
    {pre rest : List Entry}
    (hd : s.state.host.streams c.val.dirh = some ⟨id, pre ++ rest, pre.length⟩)
    (left : List Entry) (k : Nat) :
    Good currentProcess ⟨{ s.state with
      host := advanced c id (pre ++ rest) left k s.state.host }, s.dtas, s.searches⟩ := by
  have hreads : ∀ i, Event.closed i ∉ List.replicate k (Event.read id) := by
    intro i hi
    cases List.eq_of_mem_replicate hi
  refine { hg with
    numbered := @Numbered.moves _ _ _ _ hg.numbered hd _ _ hreads
    complete := @Complete.moves _ _ _ _ hg.complete hd _ _
    position := ?_, stream := ?_, record := ?_ }
  · intro q d hq
    rcases Lookup.update_some.mp hq with ⟨-, rfl⟩ | ⟨-, hold⟩
    · exact Nat.sub_le _ _
    · exact hg.position q d hold
  · intro p' c' hc'
    obtain ⟨hne, hopen⟩ := hg.stream p' c' hc'
    refine ⟨hne, ?_⟩
    show (FileSearch.advanced c id _ left k s.state.host).streams c'.val.dirh ≠ none
    by_cases heq : c'.val.dirh = c.val.dirh
    · rw [heq, advanced_self]
      exact Option.some_ne_none _
    · rwa [advanced_other heq]
  · intro q d hq
    rcases Lookup.update_some.mp hq with ⟨heq, -⟩ | ⟨-, hold⟩
    · rw [heq]
      exact hg.record _ _ hd
    · exact hg.record q d hold

/-- Eight bytes at the start of one DTA are apart from `p_dta` and the other DTAs. -/
theorem Good.current_write (hg : Good currentProcess s) (hb : b ∈ s.dtas) {l : List UInt8}
    (hl : l.length = 8) : ∃ b' ∈ s.dtas,
    Shows (write s.state.memory b.toNat l) (currentProcess.toNat + 32)
      (bigEndian 4 b'.toNat) := by
  obtain ⟨b', hb', hshows⟩ := hg.current
  have happart := (hg.buffer b hb).apart
  unfold sizeofDTA at happart
  exact ⟨b', hb', hshows.write (by rw [bigEndian_length]; omega)⟩

theorem Good.points_write (hg : Good currentProcess s) (hb : b ∈ s.dtas) {l : List UInt8}
    (hl : l.length = 8) {b' : UInt32} (hb' : b' ∈ s.dtas) (hne : b' ≠ b) {p' : UInt64}
    (h : PointsTo s.state.memory b' p') :
    PointsTo (write s.state.memory b.toNat l) b' p' := by
  have happart := (hg.apart b' hb' b hb).resolve_left hne
  unfold Apart sizeofDTA at happart
  exact h.write (by omega)

/-- A search comes to its end. -/
theorem Good.ended (hg : Good currentProcess s) (hholds : s.searches b = some p)
    {c : Pool.Cell DTAPrivate} {d : Stream Entry} (hc : s.state.records.cells p = some c)
    (hd : s.state.host.streams c.val.dirh = some d) :
    Good currentProcess
      ⟨ended p c d b s.state, s.dtas, Function.update s.searches b none⟩ := by
  obtain ⟨hb, -⟩ := hg.held b p hholds
  have hlen : (bigEndian 8 0).length = 8 := bigEndian_length 8 0
  -- the other searches have other records, and those have other streams
  have hsearches : ∀ b' p', Function.update s.searches b none b' = some p' →
      b' ≠ b ∧ p' ≠ p ∧ s.searches b' = some p' := by
    intro b' p' h
    obtain ⟨hne, h⟩ := Lookup.update_none.mp h
    refine ⟨hne, ?_, h⟩
    rintro rfl
    exact hne (hg.alone b' b p' h hholds)
  have hcells : ∀ p' c', (FileSearch.ended p c d b s.state).records.cells p' = some c' →
      p' ≠ p ∧ s.state.records.cells p' = some c' := fun _ _ => Lookup.update_none.mp
  have hstreams : ∀ q e, (FileSearch.ended p c d b s.state).host.streams q = some e →
      q ≠ c.val.dirh ∧ s.state.host.streams q = some e := fun _ _ => Lookup.update_none.mp
  constructor
  · exact hg.numbered.close hd
  · exact hg.complete.close hd
  · exact hg.tidy.free hc
  · exact hg.current_write hb hlen
  · exact hg.buffer
  · exact hg.apart
  · exact fun q e he => hg.position q e (hstreams q e he).2
  · intro b' p' h
    obtain ⟨hne, hp', h⟩ := hsearches b' p' h
    obtain ⟨hb', hnonnull, hpoints, hcell⟩ := hg.held b' p' h
    refine ⟨hb', hnonnull, hg.points_write hb hlen hb' hne hpoints, ?_⟩
    show Function.update s.state.records.cells p none p' ≠ none
    rwa [Function.update_of_ne hp']
  · intro p' c' hc'
    obtain ⟨hne, hc'⟩ := hcells p' c' hc'
    obtain ⟨b', h⟩ := hg.holder p' c' hc'
    have hb' : b' ≠ b := by
      rintro rfl
      rw [hholds] at h
      cases h
      exact hne rfl
    exact ⟨b', (Function.update_of_ne hb' _ _).trans h⟩
  · intro b₁ b₂ p' h₁ h₂
    exact hg.alone b₁ b₂ p' (hsearches b₁ p' h₁).2.2 (hsearches b₂ p' h₂).2.2
  · intro p' c' hc'
    obtain ⟨hne, hc'⟩ := hcells p' c' hc'
    obtain ⟨hdirh, hopen⟩ := hg.stream p' c' hc'
    refine ⟨hdirh, ?_⟩
    show Function.update s.state.host.streams c.val.dirh none c'.val.dirh ≠ none
    rwa [Function.update_of_ne fun heq => hne (hg.distinct p' p c' c hc' hc heq)]
  · intro q e he
    obtain ⟨hne, he⟩ := hstreams q e he
    obtain ⟨p', c', hc', rfl⟩ := hg.record q e he
    refine ⟨p', c', ?_, rfl⟩
    show Function.update s.state.records.cells p none p' = some c'
    rw [Function.update_of_ne, hc']
    rintro rfl
    rw [hc] at hc'
    cases hc'
    exact hne rfl
  · intro p₁ p₂ c₁ c₂ h₁ h₂ heq
    exact hg.distinct p₁ p₂ c₁ c₂ (hcells p₁ c₁ h₁).2 (hcells p₂ c₂ h₂).2 heq

/-- A search begins in a DTA that holds none. -/
theorem Good.begins (hg : Good currentProcess s) (hb : b ∈ s.dtas)
    (hholds : s.searches b = none) (hp : p ≠ 0) (hcell : s.state.records.cells p = none)
    {v : DTAPrivate} (hdirh : v.dirh ≠ 0) (hstream : s.state.host.streams v.dirh = none)
    (entries : List Entry) :
    Good currentProcess
      ⟨begun p v entries b s.state, s.dtas, Function.update s.searches b (some p)⟩ := by
  have hlen : (bigEndian 8 p.toNat).length = 8 := bigEndian_length 8 _
  have hfits := (hg.buffer b hb).fits
  unfold sizeofDTA at hfits
  have hsearches : ∀ b' p', Function.update s.searches b (some p) b' = some p' →
      (b' = b ∧ p' = p) ∨ (b' ≠ b ∧ p' ≠ p ∧ s.searches b' = some p') := by
    intro b' p' h
    rcases Lookup.update_some.mp h with ⟨heq, rfl⟩ | ⟨heq, hold⟩
    · exact Or.inl ⟨heq, rfl⟩
    · refine Or.inr ⟨heq, ?_, hold⟩
      rintro rfl
      exact (hg.held b' p' hold).2.2.2 hcell
  have hcells : ∀ p' c', Function.update s.state.records.cells p (some ⟨s.state.records.next, v⟩)
      p' = some c' → (p' = p ∧ c'.val = v) ∨ (p' ≠ p ∧ s.state.records.cells p' = some c') := by
    intro p' c' h
    rcases Lookup.update_some.mp h with ⟨heq, rfl⟩ | hold
    · exact Or.inl ⟨heq, rfl⟩
    · exact Or.inr hold
  have hother : ∀ p' c', s.state.records.cells p' = some c' → c'.val.dirh ≠ v.dirh := by
    intro p' c' hc' heq
    exact (hg.stream p' c' hc').2 (by rw [heq]; exact hstream)
  constructor
  · exact hg.numbered.opendir _ _
  · exact hg.complete.opendir hstream _
  · exact hg.tidy.calloc hcell v
  · exact hg.current_write hb hlen
  · exact hg.buffer
  · exact hg.apart
  · intro q d h
    rcases Lookup.update_some.mp h with ⟨-, rfl⟩ | ⟨-, hold⟩
    · exact Nat.zero_le _
    · exact hg.position q d hold
  · intro b' p' h
    rcases hsearches b' p' h with ⟨rfl, rfl⟩ | ⟨hne, hp', h⟩
    · refine ⟨hb, hp, ⟨shows_write _ _ _, by omega⟩, ?_⟩
      show Function.update s.state.records.cells p' _ p' ≠ none
      rw [Function.update_self]
      exact Option.some_ne_none _
    · obtain ⟨hb', hnonnull, hpoints, hcell'⟩ := hg.held b' p' h
      refine ⟨hb', hnonnull, hg.points_write hb hlen hb' hne hpoints, ?_⟩
      show Function.update s.state.records.cells p _ p' ≠ none
      rwa [Function.update_of_ne hp']
  · intro p' c' hc'
    rcases hcells p' c' hc' with ⟨rfl, -⟩ | ⟨-, hc'⟩
    · exact ⟨b, Function.update_self _ _ _⟩
    · obtain ⟨b', h⟩ := hg.holder p' c' hc'
      exact ⟨b', Lookup.update_kept hholds h _⟩
  · intro b₁ b₂ p' h₁ h₂
    rcases hsearches b₁ p' h₁ with ⟨rfl, rfl⟩ | ⟨-, hp₁, h₁⟩ <;>
      rcases hsearches b₂ p' h₂ with ⟨rfl, hp₂⟩ | ⟨-, hp₂, h₂⟩
    · rfl
    · exact absurd rfl hp₂
    · exact absurd hp₂ hp₁
    · exact hg.alone b₁ b₂ p' h₁ h₂
  · intro p' c' hc'
    show c'.val.dirh ≠ 0 ∧ Function.update s.state.host.streams v.dirh _ c'.val.dirh ≠ none
    rcases hcells p' c' hc' with ⟨-, hval⟩ | ⟨-, hc'⟩
    · rw [hval, Function.update_self]
      exact ⟨hdirh, Option.some_ne_none _⟩
    · obtain ⟨hne, hopen⟩ := hg.stream p' c' hc'
      rw [Function.update_of_ne (hother p' c' hc')]
      exact ⟨hne, hopen⟩
  · intro q d h
    rcases Lookup.update_some.mp h with ⟨hq, -⟩ | ⟨-, hold⟩
    · exact ⟨p, _, Function.update_self _ _ _, hq.symm⟩
    · obtain ⟨p', c', hc', hq⟩ := hg.record q d hold
      exact ⟨p', c', Lookup.update_kept hcell hc' _, hq⟩
  · intro p₁ p₂ c₁ c₂ h₁ h₂ heq
    rcases hcells p₁ c₁ h₁ with ⟨hp₁, hv₁⟩ | ⟨-, hold₁⟩ <;>
      rcases hcells p₂ c₂ h₂ with ⟨hp₂, hv₂⟩ | ⟨-, hold₂⟩
    · rw [hp₁, hp₂]
    · exact absurd (by rw [← heq, hv₁]) (hother p₂ c₂ hold₂)
    · exact absurd (by rw [heq, hv₂]) (hother p₁ c₁ hold₁)
    · exact hg.distinct p₁ p₂ c₁ c₂ hold₁ hold₂ heq

end Invariant

/-! ### The calls one by one -/

section Steps

variable {currentProcess : UInt32} {localtime : Int64 → Tm} {s : System} {b : UInt32} {p : UInt64}

theorem Good.shows (hbase : currentProcess.toNat + 260 ≤ 0x1000000)
    (hg : Good currentProcess s) (hcurrent : Current currentProcess s b) :
    b ∈ s.dtas ∧ Shows s.state.memory (currentProcess.toNat + 32) (bigEndian 4 b.toNat) := by
  obtain ⟨b', hb', hshows⟩ := hg.current
  have hread : readBasepage currentProcess pDta s.state.memory = Except.ok b' :=
    readBasepage_shows hbase (by decide) hshows
  rw [hcurrent] at hread
  cases hread
  exact ⟨hb', hshows⟩

theorem exists_domain (hbase : currentProcess.toNat + 260 ≤ 0x1000000) (m : Memory) :
    ∃ domain, readBasepage currentProcess mintDomain m = Except.ok domain := by
  have haddr := @field_address currentProcess hbase mintDomain (by decide)
  have hoff : mintDomain.toNat = 256 := rfl
  rw [readBasepage, readMemory32, peeks, if_pos fun i hi => mapped_of_lt (by omega)]
  exact ⟨_, rfl⟩

/-- A DTA that points to a record, whether it holds its search or not. -/
theorem Good.searching (hbase : currentProcess.toNat + 260 ≤ 0x1000000)
    (hg : Good currentProcess s) (hcurrent : Current currentProcess s b)
    (hpointer : readMemory64 b s.state.memory = Except.ok p) (hp : p ≠ 0) {c : Pool.Cell DTAPrivate}
    (hc : s.state.records.cells p = some c) :
    ∃ id pre rest domain, Searching currentProcess s.state b p c id pre rest domain := by
  obtain ⟨hb, -⟩ := hg.shows hbase hcurrent
  obtain ⟨hdirh, hopen⟩ := hg.stream p c hc
  obtain ⟨⟨id, entries, pos⟩, hd⟩ := Option.ne_none_iff_exists'.mp hopen
  have hpos : pos ≤ entries.length := hg.position _ _ hd
  obtain ⟨domain, hdomain⟩ := exists_domain hbase s.state.memory
  refine ⟨id, entries.take pos, entries.drop pos, domain, hcurrent, (hg.buffer b hb).fits,
    hpointer, hp, hc, hdirh, ?_, hdomain⟩
  rw [List.take_append_drop, List.length_take, Nat.min_eq_left hpos]
  exact hd

/-- `Fsnext` in a DTA that holds a search. -/
theorem Good.fsnext (hbase : currentProcess.toNat + 260 ≤ 0x1000000)
    (hg : Good currentProcess s) (hcurrent : Current currentProcess s b)
    (hholds : s.searches b = some p) (localtime : Int64 → Tm) (unset : Stat) :
    ∃ r t, FileSearch.fsnext currentProcess localtime unset s.state = Except.ok (r, t) ∧
      Good currentProcess
        ⟨t, s.dtas, Function.update s.searches b ((some p).filter (State.live t))⟩ := by
  obtain ⟨hb, hp, hpoints, hcell⟩ := hg.held b p hholds
  obtain ⟨c, hc⟩ := Option.ne_none_iff_exists'.mp hcell
  obtain ⟨id, pre, rest, domain, hsearching⟩ := hg.searching hbase hcurrent hpoints.read hp hc
  obtain ⟨r, t, m, left, k, -, hrun, houtside, ht⟩ := hsearching.fsnext localtime unset
  have hdtas : ∀ b' ∈ s.dtas, ∀ i < 8, m (b'.toNat + i) = s.state.memory (b'.toNat + i) := by
    intro b' hb' i hi
    apply houtside
    rcases hg.apart b' hb' b hb with rfl | happart
    · exact Or.inl (by omega)
    · unfold Apart sizeofDTA at happart
      omega
  have hfield : ∀ i < 4, m (currentProcess.toNat + 32 + i) =
      s.state.memory (currentProcess.toNat + 32 + i) := by
    intro i hi
    apply houtside
    have happart := (hg.buffer b hb).apart
    unfold sizeofDTA at happart
    omega
  have hmoved := (hg.advanced hsearching.stream left k).memory hdtas hfield
  refine ⟨r, t, hrun, ?_⟩
  rcases ht with rfl | rfl
  · have hlive : (some p).filter (State.live { s.state with
        memory := m
        host := FileSearch.advanced c id (pre ++ rest) left k s.state.host }) = some p := by
      simp [State.live, hc]
    rw [hlive, Function.update_eq_self_iff.mpr hholds.symm]
    exact hmoved
  · have hlive : (some p).filter (State.live (FileSearch.ended p c
        ⟨id, pre ++ rest, (pre ++ rest).length - left.length⟩ b { s.state with
        memory := m
        host := FileSearch.advanced c id (pre ++ rest) left k s.state.host })) = none := by
      simp [State.live, FileSearch.ended]
    rw [hlive]
    exact hmoved.ended hholds hc (advanced_self _ _ _ _ _ _)

/-- `Fsfirst` where the directory does not open. -/
theorem Good.fails (hg : Good currentProcess s) (hb : b ∈ s.dtas)
    (hholds : s.searches b = none) (hcell : s.state.records.cells p = none) (v : DTAPrivate) :
    Good currentProcess ⟨{ s.state with
      memory := write s.state.memory b.toNat (bigEndian 8 0)
      records :=
        { cells := Function.update (Function.update s.state.records.cells p
            (some ⟨s.state.records.next, v⟩)) p none
          freed := s.state.records.next :: s.state.records.freed
          next := s.state.records.next + 1 } }, s.dtas, s.searches⟩ := by
  have hlen : (bigEndian 8 0).length = 8 := bigEndian_length 8 0
  have hcells : Function.update (Function.update s.state.records.cells p
      (some ⟨s.state.records.next, v⟩)) p none = s.state.records.cells := by
    rw [Function.update_idem]
    exact Function.update_eq_self_iff.mpr hcell.symm
  have htidy := @Pool.Tidy.free _ p _ _ (hg.tidy.calloc hcell v) (Function.update_self _ _ _)
  simp only [Pool.calloc, hcells] at htidy
  rw [hcells]
  refine { hg with tidy := htidy, current := hg.current_write hb hlen, held := ?_ }
  intro b' p' h
  obtain ⟨hb', hp', hpoints, hcell'⟩ := hg.held b' p' h
  have hne : b' ≠ b := by
    rintro rfl
    rw [hholds] at h
    cases h
  exact ⟨hb', hp', hg.points_write hb hlen hb' hne hpoints, hcell'⟩

theorem step_fsnext {unset : Stat} {r : Int16} {t : State} (hcurrent : Current currentProcess s b)
    (hrun : FileSearch.fsnext currentProcess localtime unset s.state = Except.ok (r, t)) :
    step currentProcess localtime (.fsnext unset) s = Except.ok (r.toInt32,
      ⟨t, s.dtas, Function.update s.searches b ((s.searches b).filter (State.live t))⟩) := by
  unfold Current at hcurrent
  simp [step, hcurrent, hrun]

theorem step_fsfirst {path : List UInt8} {attr : Int16}
    {found : List UInt8 → Option (UInt64 × List Entry)} {unset : Stat} {r : Int32} {t : State}
    (hcurrent : Current currentProcess s b)
    (hrun : FileSearch.fsfirst currentProcess localtime (some path) attr p found unset s.state =
      Except.ok (r, t)) :
    step currentProcess localtime (.fsfirst (some path) attr p found unset) s = Except.ok (r,
      ⟨t, s.dtas, Function.update s.searches b ((some p).filter (State.live t))⟩) := by
  unfold Current at hcurrent
  simp [step, hcurrent, hrun]

/-- `Fsfirst` in a DTA that holds no search. -/
theorem Good.fsfirst (hbase : currentProcess.toNat + 260 ≤ 0x1000000)
    (hg : Good currentProcess s) (hcurrent : Current currentProcess s b)
    (hholds : s.searches b = none) {path : List UInt8} {attr : Int16}
    {found : List UInt8 → Option (UInt64 × List Entry)} {unset : Stat}
    (hdom : Promised currentProcess s (.fsfirst (some path) attr p found unset))
    (localtime : Int64 → Tm) :
    ∃ r s', step currentProcess localtime (.fsfirst (some path) attr p found unset) s =
      Except.ok (r, s') ∧ Good currentProcess s' := by
  obtain ⟨hp, hcell, hopens⟩ := hdom
  obtain ⟨hb, hshows⟩ := hg.shows hbase hcurrent
  have hfits := (hg.buffer b hb).fits
  unfold sizeofDTA at hfits
  cases hfound : found (splitPath path).1 with
  | none =>
    have hrun := @fsfirst_unfound currentProcess localtime path attr p found unset s.state b hcurrent
      (by omega) hfound
    refine ⟨_, _, step_fsfirst hcurrent hrun, ?_⟩
    have hlive : (some p).filter (State.live { s.state with
        memory := write s.state.memory b.toNat (bigEndian 8 0)
        records :=
          { cells := Function.update (Function.update s.state.records.cells p
              (some ⟨s.state.records.next, recordOf path attr 0⟩)) p none
            freed := s.state.records.next :: s.state.records.freed
            next := s.state.records.next + 1 } }) = none := by
      simp [State.live]
    have hsame : Function.update s.searches b none = s.searches :=
      Function.update_eq_self_iff.mpr hholds.symm
    rw [hlive, hsame]
    exact hg.fails hb hholds hcell _
  | some opened =>
    obtain ⟨dirh, entries⟩ := opened
    obtain ⟨hdirh, hstream⟩ := hopens _ dirh entries hfound
    have hbegun := @Good.begins currentProcess s b p hg hb hholds hp hcell (recordOf path attr dirh)
      hdirh hstream entries
    have hcurrent' : Current currentProcess
        ⟨begun p (recordOf path attr dirh) entries b s.state, s.dtas,
          Function.update s.searches b (some p)⟩ b := by
      have happart := (hg.buffer b hb).apart
      unfold sizeofDTA at happart
      have hkept : Shows (write s.state.memory b.toNat (bigEndian 8 p.toNat))
          (currentProcess.toNat + 32) (bigEndian 4 b.toNat) :=
        hshows.write (by rw [bigEndian_length, bigEndian_length]; omega)
      exact readBasepage_shows hbase (by decide) hkept
    obtain ⟨r, t, hnext, hg'⟩ :=
      hbegun.fsnext hbase hcurrent' (Function.update_self _ _ _) localtime unset
    have hrun := fsfirst_found hcurrent (by omega) hfound hnext
    refine ⟨_, _, step_fsfirst hcurrent hrun, ?_⟩
    simpa using hg'

/-- Another buffer becomes the DTA. -/
theorem Good.fsetdta (hg : Good currentProcess s) {buf : UInt32}
    (hbuffer : IsBuffer currentProcess buf)
    (happart : ∀ b ∈ s.dtas, b = buf ∨ Apart sizeofDTA b buf) :
    Good currentProcess ⟨{ s.state with
      memory := write s.state.memory (currentProcess.toNat + 32) (bigEndian 4 buf.toNat) },
      buf :: s.dtas, s.searches⟩ := by
  refine { hg with current := ?_, buffer := ?_, apart := ?_, held := ?_ }
  · exact ⟨buf, List.mem_cons_self, shows_write _ _ _⟩
  · exact List.forall_mem_cons.mpr ⟨hbuffer, hg.buffer⟩
  · intro b₁ hb₁ b₂ hb₂
    rcases List.mem_cons.mp hb₁ with heq₁ | hold₁ <;>
      rcases List.mem_cons.mp hb₂ with heq₂ | hold₂
    · exact Or.inl (heq₁.trans heq₂.symm)
    · rw [heq₁]
      exact (happart b₂ hold₂).imp Eq.symm Or.symm
    · rw [heq₂]
      exact happart b₁ hold₁
    · exact hg.apart b₁ hold₁ b₂ hold₂
  · intro b' p' h
    obtain ⟨hb', hp', hpoints, hcell⟩ := hg.held b' p' h
    have hfield := (hg.buffer b' hb').apart
    unfold sizeofDTA at hfield
    refine ⟨List.mem_cons_of_mem _ hb', hp', hpoints.write ?_, hcell⟩
    rw [bigEndian_length]
    omega

/-- Every call that is served well. -/
theorem Good.step (hbase : currentProcess.toNat + 260 ≤ 0x1000000)
    (hg : Good currentProcess s) (localtime : Int64 → Tm) {c : Call}
    (hdom : Promised currentProcess s c) (hsound : Sound currentProcess s c) :
    ∃ r s', Runs.step currentProcess localtime c s = Except.ok (r, s') ∧
      Right currentProcess s c r s' ∧ Good currentProcess s' := by
  obtain ⟨b, hb, hcurrent⟩ := hg.read hbase
  cases c with
  | fsetdta buf =>
    obtain ⟨hbuffer, happart⟩ := hdom
    have hrun : writeBasepage currentProcess pDta buf s.state.memory = Except.ok
        (write s.state.memory (currentProcess.toNat + 32) (bigEndian 4 buf.toNat)) :=
      writeBasepage_ok hbase (by decide) _ _
    have hg' := hg.fsetdta hbuffer happart
    refine ⟨Mem.tosEOk, _, ?_, ⟨hg'.accounted, trivial⟩, hg'⟩
    simp [Runs.step, FileSearch.fsetdta, hrun]
  | fsfirst path attr p found unset =>
    cases path with
    | none =>
      refine ⟨tosEpthnf, s, ?_, ⟨hg.accounted, trivial⟩, hg⟩
      unfold Current at hcurrent
      simp [Runs.step, FileSearch.fsfirst, hcurrent]
    | some path =>
      obtain ⟨r, s', hrun, hg'⟩ := hg.fsfirst hbase hcurrent (hsound b hcurrent) hdom localtime
      exact ⟨r, s', hrun, ⟨hg'.accounted, trivial⟩, hg'⟩
  | fsnext unset =>
    have hsame : ∀ b', Current currentProcess s b' → b' = b := by
      intro b' hb'
      unfold Current at hb' hcurrent
      rw [hcurrent] at hb'
      exact (Except.ok.inj hb').symm
    cases hholds : s.searches b with
    | none =>
      have hnull := (hsound b hcurrent).resolve_left fun h => h hholds
      have hrun := step_fsnext hcurrent (@fsnext_null _ localtime unset _ b hcurrent hnull)
      have hupdate : Function.update s.searches b ((s.searches b).filter (State.live s.state)) =
          s.searches := by
        rw [hholds]
        exact Function.update_eq_self_iff.mpr hholds.symm
      rw [hupdate] at hrun
      refine ⟨_, _, hrun, ⟨hg.accounted, ?_⟩, hg⟩
      exact fun _ _ _ => ⟨by decide, rfl⟩
    | some p =>
      obtain ⟨r, t, hnext, hg'⟩ := hg.fsnext hbase hcurrent hholds localtime unset
      have hrun := step_fsnext hcurrent hnext
      rw [hholds] at hrun
      refine ⟨_, _, hrun, ⟨hg'.accounted, ?_⟩, hg'⟩
      intro b' hb' hnone
      rw [hsame b' hb', hholds] at hnone
      cases hnone
  | guest memory =>
    have hg' := hg.memory hdom.1 hdom.2
    exact ⟨_, _, rfl, ⟨hg'.accounted, trivial⟩, hg'⟩

/-! The calls that are not. -/

/-- A record that is there and that no DTA holds any more is lost. -/
theorem Good.lost (hg : Good currentProcess s) (hholds : s.searches b = some p)
    {c : Pool.Cell DTAPrivate} (hc : s.state.records.cells p = some c) {s' : System}
    (hc' : s'.state.records.cells p = some c) (htidy : Pool.Tidy s'.state.records)
    (hsearches : ∀ b', s'.searches b' = some p → b' ≠ b ∧ s.searches b' = some p) :
    ¬ Accounted s' := by
  intro haccounted
  rcases haccounted.records c.id (htidy.bounded p c hc') with ⟨p', c', hcell, hid, hrefers⟩ | hfreed
  · obtain rfl := htidy.distinct p' p c' c hcell hc' hid
    obtain ⟨b', hb', -⟩ := hrefers
    obtain ⟨hne, h⟩ := hsearches b' hb'.holds
    exact hne (hg.alone b' b p' h hholds)
  · have hmem : c.id ∈ s'.state.records.freed :=
      List.count_pos_iff.mp (by rw [hfreed]; exact Nat.one_pos)
    exact htidy.live p c hc' hmem

/-- The search that `Fsfirst` has begun. -/
theorem begun_searching (hbase : currentProcess.toNat + 260 ≤ 0x1000000) {t : State}
    (hshows : Shows t.memory (currentProcess.toNat + 32) (bigEndian 4 b.toNat))
    (hbuffer : IsBuffer currentProcess b) (hp : p ≠ 0) {v : DTAPrivate} (hdirh : v.dirh ≠ 0)
    (entries : List Entry) :
    ∃ domain, Searching currentProcess (begun p v entries b t) b p ⟨t.records.next, v⟩
      t.host.next [] entries domain := by
  obtain ⟨hfits, happart⟩ := hbuffer
  unfold sizeofDTA at hfits happart
  have hkept : Shows (write t.memory b.toNat (bigEndian 8 p.toNat))
      (currentProcess.toNat + 32) (bigEndian 4 b.toNat) :=
    hshows.write (by rw [bigEndian_length, bigEndian_length]; omega)
  obtain ⟨domain, hdomain⟩ := exists_domain hbase (begun p v entries b t).memory
  exact ⟨domain, readBasepage_shows hbase (by decide) hkept, hfits,
    readMemory64_shows (shows_write _ _ _) (by omega), hp, Function.update_self _ _ _, hdirh,
    Function.update_self _ _ _, hdomain⟩

/-- `Fsfirst` in a DTA that holds a search loses its record. -/
theorem Good.not_answers_fsfirst (hbase : currentProcess.toNat + 260 ≤ 0x1000000)
    (hg : Good currentProcess s) (hcurrent : Current currentProcess s b)
    (hholds : s.searches b = some p) {path : List UInt8} {attr : Int16} {priv : UInt64}
    {found : List UInt8 → Option (UInt64 × List Entry)} {unset : Stat}
    (hdom : Promised currentProcess s (.fsfirst (some path) attr priv found unset)) :
    ¬ Machine.Answers (Runs.step currentProcess localtime) (Right currentProcess) s
      (.fsfirst (some path) attr priv found unset) := by
  rintro ⟨r, s', hrun, haccounted, -⟩
  obtain ⟨hpriv, hfree, hopens⟩ := hdom
  obtain ⟨hb, hshows⟩ := hg.shows hbase hcurrent
  obtain ⟨c, hc⟩ := Option.ne_none_iff_exists'.mp (hg.held b p hholds).2.2.2
  have hne : p ≠ priv := Lookup.ne_of_none hfree hc
  have hfits := (hg.buffer b hb).fits
  unfold sizeofDTA at hfits
  have hsearches : ∀ (t : State) b', Function.update s.searches b
      ((some priv).filter (State.live t)) b' = some p → b' ≠ b ∧ s.searches b' = some p := by
    intro t b' h
    have hb' : b' ≠ b := by
      rintro rfl
      rw [Function.update_self, Option.filter_eq_some_iff] at h
      exact hne (Option.some.inj h.1).symm
    rw [Function.update_of_ne hb'] at h
    exact ⟨hb', h⟩
  cases hfound : found (splitPath path).1 with
  | none =>
    have hfirst := @fsfirst_unfound currentProcess localtime path attr priv found unset s.state b
      hcurrent (by omega) hfound
    rw [step_fsfirst hcurrent hfirst] at hrun
    cases hrun
    refine hg.lost hholds hc ?_ ?_ (hsearches _) haccounted
    · exact (Function.update_of_ne hne _ _).trans ((Function.update_of_ne hne _ _).trans hc)
    · exact @Pool.Tidy.free _ priv _ _ (hg.tidy.calloc hfree (recordOf path attr 0))
        (Function.update_self _ _ _)
  | some opened =>
    obtain ⟨dirh, entries⟩ := opened
    obtain ⟨hdirh, hstream⟩ := hopens _ dirh entries hfound
    have htidy := hg.tidy.calloc hfree (recordOf path attr dirh)
    have hkept : (Pool.calloc priv (recordOf path attr dirh) s.state.records).cells p = some c :=
      (Function.update_of_ne hne _ _).trans hc
    obtain ⟨domain, hsearching⟩ := @begun_searching currentProcess b priv hbase s.state hshows
      (hg.buffer b hb) hpriv (recordOf path attr dirh) hdirh entries
    obtain ⟨r', t, m, left, k, -, hnext, -, ht⟩ := hsearching.fsnext localtime unset
    have hfirst := fsfirst_found hcurrent (by omega) hfound hnext
    rw [step_fsfirst hcurrent hfirst] at hrun
    cases hrun
    rcases ht with rfl | rfl
    · exact hg.lost hholds hc hkept htidy (hsearches _) haccounted
    · exact hg.lost hholds hc ((Function.update_of_ne hne _ _).trans hkept)
        (htidy.free hsearching.record) (hsearches _) haccounted

/-- `Fsnext` in a DTA that holds no search follows whatever is not zero there. -/
theorem Good.not_answers_fsnext (hbase : currentProcess.toNat + 260 ≤ 0x1000000)
    (hg : Good currentProcess s) (hcurrent : Current currentProcess s b)
    (hholds : s.searches b = none) (hnull : readMemory64 b s.state.memory ≠ Except.ok 0)
    {unset : Stat} :
    ¬ Machine.Answers (Runs.step currentProcess localtime) (Right currentProcess) s
      (.fsnext unset) := by
  rintro ⟨r, s', hrun, -, hright⟩
  obtain ⟨-, hstate⟩ := hright b hcurrent hholds
  obtain ⟨b', -, hrun⟩ := Run.bind_eq_ok.mp hrun
  obtain ⟨⟨r', t⟩, hnext, hend⟩ := Run.bind_eq_ok.mp hrun
  cases hend
  obtain rfl : t = s.state := hstate
  obtain ⟨b₁, hb₁, hnext₁⟩ := Run.bind_eq_ok.mp hnext
  unfold Current at hcurrent
  rw [hcurrent] at hb₁
  cases hb₁
  obtain ⟨p, hpointer, hnext₂⟩ := Run.bind_eq_ok.mp hnext₁
  have hp : p ≠ 0 := by
    rintro rfl
    exact hnull hpointer
  rw [if_neg hp] at hnext₂
  obtain ⟨record, hderef, -⟩ := Run.bind_eq_ok.mp hnext₂
  obtain ⟨c, hc, -⟩ := Pool.deref_eq_ok hderef
  obtain ⟨id, pre, rest, domain, hsearching⟩ := hg.searching hbase hcurrent hpointer hp hc
  obtain ⟨r₂, t₂, m, left, k, hk, hnext₃, -, ht⟩ := hsearching.fsnext localtime unset
  rw [hnext] at hnext₃
  cases hnext₃
  -- the stream was read at least once
  have hlog : s.state.host.log.length < s.state.host.log.length := by
    rcases ht with ht | ht <;> have hlen := congrArg (fun t : State => t.host.log.length) ht
    · simp only [FileSearch.advanced, List.length_append, List.length_replicate] at hlen
      omega
    · simp only [FileSearch.ended, FileSearch.advanced, List.length_cons, List.length_append,
        List.length_replicate] at hlen
      omega
  exact Nat.lt_irrefl _ hlog

theorem Good.not_answers (hbase : currentProcess.toNat + 260 ≤ 0x1000000)
    (hg : Good currentProcess s) {c : Call} (hdom : Promised currentProcess s c)
    (hnot : ¬ Sound currentProcess s c) :
    ¬ Machine.Answers (Runs.step currentProcess localtime) (Right currentProcess) s c := by
  cases c with
  | fsetdta buf => exact absurd trivial hnot
  | fsfirst path attr p found unset =>
    cases path with
    | none => exact absurd trivial hnot
    | some path =>
      simp only [Sound, not_forall] at hnot
      obtain ⟨b, hcurrent, hholds⟩ := hnot
      obtain ⟨p₀, hp₀⟩ := Option.ne_none_iff_exists'.mp hholds
      exact hg.not_answers_fsfirst hbase hcurrent hp₀ hdom
  | fsnext unset =>
    simp only [Sound, not_forall, not_or, not_not] at hnot
    obtain ⟨b, hcurrent, hholds, hnull⟩ := hnot
    exact hg.not_answers_fsnext hbase hcurrent hholds hnull
  | guest memory => exact absurd trivial hnot

end Steps

/-! ### Whole runs -/

/-- Where a run starts: as `LoadExe` leaves it, the command line is the DTA, and nothing
    was searched for yet. -/
structure Fresh (currentProcess : UInt32) (s : State) : Prop where
  dta : Shows s.memory (currentProcess.toNat + 32)
    (bigEndian 4 (currentProcess + pCmdlin).toNat)
  host : s.host = Host.init
  records : s.records = Pool.init

/-- The system at the start. -/
def start (currentProcess : UInt32) (s : State) : System :=
  ⟨s, [currentProcess + pCmdlin], fun _ => none⟩

theorem Fresh.good {currentProcess : UInt32} {s : State}
    (hbase : currentProcess.toNat + 260 ≤ 0x1000000) (hs : Fresh currentProcess s) :
    Good currentProcess (start currentProcess s) := by
  obtain ⟨memory, host, records⟩ := s
  obtain ⟨hdta, hhost, hrecords⟩ := hs
  simp only at hhost hrecords hdta
  subst hhost hrecords
  have hcmdlin : (currentProcess + pCmdlin).toNat = currentProcess.toNat + 128 :=
    field_address hbase (by decide)
  refine ⟨Numbered.init, Complete.init, Pool.Tidy.init, ⟨_, List.mem_cons_self, hdta⟩, ?_, ?_,
    ?_, ?_, ?_, ?_, ?_, ?_, ?_⟩
  · intro b hb
    rw [List.mem_singleton.mp hb]
    constructor
    · rw [hcmdlin]
      unfold sizeofDTA
      omega
    · rw [hcmdlin]
      omega
  · intro b hb b' hb'
    rw [List.mem_singleton.mp hb, List.mem_singleton.mp hb']
    exact Or.inl rfl
  · exact fun _ _ h => by cases h
  · exact fun _ _ h => by cases h
  · exact fun _ _ h => by cases h
  · exact fun _ _ _ h => by cases h
  · exact fun _ _ h => by cases h
  · exact fun _ _ h => by cases h
  · exact fun _ _ _ _ h => by cases h

/-- **When searches are safe**: exactly if `Fsfirst` is only called where the DTA holds no
    search that has not come to its end, and `Fsnext` only where it holds one or starts
    with 8 zero bytes. -/
theorem searches_iff {currentProcess : UInt32} (hbase : currentProcess.toNat + 260 ≤ 0x1000000)
    (localtime : Int64 → Tm) {s : State} (hs : Fresh currentProcess s) (calls : List Call)
    (hdom : Machine.Meets (step currentProcess localtime) (Promised currentProcess) calls
      (start currentProcess s)) :
    Machine.Meets (step currentProcess localtime)
        (Machine.Answers (step currentProcess localtime) (Right currentProcess)) calls
        (start currentProcess s) ↔
      Machine.Meets (step currentProcess localtime) (Sound currentProcess) calls
        (start currentProcess s) := by
  refine Machine.answers_iff_meets ?_ ?_ calls (hs.good hbase) hdom
  · exact fun s c hg hd hsound => hg.step hbase localtime hd hsound
  · exact fun s c hg hd hnot => hg.not_answers hbase hd hnot

/-! ### A search that was never begun -/

/-- A program at `0x10800` with the command line `abc`, in front of which stands its
    length. -/
def launched : State where
  memory := write (write initM68KMemory 0x10820 (bigEndian 4 0x10880)) 0x10880
    (bigEndian 8 0x0361626300000000)
  host := Host.init
  records := Pool.init

theorem launched_fresh : Fresh 0x10800 launched :=
  ⟨(shows_write _ _ _).write (by decide), rfl, rfl⟩

/-- A clock that stands still. -/
def noTime : Int64 → Tm := fun _ => ⟨0, 0, 0, 1, 0, 80⟩

/-- A program looks for all files in an empty directory, and asks for more. -/
def allFiles : List Call :=
  [.fsfirst (some [0x2a, 0x2e, 0x2a]) 0 0x5000 (fun _ => some (0x7000, [])) ⟨0, 0, 0⟩,
    .fsnext ⟨0, 0, 0⟩]

theorem searches_iff_allFiles :
    Machine.Meets (step 0x10800 noTime) (Machine.Answers (step 0x10800 noTime) (Right 0x10800))
        allFiles (start 0x10800 launched) ↔
      Machine.Meets (step 0x10800 noTime) (Sound 0x10800) allFiles (start 0x10800 launched) := by
  have hpromised : Promised 0x10800 (start 0x10800 launched) (.fsfirst (some [0x2a, 0x2e, 0x2a])
      0 0x5000 (fun _ => some (0x7000, [])) ⟨0, 0, 0⟩) := by
    refine ⟨by decide, rfl, ?_⟩
    intro dir dirh entries h
    cases h
    exact ⟨by decide, rfl⟩
  exact searches_iff (by decide) noTime launched_fresh allFiles
    ⟨hpromised, fun _ _ _ => ⟨trivial, fun _ _ _ => trivial⟩⟩

/-- `Fsnext` in the first DTA takes the command line for a pointer. -/
theorem command_line_followed :
    ¬ Machine.Meets (step 0x10800 noTime)
      (Machine.Answers (step 0x10800 noTime) (Right 0x10800)) [.fsnext ⟨0, 0, 0⟩]
      (start 0x10800 launched) := by
  have hcurrent : Current 0x10800 (start 0x10800 launched) 0x10880 :=
    readBasepage_shows (by decide) (by decide) launched_fresh.dta
  have hread : readMemory64 0x10880 launched.memory = Except.ok 0x0361626300000000 :=
    readMemory64_shows (shows_write _ _ _) (by decide)
  rintro ⟨hanswers, -⟩
  refine (launched_fresh.good (by decide)).not_answers_fsnext (by decide) hcurrent rfl ?_ hanswers
  intro hnull
  have heq : (0x0361626300000000 : UInt64) = 0 := Except.ok.inj (hread.symm.trans hnull)
  exact absurd heq (by decide)

end Runs

end ParaTos.FileSearch
