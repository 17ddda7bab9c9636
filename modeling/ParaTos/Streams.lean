/-
  ParaTos/Streams.lean
  ====================
  **Directory streams of a host.**

  A host keeps its open directory streams behind 64-bit pointers.  A stream has its
  entries and a position; `readdir` yields the entry there and moves on, `rewinddir`
  goes back to the start, and `closedir` releases the stream.  Each of them follows
  its pointer, and one that leads to no open stream is a fault.

  Pointers are reused.  Every stream therefore has a number of its own as well, and
  the host keeps a record of what was done to which number; both are there to be
  talked about and change no result.  Nothing here names a particular program.
-/
import Mathlib.Data.List.Count
import ParaTos.Lookup
import ParaTos.Run

namespace ParaTos.Streams

/-- An open stream. -/
structure Stream (ε : Type) where
  id : Nat
  entries : List ε
  pos : Nat
deriving DecidableEq, Repr

/-- What was done to a stream. -/
inductive Event where
  | opened (id : Nat)
  | read (id : Nat)
  | rewound (id : Nat)
  | closed (id : Nat)
deriving DecidableEq, Repr

/-- The open streams, the record, latest event first, and the number of the next stream. -/
structure Host (ε : Type) where
  streams : UInt64 → Option (Stream ε)
  log : List Event
  next : Nat

variable {ε : Type}

/-- No stream has been opened yet. -/
def Host.init : Host ε := ⟨fun _ => none, [], 0⟩

/-- `opendir` succeeds with this pointer and these entries. -/
def opendir (p : UInt64) (entries : List ε) (h : Host ε) : Host ε where
  streams := Function.update h.streams p (some ⟨h.next, entries, 0⟩)
  log := .opened h.next :: h.log
  next := h.next + 1

/-- `readdir(p)` -/
def readdir (p : UInt64) (h : Host ε) : Run (Option ε × Host ε) := do
  let d ← Run.ofOption .badPointer (h.streams p)
  let log := .read d.id :: h.log
  match d.entries[d.pos]? with
  | some e =>
    let streams := Function.update h.streams p (some { d with pos := d.pos + 1 })
    return (some e, { h with streams, log })
  | none => return (none, { h with log })

/-- `rewinddir(p)` -/
def rewinddir (p : UInt64) (h : Host ε) : Run (Host ε) := do
  let d ← Run.ofOption .badPointer (h.streams p)
  return { h with
    streams := Function.update h.streams p (some { d with pos := 0 })
    log := .rewound d.id :: h.log }

/-- `closedir(p)` -/
def closedir (p : UInt64) (h : Host ε) : Run (Host ε) := do
  let d ← Run.ofOption .badPointer (h.streams p)
  return { h with streams := Function.update h.streams p none, log := .closed d.id :: h.log }

/-! ### What the calls do to an open stream -/

section Calls

variable {p : UInt64} {h : Host ε} {d : Stream ε}

theorem readdir_some {e : ε} (hd : h.streams p = some d) (he : d.entries[d.pos]? = some e) :
    readdir p h = Except.ok (some e, { h with
      streams := Function.update h.streams p (some { d with pos := d.pos + 1 })
      log := .read d.id :: h.log }) := by
  simp [readdir, hd, he]

theorem readdir_none (hd : h.streams p = some d) (he : d.entries[d.pos]? = none) :
    readdir p h = Except.ok (none, { h with log := .read d.id :: h.log }) := by
  simp only [readdir, hd, Run.ofOption_some, Run.ok_bind, he]
  rfl

theorem rewinddir_open (hd : h.streams p = some d) :
    rewinddir p h = Except.ok { h with
      streams := Function.update h.streams p (some { d with pos := 0 })
      log := .rewound d.id :: h.log } := by
  simp [rewinddir, hd]

theorem closedir_open (hd : h.streams p = some d) :
    closedir p h = Except.ok { h with
      streams := Function.update h.streams p none, log := .closed d.id :: h.log } := by
  simp [closedir, hd]

/-! A call that returns has left its mark, whatever its pointer was. -/

theorem readdir_log {e : Option ε} {h' : Host ε} (hrun : readdir p h = Except.ok (e, h')) :
    ∃ id, h'.log = .read id :: h.log := by
  obtain ⟨d, -, hrest⟩ := Run.bind_eq_ok.mp hrun
  cases he : d.entries[d.pos]? with
  | none =>
    simp only [he, Run.pure_eq_ok, Run.ok_inj] at hrest
    cases hrest
    exact ⟨d.id, rfl⟩
  | some e =>
    simp only [he, Run.pure_eq_ok, Run.ok_inj] at hrest
    cases hrest
    exact ⟨d.id, rfl⟩

theorem rewinddir_log {h' : Host ε} (hrun : rewinddir p h = Except.ok h') :
    ∃ id, h'.log = .rewound id :: h.log := by
  obtain ⟨d, -, hrest⟩ := Run.bind_eq_ok.mp hrun
  cases hrest
  exact ⟨d.id, rfl⟩

end Calls

/-! ### Numbers -/

/-- The numbers of the host: every open stream has one of its own, one that was not
    closed, and no number was closed twice. -/
structure Numbered (h : Host ε) : Prop where
  bounded : ∀ p d, h.streams p = some d → d.id < h.next
  distinct : ∀ p p' d d', h.streams p = some d → h.streams p' = some d' → d.id = d'.id → p = p'
  notClosed : ∀ p d, h.streams p = some d → Event.closed d.id ∉ h.log
  past : ∀ i, Event.closed i ∈ h.log → i < h.next
  once : ∀ i, h.log.count (.closed i) ≤ 1

theorem Numbered.init : Numbered (Host.init : Host ε) where
  bounded := fun _ _ h => by cases h
  distinct := fun _ _ _ _ h => by cases h
  notClosed := fun _ _ h => by cases h
  past := fun _ h => by cases h
  once := fun _ => Nat.zero_le 1

section Numbers

variable {p : UInt64} {h : Host ε} {d : Stream ε}

theorem Numbered.opendir (hn : Numbered h) (p : UInt64) (entries : List ε) :
    Numbered (Streams.opendir p entries h) := by
  have hcases : ∀ q e, (Streams.opendir p entries h).streams q = some e →
      (q = p ∧ e.id = h.next) ∨ (q ≠ p ∧ h.streams q = some e) := by
    intro q e he
    rcases Lookup.update_some.mp he with ⟨hq, rfl⟩ | hold
    · exact Or.inl ⟨hq, rfl⟩
    · exact Or.inr hold
  have hlog : ∀ i, Event.closed i ∈ (Streams.opendir p entries h).log → Event.closed i ∈ h.log := by
    intro i hi
    simpa [Streams.opendir] using hi
  constructor
  · intro q e he
    rcases hcases q e he with ⟨-, hid⟩ | ⟨-, he⟩
    · rw [hid]
      exact Nat.lt_succ_self _
    · exact Nat.lt_succ_of_lt (hn.bounded q e he)
  · intro q q' e e' he he' heq
    rcases hcases q e he with ⟨hq, hid⟩ | ⟨-, hold⟩ <;>
      rcases hcases q' e' he' with ⟨hq', hid'⟩ | ⟨-, hold'⟩
    · rw [hq, hq']
    · have hlt := hn.bounded q' e' hold'
      omega
    · have hlt := hn.bounded q e hold
      omega
    · exact hn.distinct q q' e e' hold hold' heq
  · intro q e he hmem
    rcases hcases q e he with ⟨-, hid⟩ | ⟨-, he⟩
    · have hlt := hn.past _ (hlog _ hmem)
      omega
    · exact hn.notClosed q e he (hlog _ hmem)
  · intro i hi
    exact Nat.lt_succ_of_lt (hn.past i (hlog i hi))
  · intro i
    simpa [Streams.opendir] using hn.once i

/-- A stream that moves keeps its number, whatever is recorded of it. -/
theorem Numbered.moves (hn : Numbered h) (hd : h.streams p = some d) (pos : Nat)
    {events : List Event} (hevents : ∀ i, Event.closed i ∉ events) :
    Numbered { h with
      streams := Function.update h.streams p (some { d with pos }), log := events ++ h.log } := by
  have hcases : ∀ q e, Function.update h.streams p (some { d with pos }) q = some e →
      ∃ e', h.streams q = some e' ∧ e'.id = e.id := by
    intro q e he
    rcases Lookup.update_some.mp he with ⟨rfl, rfl⟩ | ⟨-, hold⟩
    · exact ⟨d, hd, rfl⟩
    · exact ⟨e, hold, rfl⟩
  have hlog : ∀ i, Event.closed i ∈ events ++ h.log → Event.closed i ∈ h.log :=
    fun i hi => (List.mem_append.mp hi).resolve_left (hevents i)
  constructor
  · intro q e he
    obtain ⟨e', he', hid⟩ := hcases q e he
    rw [← hid]
    exact hn.bounded q e' he'
  · intro q q' e e' he he' heq
    obtain ⟨f, hf, hid⟩ := hcases q e he
    obtain ⟨f', hf', hid'⟩ := hcases q' e' he'
    exact hn.distinct q q' f f' hf hf' (by rw [hid, hid', heq])
  · intro q e he hmem
    obtain ⟨e', he', hid⟩ := hcases q e he
    rw [← hid] at hmem
    exact hn.notClosed q e' he' (hlog _ hmem)
  · exact fun i hi => hn.past i (hlog i hi)
  · intro i
    rw [List.count_append, List.count_eq_zero_of_not_mem (hevents i), Nat.zero_add]
    exact hn.once i

theorem Numbered.move (hn : Numbered h) (hd : h.streams p = some d) (pos : Nat) {event : Event}
    (hevent : ∀ i, event ≠ .closed i) :
    Numbered { h with
      streams := Function.update h.streams p (some { d with pos }), log := event :: h.log } :=
  @Numbered.moves _ _ _ _ hn hd pos [event]
    fun i hi => hevent i (List.mem_singleton.mp hi).symm

/-- A stream that is closed is closed for the first time. -/
theorem Numbered.close (hn : Numbered h) (hd : h.streams p = some d) :
    Numbered { h with
      streams := Function.update h.streams p none, log := .closed d.id :: h.log } := by
  have hcases : ∀ q e, Function.update h.streams p none q = some e →
      q ≠ p ∧ h.streams q = some e := fun _ _ => Lookup.update_none.mp
  constructor
  · exact fun q e he => hn.bounded q e (hcases q e he).2
  · exact fun q q' e e' he he' => hn.distinct q q' e e' (hcases q e he).2 (hcases q' e' he').2
  · intro q e he hmem
    obtain ⟨hq, he⟩ := hcases q e he
    rcases List.mem_cons.mp hmem with heq | hmem
    · have hid : e.id = d.id := Event.closed.inj heq
      exact hq (hn.distinct q p e d he hd hid)
    · exact hn.notClosed q e he hmem
  · intro i hi
    rcases List.mem_cons.mp hi with heq | hi
    · cases heq
      exact hn.bounded p d hd
    · exact hn.past i hi
  · intro i
    by_cases hi : d.id = i
    · subst hi
      apply Nat.le_of_eq
      rw [List.count_cons_self, List.count_eq_zero_of_not_mem (hn.notClosed p d hd)]
    · have hcount := hn.once i
      rwa [List.count_cons_of_ne (fun h => hi (Event.closed.inj h))]

end Numbers

/-- No stream is lost: every number that was given out is that of an open stream, or it
    was closed. -/
def Complete (h : Host ε) : Prop :=
  ∀ i < h.next, (∃ p d, h.streams p = some d ∧ d.id = i) ∨ Event.closed i ∈ h.log

theorem Complete.init : Complete (Host.init : Host ε) := fun _ h => absurd h (Nat.not_lt_zero _)

section Losses

variable {p : UInt64} {h : Host ε} {d : Stream ε}

theorem Complete.opendir (hc : Complete h) (hp : h.streams p = none) (entries : List ε) :
    Complete (Streams.opendir p entries h) := by
  intro i hi
  rcases Nat.lt_succ_iff_lt_or_eq.mp hi with hlt | rfl
  · rcases hc i hlt with ⟨q, e, he, hid⟩ | hmem
    · exact Or.inl ⟨q, e, Lookup.update_kept hp he _, hid⟩
    · exact Or.inr (List.mem_cons_of_mem _ hmem)
  · exact Or.inl ⟨p, _, Function.update_self _ _ _, rfl⟩

theorem Complete.moves (hc : Complete h) (hd : h.streams p = some d) (pos : Nat)
    (events : List Event) :
    Complete { h with
      streams := Function.update h.streams p (some { d with pos }), log := events ++ h.log } := by
  intro i hi
  rcases hc i hi with ⟨q, e, he, hid⟩ | hmem
  · by_cases hq : q = p
    · subst hq
      rw [hd] at he
      cases he
      exact Or.inl ⟨q, _, Function.update_self _ _ _, hid⟩
    · exact Or.inl ⟨q, e, (Function.update_of_ne hq _ _).trans he, hid⟩
  · exact Or.inr (List.mem_append_right _ hmem)

theorem Complete.close (hc : Complete h) (hd : h.streams p = some d) :
    Complete { h with
      streams := Function.update h.streams p none, log := .closed d.id :: h.log } := by
  intro i hi
  rcases hc i hi with ⟨q, e, he, hid⟩ | hmem
  · by_cases hq : q = p
    · subst hq
      rw [hd] at he
      cases he
      rw [← hid]
      exact Or.inr List.mem_cons_self
    · exact Or.inl ⟨q, e, (Function.update_of_ne hq _ _).trans he, hid⟩
  · exact Or.inr (List.mem_cons_of_mem _ hmem)

end Losses

end ParaTos.Streams
