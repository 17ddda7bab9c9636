/-
  ParaTos/Pool.lean
  =================
  **Records on a host's heap.**

  A pool keeps records behind 64-bit pointers that `calloc` picks and `free` takes
  back.  Following a pointer to no record, or freeing one, is a fault, so that a
  computation that returns has used nothing after it was freed.

  A pointer is picked again when its record is gone.  Every record therefore has a
  number, and the pool remembers the numbers that were freed; `Tidy` says that they
  are the numbers of no record, each there once, and that none is lost.  Nothing here
  names a particular program.
-/
import Mathlib.Data.List.Nodup
import ParaTos.Lookup
import ParaTos.Run

namespace ParaTos

/-- A record and its number. -/
structure Pool.Cell (α : Type) where
  id : Nat
  val : α

/-- The records, the numbers that were freed, and the next number. -/
structure Pool (α : Type) where
  cells : UInt64 → Option (Pool.Cell α)
  freed : List Nat
  next : Nat

namespace Pool

variable {α : Type}

def init : Pool α := ⟨fun _ => none, [], 0⟩

/-- `calloc` returns this pointer, and the record is filled in. -/
def calloc (p : UInt64) (v : α) (h : Pool α) : Pool α where
  cells := Function.update h.cells p (some ⟨h.next, v⟩)
  freed := h.freed
  next := h.next + 1

/-- `*p` -/
def deref (p : UInt64) (h : Pool α) : Run α := do
  let c ← Run.ofOption .badPointer (h.cells p)
  return c.val

/-- `free(p)` -/
def free (p : UInt64) (h : Pool α) : Run (Pool α) := do
  let c ← Run.ofOption .badPointer (h.cells p)
  return { h with cells := Function.update h.cells p none, freed := c.id :: h.freed }

section Calls

variable {p : UInt64} {h : Pool α} {c : Cell α}

theorem deref_live (hc : h.cells p = some c) : deref p h = Except.ok c.val := by
  simp [deref, hc]

theorem free_live (hc : h.cells p = some c) :
    free p h = Except.ok { h with
      cells := Function.update h.cells p none, freed := c.id :: h.freed } := by
  simp [free, hc]

theorem deref_eq_ok {v : α} (hrun : deref p h = Except.ok v) :
    ∃ c, h.cells p = some c ∧ c.val = v := by
  obtain ⟨c, hc, hv⟩ := Run.bind_eq_ok.mp hrun
  exact ⟨c, Run.ofOption_eq_ok.mp hc, Run.ok_inj.mp hv⟩

end Calls

/-! ### Numbers -/

/-- Every number that was given out is that of one record, or it was freed once. -/
structure Tidy (h : Pool α) : Prop where
  bounded : ∀ p c, h.cells p = some c → c.id < h.next
  distinct : ∀ p p' c c', h.cells p = some c → h.cells p' = some c' → c.id = c'.id → p = p'
  live : ∀ p c, h.cells p = some c → c.id ∉ h.freed
  past : ∀ i ∈ h.freed, i < h.next
  once : h.freed.Nodup
  complete : ∀ i < h.next, (∃ p c, h.cells p = some c ∧ c.id = i) ∨ i ∈ h.freed

theorem Tidy.init : Tidy (Pool.init : Pool α) where
  bounded := fun _ _ h => by cases h
  distinct := fun _ _ _ _ h => by cases h
  live := fun _ _ h => by cases h
  past := fun _ h => by cases h
  once := List.nodup_nil
  complete := fun _ h => absurd h (Nat.not_lt_zero _)

section Numbers

variable {p : UInt64} {h : Pool α}

theorem Tidy.calloc (ht : Tidy h) (hp : h.cells p = none) (v : α) :
    Tidy (Pool.calloc p v h) := by
  have hcases : ∀ q c, (Pool.calloc p v h).cells q = some c →
      (q = p ∧ c.id = h.next) ∨ (q ≠ p ∧ h.cells q = some c) := by
    intro q c hc
    rcases Lookup.update_some.mp hc with ⟨hq, rfl⟩ | hold
    · exact Or.inl ⟨hq, rfl⟩
    · exact Or.inr hold
  constructor
  · intro q c hc
    rcases hcases q c hc with ⟨-, hid⟩ | ⟨-, hold⟩
    · rw [hid]
      exact Nat.lt_succ_self _
    · exact Nat.lt_succ_of_lt (ht.bounded q c hold)
  · intro q q' c c' hc hc' heq
    rcases hcases q c hc with ⟨hq, hid⟩ | ⟨-, hold⟩ <;>
      rcases hcases q' c' hc' with ⟨hq', hid'⟩ | ⟨-, hold'⟩
    · rw [hq, hq']
    · exact absurd (ht.bounded q' c' hold') (Nat.not_lt.mpr (Nat.le_of_eq (hid.symm.trans heq)))
    · exact absurd (ht.bounded q c hold) (Nat.not_lt.mpr (Nat.le_of_eq (hid'.symm.trans heq.symm)))
    · exact ht.distinct q q' c c' hold hold' heq
  · intro q c hc hmem
    rcases hcases q c hc with ⟨-, hid⟩ | ⟨-, hold⟩
    · exact absurd (ht.past _ hmem) (Nat.not_lt.mpr (Nat.le_of_eq hid.symm))
    · exact ht.live q c hold hmem
  · exact fun i hi => Nat.lt_succ_of_lt (ht.past i hi)
  · exact ht.once
  · intro i hi
    rcases Nat.lt_succ_iff_lt_or_eq.mp hi with hlt | rfl
    · rcases ht.complete i hlt with ⟨q, c, hc, hid⟩ | hmem
      · exact Or.inl ⟨q, c, Lookup.update_kept hp hc _, hid⟩
      · exact Or.inr hmem
    · exact Or.inl ⟨p, _, Function.update_self _ _ _, rfl⟩

/-- A record that is freed is freed for the first time. -/
theorem Tidy.free {c : Cell α} (ht : Tidy h) (hc : h.cells p = some c) :
    Tidy { h with cells := Function.update h.cells p none, freed := c.id :: h.freed } := by
  have hcases : ∀ q e, Function.update h.cells p none q = some e →
      q ≠ p ∧ h.cells q = some e := fun _ _ => Lookup.update_none.mp
  constructor
  · exact fun q e he => ht.bounded q e (hcases q e he).2
  · exact fun q q' e e' he he' => ht.distinct q q' e e' (hcases q e he).2 (hcases q' e' he').2
  · intro q e he hmem
    obtain ⟨hq, he⟩ := hcases q e he
    rcases List.mem_cons.mp hmem with heq | hmem
    · exact hq (ht.distinct q p e c he hc heq)
    · exact ht.live q e he hmem
  · intro i hi
    rcases List.mem_cons.mp hi with rfl | hi
    · exact ht.bounded p c hc
    · exact ht.past i hi
  · exact List.nodup_cons.mpr ⟨ht.live p c hc, ht.once⟩
  · intro i hi
    rcases ht.complete i hi with ⟨q, e, he, hid⟩ | hmem
    · by_cases hq : q = p
      · subst hq
        rw [hc] at he
        cases he
        exact Or.inr (List.mem_cons.mpr (Or.inl hid.symm))
      · exact Or.inl ⟨q, e, (Function.update_of_ne hq _ _).trans he, hid⟩
    · exact Or.inr (List.mem_cons_of_mem _ hmem)

end Numbers

end Pool

end ParaTos
