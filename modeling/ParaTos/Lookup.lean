/-
  ParaTos/Lookup.lean
  ===================
  **Tables with optional entries.**

  A table gives at most one value for each key.  The lemmas say where a value comes
  from that is found after one key was set or cleared, and that two keys are different
  when only one of them has a value.  Nothing here names a particular program.
-/
import Mathlib.Logic.Function.Basic

namespace ParaTos.Lookup

variable {κ α : Type} {table : κ → Option α} {key k : κ} {v v' : α}

/-- A key with a value is not one without. -/
theorem ne_of_none (hkey : table key = none) (hk : table k = some v) : k ≠ key := by
  rintro rfl
  rw [hkey] at hk
  cases hk

variable [DecidableEq κ]

/-- What is found after a key was set. -/
theorem update_some : Function.update table key (some v') k = some v ↔
    (k = key ∧ v' = v) ∨ (k ≠ key ∧ table k = some v) := by
  by_cases h : k = key
  · subst h
    simp
  · simp [h]

/-- What is found after a key was cleared. -/
theorem update_none : Function.update table key none k = some v ↔
    k ≠ key ∧ table k = some v := by
  by_cases h : k = key
  · subst h
    simp
  · simp [h]

/-- A value stays where it is when a key is set that had none. -/
theorem update_kept (hkey : table key = none) (hk : table k = some v) (o : Option α) :
    Function.update table key o k = some v :=
  (Function.update_of_ne (ne_of_none hkey hk) _ _).trans hk

end ParaTos.Lookup
