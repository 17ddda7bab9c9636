/-
  ParaTos/Run.lean
  ================
  **What a run of a C function can come to.**

  A C function called on a state either returns, or it leaves the language: it
  follows a null or released pointer, stores outside a block or an unmapped
  page, or never comes back from a loop.  `Run` separates the two, so that a
  theorem saying that a function returns also says that none of these happen.

  `Run` is `Except Fault`; the lemmas below take a run apart at a `bind`, which
  is how the proofs about translated code walk through its statements.
-/
import Mathlib.Logic.Basic
import Mathlib.Algebra.Group.Nat.Defs
import Mathlib.Algebra.Group.Int.Defs

namespace ParaTos

/-- The ways a C function can fail to return. -/
inductive Fault where
  /-- a null pointer, or a pointer to a node that was released, was followed -/
  | badPointer
  /-- a store past the end of a host block -/
  | overrun
  /-- an access to an unmapped page of the emulated memory -/
  | segv
  /-- a loop that never ends -/
  | diverges
deriving DecidableEq, Repr

/-- A computation that returns a value or faults. -/
abbrev Run (α : Type) := Except Fault α

namespace Run

variable {α β : Type}

@[simp] theorem ok_bind (a : α) (f : α → Run β) : ((Except.ok a : Run α) >>= f) = f a := rfl

@[simp] theorem error_bind (e : Fault) (f : α → Run β) :
    ((Except.error e : Run α) >>= f) = Except.error e := rfl

@[simp] theorem pure_eq_ok (a : α) : (pure a : Run α) = Except.ok a := rfl

@[simp] theorem ok_inj {a b : α} : (Except.ok a : Run α) = Except.ok b ↔ a = b :=
  ⟨fun h => by cases h; rfl, fun h => by rw [h]⟩

/-- A sequence of two statements returns exactly when both return. -/
theorem bind_eq_ok {x : Run α} {f : α → Run β} {b : β} :
    (x >>= f) = Except.ok b ↔ ∃ a, x = Except.ok a ∧ f a = Except.ok b := by
  cases x with
  | error e =>
    constructor
    · intro h
      cases h
    · rintro ⟨a, ha, -⟩
      cases ha
  | ok a =>
    constructor
    · intro h
      exact ⟨a, rfl, h⟩
    · rintro ⟨a', ha, hb⟩
      cases ha
      exact hb

/-- What the last statement makes of two runs tells them apart, if it loses nothing. -/
theorem bind_ok_inj {f : α → β} (hf : ∀ a b, f a = f b → a = b) {x y : Run α} :
    (x >>= fun a => Except.ok (f a)) = (y >>= fun a => Except.ok (f a)) ↔ x = y := by
  refine ⟨fun h => ?_, fun h => by rw [h]⟩
  cases x with
  | error e =>
    cases y with
    | error e' =>
      cases h
      rfl
    | ok b => cases h
  | ok a =>
    cases y with
    | error e' => cases h
    | ok b => rw [hf a b (ok_inj.mp h)]

/-- The value of an optional field, or the given fault. -/
def ofOption (e : Fault) : Option α → Run α
  | some a => Except.ok a
  | none => Except.error e

@[simp] theorem ofOption_some (e : Fault) (a : α) : ofOption e (some a) = Except.ok a := rfl

@[simp] theorem ofOption_none (e : Fault) :
    (ofOption e none : Run α) = Except.error e := rfl

theorem ofOption_eq_ok {e : Fault} {o : Option α} {a : α} :
    ofOption e o = Except.ok a ↔ o = some a := by
  cases o with
  | none =>
    constructor <;> intro h <;> cases h
  | some b => simp

end Run

end ParaTos
