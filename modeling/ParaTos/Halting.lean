/-
  ParaTos/Halting.lean
  ====================
  **How long a machine runs.**

  A machine is a step function and the states in which it is over.  `Fate s n P` says
  of the run from `s` that it goes on for ever where `P` holds and is over after at
  most `n` steps where it does not.  It is put together one step at a time, along the
  input that the machine consumes.
  Nothing here names a particular program.
-/
import Mathlib.Logic.Function.Iterate

namespace ParaTos.Halting

variable {α : Type} {step : α → α} {final : α → Prop}

/-- The run is over after at most `n` steps. -/
def Within (step : α → α) (final : α → Prop) (n : Nat) (s : α) : Prop :=
  ∃ k ≤ n, final (step^[k] s)

/-- The run is never over. -/
def Never (step : α → α) (final : α → Prop) (s : α) : Prop := ∀ k, ¬final (step^[k] s)

theorem Within.of_step {n : Nat} {s : α} (h : Within step final n (step s)) :
    Within step final (n + 1) s := by
  obtain ⟨k, hk, hfinal⟩ := h
  exact ⟨k + 1, Nat.succ_le_succ hk, hfinal⟩

theorem Within.mono {n n' : Nat} {s : α} (h : Within step final n s) (hle : n ≤ n') :
    Within step final n' s := by
  obtain ⟨k, hk, hfinal⟩ := h
  exact ⟨k, Nat.le_trans hk hle, hfinal⟩

theorem Never.of_step {s : α} (hs : ¬final s) (h : Never step final (step s)) :
    Never step final s := by
  intro k
  cases k with
  | zero => exact hs
  | succ k => exact h k

/-- A run that keeps to states that are not over is never over. -/
theorem Never.of_invariant {inv : α → Prop} (hstep : ∀ s, inv s → inv (step s))
    (hinv : ∀ s, inv s → ¬final s) {s : α} (h : inv s) : Never step final s := by
  intro k
  induction k generalizing s with
  | zero => exact hinv s h
  | succ k ih => exact ih (hstep s h)

/-- The run goes on for ever if `P`, and is over after at most `n` steps if not. -/
structure Fate (step : α → α) (final : α → Prop) (s : α) (n : Nat) (P : Prop) : Prop where
  never : P → Never step final s
  within : ¬P → Within step final n s

namespace Fate

variable {s : α} {n n' : Nat} {P Q : Prop}

theorem of_final (hs : final s) (hP : ¬P) : Fate step final s n P :=
  ⟨fun h => absurd h hP, fun _ => ⟨0, Nat.zero_le n, hs⟩⟩

theorem of_step (hs : ¬final s) (h : Fate step final (step s) n P) :
    Fate step final s (n + 1) P :=
  ⟨fun hP => (h.never hP).of_step hs, fun hP => (h.within hP).of_step⟩

theorem mono (h : Fate step final s n P) (hle : n ≤ n') : Fate step final s n' P :=
  ⟨h.never, fun hP => (h.within hP).mono hle⟩

theorem congr (h : Fate step final s n P) (hPQ : P ↔ Q) : Fate step final s n Q :=
  ⟨fun hQ => h.never (hPQ.mpr hQ), fun hQ => h.within (mt hPQ.mp hQ)⟩

/-- The run ends in time exactly where it does not go on for ever. -/
theorem within_iff (h : Fate step final s n P) : Within step final n s ↔ ¬P := by
  constructor
  · rintro ⟨k, -, hfinal⟩ hP
    exact h.never hP k hfinal
  · exact h.within

end Fate

end ParaTos.Halting
