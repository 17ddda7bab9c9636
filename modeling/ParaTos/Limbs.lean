/-
  ParaTos/Limbs.lean
  ==================
  **Long numbers, added limb by limb.**

  A list of bytes is a number once each byte is a digit of some base: all eight bits
  in base 256, or two decimal digits in base 100.  Two numbers are added from their
  low ends, and what one piece carries goes into the next.  `Adds` and `Subs` say what
  one piece does, and both go through a carry (`Chains`): a piece and the one above it
  are a piece.
  Nothing here names a particular program.
-/
import ParaTos.Bytes
import ParaTos.Run
import Mathlib.Algebra.Order.Ring.Nat
import Mathlib.Tactic.Ring

namespace ParaTos.Limbs

open Bytes

/-! ### Digits -/

/-- A list of bytes as the digits of a number, the most significant one first. -/
def positional (base : Nat) (digit : UInt8 → Nat) (l : List UInt8) : Nat :=
  l.foldl (fun v b => v * base + digit b) 0

section Positional

variable {base : Nat} {digit : UInt8 → Nat}

@[simp] theorem positional_nil : positional base digit [] = 0 := rfl

theorem positional_concat (l : List UInt8) (b : UInt8) :
    positional base digit (l ++ [b]) = positional base digit l * base + digit b := by
  simp [positional]

theorem positional_append (l l' : List UInt8) :
    positional base digit (l ++ l') =
      positional base digit l * base ^ l'.length + positional base digit l' := by
  induction l' using List.reverseRecOn with
  | nil => simp
  | append_singleton l' b ih =>
    rw [← List.append_assoc, positional_concat, ih, positional_concat, List.length_append]
    simp only [List.length_singleton]
    ring

theorem positional_bytes (l : List UInt8) : positional 256 UInt8.toNat l = ofBigEndian l := rfl

end Positional

/-! ### Carries -/

/-- `r` is the sum of `a` and `b` in a place of weight `B`, with `x` carried in and `c` out. -/
def Adds (B a b r : Nat) (x c : Bool) : Prop := r + B * c.toNat = a + b + x.toNat

/-- `r` is the difference of `a` and `b`, with `x` borrowed before and `c` after. -/
def Subs (B a b r : Nat) (x c : Bool) : Prop := r + b + x.toNat = a + B * c.toNat

/-- A relation that goes through a carry. -/
structure Chains (R : Nat → Nat → Nat → Nat → Bool → Bool → Prop) : Prop where
  nil : ∀ x, R 1 0 0 0 x x
  append : ∀ {B a b r B' a' b' r' x c c'}, R B a b r x c → R B' a' b' r' c c' →
    R (B' * B) (a' * B + a) (b' * B + b) (r' * B + r) x c'

theorem adds_chains : Chains Adds where
  nil x := by simp [Adds]
  append := by
    intro B a b r B' a' b' r' x c c' h h'
    unfold Adds at h h' ⊢
    calc r' * B + r + B' * B * c'.toNat = (r' + B' * c'.toNat) * B + r := by ring
      _ = a' * B + b' * B + (r + B * c.toNat) := by
        rw [h']
        ring
      _ = a' * B + a + (b' * B + b) + x.toNat := by
        rw [h]
        ring

theorem subs_chains : Chains Subs where
  nil x := by simp [Subs]
  append := by
    intro B a b r B' a' b' r' x c c' h h'
    unfold Subs at h h' ⊢
    calc r' * B + r + (b' * B + b) + x.toNat = (r' + b') * B + (r + b + x.toNat) := by ring
      _ = (r' + b' + c.toNat) * B + a := by
        rw [h]
        ring
      _ = a' * B + a + B' * B * c'.toNat := by
        rw [h']
        ring

/-! ### Repeated statements -/

/-- A statement, `n` times. -/
def times {α : Type} (step : α → Run α) : Nat → α → Run α
  | 0, s => Except.ok s
  | n + 1, s => do
    let s ← step s
    times step n s

theorem times_succ {α : Type} {step : α → Run α} {n : Nat} {s t u : α}
    (h : step s = Except.ok t) (h' : times step n t = Except.ok u) :
    times step (n + 1) s = Except.ok u := by
  rw [times, h, Run.ok_bind, h']

end ParaTos.Limbs
