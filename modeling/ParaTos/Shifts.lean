/-
  ParaTos/Shifts.lean
  ===================
  **Shifting one place at a time.**

  A shift by `n` places is `n` shifts by one place, and this is how the manuals of
  processors say what happens to the bits that leave: the last of them is the carry, an
  arithmetic shift to the left notes whether the sign ever changed, and a rotation may
  take the extend bit along.  Here a register is a function from places to bits, and
  `steps` says for each kind of shift what `n` single steps come to.

  Nothing here names a particular program.
-/
import Mathlib.Logic.Function.Iterate
import Mathlib.Tactic.SplitIfs

namespace ParaTos.Shifts

/-! ### Single steps -/

/-- A register, the extend bit, the carry, and whether the sign has changed. -/
structure Shifter where
  bits : Nat → Bool
  x : Bool
  c : Bool
  v : Bool

inductive Kind where
  | asr
  | lsr
  | asl
  | lsl
  | ror
  | rol
  | roxr
  | roxl
deriving DecidableEq, Repr

/-- All bits go down one place, and `b` comes in at the top. -/
def rightIn (w : Nat) (b : Bool) (bits : Nat → Bool) (i : Nat) : Bool :=
  decide (i < w) && (if i + 1 = w then b else bits (i + 1))

/-- All bits go up one place, and `b` comes in at the bottom. -/
def leftIn (w : Nat) (b : Bool) (bits : Nat → Bool) (i : Nat) : Bool :=
  decide (i < w) && (if i = 0 then b else bits (i - 1))

/-- A shift of a register of `w` bits by one place. -/
def step (w : Nat) : Kind → Shifter → Shifter
  | .asr, s => ⟨rightIn w (s.bits (w - 1)) s.bits, s.bits 0, s.bits 0, s.v⟩
  | .lsr, s => ⟨rightIn w false s.bits, s.bits 0, s.bits 0, s.v⟩
  | .asl, s => ⟨leftIn w false s.bits, s.bits (w - 1), s.bits (w - 1),
      s.v || (s.bits (w - 1) != leftIn w false s.bits (w - 1))⟩
  | .lsl, s => ⟨leftIn w false s.bits, s.bits (w - 1), s.bits (w - 1), s.v⟩
  | .ror, s => ⟨rightIn w (s.bits 0) s.bits, s.x, s.bits 0, s.v⟩
  | .rol, s => ⟨leftIn w (s.bits (w - 1)) s.bits, s.x, s.bits (w - 1), s.v⟩
  | .roxr, s => ⟨rightIn w s.x s.bits, s.bits 0, s.bits 0, s.v⟩
  | .roxl, s => ⟨leftIn w s.x s.bits, s.bits (w - 1), s.bits (w - 1), s.v⟩

def steps (w : Nat) (kind : Kind) (n : Nat) (s : Shifter) : Shifter := (step w kind)^[n] s

theorem steps_succ (w : Nat) (kind : Kind) (n : Nat) (s : Shifter) :
    steps w kind (n + 1) s = step w kind (steps w kind n s) :=
  Function.iterate_succ_apply' ..

/-! ### The places after `n` steps -/

/-- Down by `n` places, with `b` above. -/
def down (w n : Nat) (b : Bool) (bits : Nat → Bool) (i : Nat) : Bool :=
  decide (i < w) && (if i + n < w then bits (i + n) else b)

/-- Up by `n` places. -/
def up (w n : Nat) (bits : Nat → Bool) (i : Nat) : Bool :=
  decide (i < w) && (decide (n ≤ i) && bits (i - n))

/-- Round by `k < w` places. -/
def roundDown (w k : Nat) (bits : Nat → Bool) (i : Nat) : Bool :=
  decide (i < w) && (if i + k < w then bits (i + k) else bits (i + k - w))

def roundUp (w k : Nat) (bits : Nat → Bool) (i : Nat) : Bool :=
  decide (i < w) && (if i < k then bits (i + w - k) else bits (i - k))

section Places

variable {w : Nat} {bits : Nat → Bool}

theorem rightIn_down (n : Nat) (b : Bool) :
    rightIn w b (down w n b bits) = down w (n + 1) b bits := by
  funext i
  unfold rightIn down
  by_cases hi : i < w
  · by_cases htop : i + 1 = w
    · have hge : ¬i + (n + 1) < w := by omega
      simp [hi, htop, hge]
    · have hlt : i + 1 < w := by omega
      have hsum : i + 1 + n = i + (n + 1) := by omega
      simp [hi, htop, hlt, hsum]
  · simp [hi]

theorem leftIn_up (n : Nat) : leftIn w false (up w n bits) = up w (n + 1) bits := by
  funext i
  unfold leftIn up
  by_cases hi : i < w
  · cases i with
    | zero => simp
    | succ i =>
      have hlt : i < w := by omega
      simp [hi, hlt]
  · simp [hi]

theorem rightIn_roundDown {k : Nat} (hk : k < w) :
    rightIn w (roundDown w k bits 0) (roundDown w k bits) =
      roundDown w (if k + 1 = w then 0 else k + 1) bits := by
  funext i
  unfold rightIn roundDown
  split_ifs <;> grind

theorem leftIn_roundUp {k : Nat} (hk : k < w) :
    leftIn w (roundUp w k bits (w - 1)) (roundUp w k bits) =
      roundUp w (if k + 1 = w then 0 else k + 1) bits := by
  funext i
  unfold leftIn roundUp
  split_ifs <;> grind

theorem succ_mod_eq (hw : 0 < w) (n : Nat) :
    (n + 1) % w = if n % w + 1 = w then 0 else n % w + 1 := by
  have hlt : n % w < w := Nat.mod_lt n hw
  rw [← Nat.mod_add_mod]
  split_ifs with h
  · rw [h, Nat.mod_self]
  · exact Nat.mod_eq_of_lt (by omega)

end Places

/-! ### Shifts by any number of places -/

section Steps

variable {w : Nat} {s : Shifter}

/-- A register has `w` bits. -/
def Narrow (w : Nat) (s : Shifter) : Prop := ∀ i, w ≤ i → s.bits i = false

theorem down_zero (hs : Narrow w s) (b : Bool) : down w 0 b s.bits = s.bits := by
  funext i
  by_cases hi : i < w
  · simp [down, hi]
  · simp [down, hi, hs i (by omega)]

theorem up_zero (hs : Narrow w s) : up w 0 s.bits = s.bits := by
  funext i
  by_cases hi : i < w
  · simp [up, hi]
  · simp [up, hi, hs i (by omega)]

theorem steps_asr (hw : 0 < w) (hs : Narrow w s) (n : Nat) : steps w .asr n s =
    ⟨down w n (s.bits (w - 1)) s.bits,
      if n = 0 then s.x else s.bits (min (n - 1) (w - 1)),
      if n = 0 then s.c else s.bits (min (n - 1) (w - 1)), s.v⟩ := by
  induction n with
  | zero => simp [steps, down_zero hs]
  | succ n ih =>
    have htop : down w n (s.bits (w - 1)) s.bits (w - 1) = s.bits (w - 1) := by
      unfold down
      grind
    have hbottom : down w n (s.bits (w - 1)) s.bits 0 = s.bits (min n (w - 1)) := by
      unfold down
      grind
    rw [steps_succ, ih]
    simp [step, htop, hbottom, rightIn_down]

theorem steps_lsr (hw : 0 < w) (hs : Narrow w s) (n : Nat) : steps w .lsr n s =
    ⟨down w n false s.bits, if n = 0 then s.x else s.bits (n - 1),
      if n = 0 then s.c else s.bits (n - 1), s.v⟩ := by
  induction n with
  | zero => simp [steps, down_zero hs]
  | succ n ih =>
    have hbottom : down w n false s.bits 0 = s.bits n := by
      by_cases hn : n < w
      · simp [down, hw, hn]
      · simp [down, hn, hs n (by omega)]
    rw [steps_succ, ih]
    simp [step, hbottom, rightIn_down]

/-- The bit that leaves at the top in step `n`. -/
theorem up_top (hw : 0 < w) (n : Nat) :
    up w n s.bits (w - 1) = (decide (n < w) && s.bits (w - 1 - n)) := by
  unfold up
  grind

theorem steps_lsl (hw : 0 < w) (hs : Narrow w s) (n : Nat) : steps w .lsl n s =
    ⟨up w n s.bits, if n = 0 then s.x else decide (n ≤ w) && s.bits (w - n),
      if n = 0 then s.c else decide (n ≤ w) && s.bits (w - n), s.v⟩ := by
  induction n with
  | zero => simp [steps, up_zero hs]
  | succ n ih =>
    have hplace : w - 1 - n = w - (n + 1) := by omega
    rw [steps_succ, ih]
    simp [step, up_top hw, leftIn_up, hplace, Nat.succ_le_iff]

/-- The sign after `n` steps to the left. -/
def signAfter (w : Nat) (bits : Nat → Bool) (n : Nat) : Bool :=
  decide (n < w) && bits (w - 1 - n)

/-- Whether the sign changes in one of the first `n` steps. -/
def signChanges (w : Nat) (bits : Nat → Bool) (n : Nat) : Bool :=
  decide (∃ k < n, signAfter w bits k ≠ signAfter w bits (k + 1))

theorem signChanges_succ (bits : Nat → Bool) (n : Nat) : signChanges w bits (n + 1) =
    (signChanges w bits n || (signAfter w bits n != signAfter w bits (n + 1))) := by
  rw [Bool.eq_iff_iff]
  simp only [signChanges, decide_eq_true_eq, Bool.or_eq_true, bne_iff_ne, Nat.lt_succ_iff]
  constructor
  · rintro ⟨k, hk, hne⟩
    rcases Nat.lt_or_eq_of_le hk with hlt | rfl
    · exact .inl ⟨k, hlt, hne⟩
    · exact .inr hne
  · rintro (⟨k, hk, hne⟩ | hne)
    · exact ⟨k, Nat.le_of_lt hk, hne⟩
    · exact ⟨n, Nat.le_refl n, hne⟩

/-- The sign never changes when all bits that pass the top are the same. -/
theorem signChanges_eq_false {bits : Nat → Bool} {n : Nat} : signChanges w bits n = false ↔
    ∀ k ≤ n, signAfter w bits k = signAfter w bits 0 := by
  rw [signChanges, decide_eq_false_iff_not]
  constructor
  · intro h k hk
    induction k with
    | zero => rfl
    | succ k ih =>
      have heq : signAfter w bits k = signAfter w bits (k + 1) := by
        by_contra hne
        exact h ⟨k, hk, hne⟩
      rw [← heq, ih (by omega)]
  · rintro h ⟨k, hk, hne⟩
    exact hne ((h k (by omega)).trans (h (k + 1) hk).symm)

theorem steps_asl (hw : 0 < w) (hs : Narrow w s) (n : Nat) : steps w .asl n s =
    ⟨up w n s.bits, if n = 0 then s.x else decide (n ≤ w) && s.bits (w - n),
      if n = 0 then s.c else decide (n ≤ w) && s.bits (w - n),
      s.v || signChanges w s.bits n⟩ := by
  induction n with
  | zero => simp [steps, up_zero hs, signChanges]
  | succ n ih =>
    have hplace : w - 1 - n = w - (n + 1) := by omega
    have hsign : ∀ k, up w k s.bits (w - 1) = signAfter w s.bits k := up_top hw
    rw [steps_succ, ih, signChanges_succ]
    simp only [step, leftIn_up, hsign, Shifter.mk.injEq, Bool.or_assoc, true_and, and_true]
    simp [signAfter, hplace, Nat.succ_le_iff]

theorem roundDown_zero (hs : Narrow w s) : roundDown w 0 s.bits = s.bits := by
  funext i
  by_cases hi : i < w
  · simp [roundDown, hi]
  · simp [roundDown, hi, hs i (by omega)]

theorem roundUp_zero (hs : Narrow w s) : roundUp w 0 s.bits = s.bits := by
  funext i
  by_cases hi : i < w
  · simp [roundUp, hi]
  · simp [roundUp, hi, hs i (by omega)]

/-- The bit that has left is the one that has come in. -/
theorem steps_ror (hw : 0 < w) (hs : Narrow w s) (n : Nat) : steps w .ror n s =
    ⟨roundDown w (n % w) s.bits, s.x,
      if n = 0 then s.c else roundDown w (n % w) s.bits (w - 1), s.v⟩ := by
  induction n with
  | zero => simp [steps, roundDown_zero hs]
  | succ n ih =>
    have hround := @rightIn_roundDown w s.bits _ (Nat.mod_lt n hw)
    rw [← succ_mod_eq hw] at hround
    have hcarry : roundDown w (n % w) s.bits 0 = roundDown w ((n + 1) % w) s.bits (w - 1) := by
      rw [← hround, rightIn]
      grind
    rw [steps_succ, ih]
    simp only [step, hround]
    simp [hcarry]

theorem steps_rol (hw : 0 < w) (hs : Narrow w s) (n : Nat) : steps w .rol n s =
    ⟨roundUp w (n % w) s.bits, s.x, if n = 0 then s.c else roundUp w (n % w) s.bits 0, s.v⟩ := by
  induction n with
  | zero => simp [steps, roundUp_zero hs]
  | succ n ih =>
    have hround := @leftIn_roundUp w s.bits _ (Nat.mod_lt n hw)
    rw [← succ_mod_eq hw] at hround
    have hcarry : roundUp w (n % w) s.bits (w - 1) = roundUp w ((n + 1) % w) s.bits 0 := by
      rw [← hround, leftIn]
      simp [hw]
    rw [steps_succ, ih]
    simp only [step, hround]
    simp [hcarry]

/-- The register with the extend bit above it. -/
def join (w : Nat) (x : Bool) (bits : Nat → Bool) (i : Nat) : Bool := if i = w then x else bits i

theorem narrow_step (kind : Kind) (s : Shifter) : Narrow w (step w kind s) := by
  intro i hi
  cases kind <;> simp [step, rightIn, leftIn, Nat.not_lt_of_le hi]

theorem narrow_steps (hs : Narrow w s) (kind : Kind) (n : Nat) : Narrow w (steps w kind n s) := by
  cases n with
  | zero => exact hs
  | succ n =>
    rw [steps_succ]
    exact narrow_step kind _

theorem join_roxr (hw : 0 < w) : join w (step w .roxr s).x (step w .roxr s).bits =
    rightIn (w + 1) (join w s.x s.bits 0) (join w s.x s.bits) := by
  funext i
  simp only [step, join, rightIn]
  grind

theorem join_roxl (hw : 0 < w) : join w (step w .roxl s).x (step w .roxl s).bits =
    leftIn (w + 1) (join w s.x s.bits w) (join w s.x s.bits) := by
  funext i
  simp only [step, join, leftIn]
  grind

theorem join_narrow (hs : Narrow w s) : ∀ i, w + 1 ≤ i → join w s.x s.bits i = false := by
  intro i hi
  have hne : i ≠ w := by omega
  simp [join, hne, hs i (by omega)]

/-- A rotation with the extend bit is one of the wider register. -/
theorem steps_roxr (hw : 0 < w) (hs : Narrow w s) (n : Nat) :
    join w (steps w .roxr n s).x (steps w .roxr n s).bits =
      roundDown (w + 1) (n % (w + 1)) (join w s.x s.bits) := by
  have hwide : 0 < w + 1 := by omega
  induction n with
  | zero => exact (roundDown_zero (s := ⟨join w s.x s.bits, false, false, false⟩) (join_narrow hs)).symm
  | succ n ih =>
    rw [steps_succ, join_roxr hw, ih, rightIn_roundDown (Nat.mod_lt n hwide), ← succ_mod_eq hwide]

theorem steps_roxl (hw : 0 < w) (hs : Narrow w s) (n : Nat) :
    join w (steps w .roxl n s).x (steps w .roxl n s).bits =
      roundUp (w + 1) (n % (w + 1)) (join w s.x s.bits) := by
  have hwide : 0 < w + 1 := by omega
  induction n with
  | zero => exact (roundUp_zero (s := ⟨join w s.x s.bits, false, false, false⟩) (join_narrow hs)).symm
  | succ n ih =>
    have hround := @leftIn_roundUp (w + 1) (join w s.x s.bits) _ (Nat.mod_lt n hwide)
    rw [← succ_mod_eq hwide] at hround
    rw [steps_succ, join_roxl hw, ih]
    exact hround

/-- Rotations with the extend bit leave the carry equal to it. -/
theorem steps_rox_c {kind : Kind} (hkind : kind = .roxr ∨ kind = .roxl) (hs : s.c = s.x) (n : Nat) :
    (steps w kind n s).c = (steps w kind n s).x := by
  cases n with
  | zero => exact hs
  | succ n =>
    rw [steps_succ]
    rcases hkind with rfl | rfl <;> rfl

theorem steps_rox_v {kind : Kind} (hkind : kind = .roxr ∨ kind = .roxl) (n : Nat) :
    (steps w kind n s).v = s.v := by
  induction n with
  | zero => rfl
  | succ n ih =>
    rw [steps_succ, ← ih]
    rcases hkind with rfl | rfl <;> rfl

end Steps

end ParaTos.Shifts
