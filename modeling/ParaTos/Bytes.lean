/-
  ParaTos/Bytes.lean
  ==================
  **Byte memories.**

  A memory image gives a value at every address.  `write m a l` stores a list at
  consecutive addresses, and `Shows m a l` says that the list stands there.  Code
  that fills a buffer front to back is a chain of such writes; the lemmas put a
  chain together to one write, also where a string is laid over the terminator of
  the one before, and say what a write leaves alone.

  The second half is about numbers stored most significant byte first.
-/
import Mathlib.Data.List.Basic
import Mathlib.Data.List.Induction
import Mathlib.Algebra.Group.Nat.Defs
import Mathlib.Logic.Function.Basic

namespace ParaTos.Bytes

variable {β : Type}

/-- A value at every address. -/
abbrev Image (β : Type) := Nat → β

/-- Store a list at consecutive addresses. -/
def write (m : Image β) (a : Nat) (l : List β) : Image β := fun x =>
  if a ≤ x then l[x - a]?.getD (m x) else m x

/-- The list stands at consecutive addresses. -/
def Shows (m : Image β) (a : Nat) (l : List β) : Prop :=
  ∀ i, (h : i < l.length) → m (a + i) = l[i]

/-! ### Writing -/

@[simp] theorem write_nil (m : Image β) (a : Nat) : write m a [] = m := by
  funext x
  simp [write]

theorem write_outside (m : Image β) {a x : Nat} {l : List β} (h : x < a ∨ a + l.length ≤ x) :
    write m a l x = m x := by
  unfold write
  split
  · have hlen : l.length ≤ x - a := by omega
    rw [List.getElem?_eq_none hlen]
    rfl
  · rfl

theorem write_inside (m : Image β) (a : Nat) {l : List β} {i : Nat} (h : i < l.length) :
    write m a l (a + i) = l[i] := by
  unfold write
  rw [if_pos (Nat.le_add_right a i), Nat.add_sub_cancel_left, List.getElem?_eq_getElem h]
  rfl

theorem write_singleton (m : Image β) (a : Nat) (v : β) : write m a [v] = Function.update m a v := by
  funext x
  by_cases h : x = a
  · rw [h, Function.update_self]
    exact write_inside m a (l := [v]) (i := 0) (by simp)
  · rw [Function.update_of_ne h, write_outside]
    simp only [List.length_singleton]
    omega

/-- Two writes, the second one over the end of the first and beyond it. -/
theorem write_over (m : Image β) (a : Nat) (l : List β) {k l' : List β}
    (h : k.length ≤ l'.length) :
    write (write m a (l ++ k)) (a + l.length) l' = write m a (l ++ l') := by
  funext x
  by_cases hlo : x < a
  · rw [write_outside _ (by omega), write_outside _ (by omega), write_outside _ (by omega)]
  obtain ⟨i, rfl⟩ : ∃ i, x = a + i := ⟨x - a, by omega⟩
  by_cases hmid : i < l.length
  · have hk : i < (l ++ k).length := by
      rw [List.length_append]
      omega
    have hl' : i < (l ++ l').length := by
      rw [List.length_append]
      omega
    rw [write_outside _ (by omega), write_inside m a hk, write_inside m a hl',
      List.getElem_append_left hmid, List.getElem_append_left hmid]
  by_cases hhi : i < l.length + l'.length
  · obtain ⟨j, rfl⟩ : ∃ j, i = l.length + j := ⟨i - l.length, by omega⟩
    have hj : j < l'.length := by omega
    have hl' : l.length + j < (l ++ l').length := by
      rw [List.length_append]
      omega
    rw [write_inside m a hl', ← Nat.add_assoc, write_inside _ _ hj]
    simp
  · rw [write_outside, write_outside, write_outside]
    · rw [List.length_append]
      omega
    · rw [List.length_append]
      omega
    · omega

theorem write_append (m : Image β) (a : Nat) (l l' : List β) :
    write (write m a l) (a + l.length) l' = write m a (l ++ l') := by
  have h := @write_over _ m a l [] l' (Nat.zero_le _)
  rwa [List.append_nil] at h

theorem write_cons (m : Image β) (a : Nat) (b : β) (l : List β) :
    write (write m a [b]) (a + 1) l = write m a (b :: l) := write_append m a [b] l

/-- A value that stands there already need not be written. -/
theorem write_same (m : Image β) (a : Nat) (l : List β) :
    write m a (l ++ [m (a + l.length)]) = write m a l := by
  rw [← write_append, write_singleton]
  apply Function.update_eq_self_iff.mpr
  exact (write_outside m (by omega)).symm

/-- Writes to separate places commute. -/
theorem write_comm (m : Image β) {a a' : Nat} {l l' : List β}
    (h : a + l.length ≤ a' ∨ a' + l'.length ≤ a) :
    write (write m a l) a' l' = write (write m a' l') a l := by
  funext x
  by_cases hl : a ≤ x ∧ x < a + l.length
  · obtain ⟨i, rfl⟩ : ∃ i, x = a + i := ⟨x - a, by omega⟩
    rw [write_outside _ (by omega), write_inside _ _ (by omega), write_inside _ _ (by omega)]
  · rw [write_outside (write m a' l') (by omega)]
    by_cases hl' : a' ≤ x ∧ x < a' + l'.length
    · obtain ⟨i, rfl⟩ : ∃ i, x = a' + i := ⟨x - a', by omega⟩
      rw [write_inside _ _ (by omega), write_inside _ _ (by omega)]
    · rw [write_outside _ (by omega), write_outside _ (by omega), write_outside _ (by omega)]

/-- Bytes that are stored right below others. -/
theorem write_prepend (m : Image β) (a : Nat) (l l' : List β) :
    write (write m (a + l.length) l') a l = write m a (l ++ l') := by
  rw [write_comm m (Or.inr (Nat.le_refl _)), write_append]

/-! ### What stands in memory -/

theorem shows_nil (m : Image β) (a : Nat) : Shows m a [] := fun _ h => absurd h (Nat.not_lt_zero _)

theorem shows_cons {m : Image β} {a : Nat} {b : β} {l : List β} :
    Shows m a (b :: l) ↔ m a = b ∧ Shows m (a + 1) l := by
  constructor
  · intro h
    constructor
    · exact h 0 (by simp)
    · intro i hi
      have hsum : a + 1 + i = a + (i + 1) := by omega
      rw [hsum]
      exact h (i + 1) (by simpa using hi)
  · rintro ⟨h0, h⟩ i hi
    cases i with
    | zero => exact h0
    | succ i =>
      have hsum : a + (i + 1) = a + 1 + i := by omega
      rw [hsum]
      exact h i (by simpa using hi)

theorem shows_append {m : Image β} {a : Nat} {l l' : List β} :
    Shows m a (l ++ l') ↔ Shows m a l ∧ Shows m (a + l.length) l' := by
  induction l generalizing a with
  | nil => simp [shows_nil]
  | cons b l ih =>
    rw [List.cons_append, shows_cons, shows_cons, ih, List.length_cons, and_assoc,
      Nat.add_assoc, Nat.add_comm 1]

theorem shows_write (m : Image β) (a : Nat) (l : List β) : Shows (write m a l) a l :=
  fun _ h => write_inside m a h

/-- Of two lists that stand in one place, the longer one begins with the shorter one. -/
theorem Shows.begins {m : Image β} {a : Nat} {l l' : List β} (h : Shows m a l)
    (h' : Shows m a l') (hle : l.length ≤ l'.length) : l <+: l' := by
  rw [List.prefix_iff_getElem]
  refine ⟨hle, fun i hi => ?_⟩
  exact (h i hi).symm.trans (h' i (Nat.lt_of_lt_of_le hi hle))

theorem Shows.congr {m m' : Image β} {a : Nat} {l : List β} (h : Shows m a l)
    (hm : ∀ x, a ≤ x → x < a + l.length → m' x = m x) : Shows m' a l := by
  intro i hi
  rw [hm (a + i) (by omega) (by omega)]
  exact h i hi

/-- A write of what stands there already, and no other, changes nothing. -/
theorem write_eq_self_iff {m : Image β} {a : Nat} {l : List β} : write m a l = m ↔ Shows m a l := by
  constructor
  · intro h
    have hshows := shows_write m a l
    rwa [h] at hshows
  · intro h
    funext x
    by_cases hx : x < a ∨ a + l.length ≤ x
    · exact write_outside m hx
    · obtain ⟨i, rfl⟩ : ∃ i, x = a + i := ⟨x - a, by omega⟩
      rw [write_inside m a (by omega), h i (by omega)]

/-- What stands elsewhere stays. -/
theorem Shows.write {m : Image β} {a a' : Nat} {l l' : List β} (h : Shows m a l)
    (hd : a + l.length ≤ a' ∨ a' + l'.length ≤ a) : Shows (write m a' l') a l := by
  apply h.congr
  intro x hlo hhi
  exact write_outside m (by omega)

/-- The `n` values from an address on. -/
def slice (m : Image β) (a n : Nat) : List β := (List.range n).map fun i => m (a + i)

@[simp] theorem slice_length (m : Image β) (a n : Nat) : (slice m a n).length = n := by
  simp [slice]

theorem slice_append (m : Image β) (a n k : Nat) :
    slice m a (n + k) = slice m a n ++ slice m (a + n) k := by
  simp [slice, List.range_add, Function.comp_def, Nat.add_assoc]

theorem slice_succ (m : Image β) (a n : Nat) : slice m a (n + 1) = m a :: slice m (a + 1) n := by
  rw [Nat.add_comm, slice_append]
  rfl

theorem slice_eq_iff {m m' : Image β} {a a' n : Nat} :
    slice m a n = slice m' a' n ↔ ∀ i < n, m (a + i) = m' (a' + i) := by
  simp only [slice, List.map_inj_left, List.mem_range]

theorem Shows.slice_eq {m : Image β} {a : Nat} {l : List β} (h : Shows m a l) :
    slice m a l.length = l := by
  apply List.ext_getElem
  · exact slice_length m a l.length
  · intro i hi hi'
    have hvalue : (slice m a l.length)[i] = m (a + i) := by simp [slice]
    exact hvalue.trans (h i hi')

/-! ### Numbers, most significant byte first -/

/-- The `n` bytes of a number. -/
def bigEndian : Nat → Nat → List UInt8
  | 0, _ => []
  | n + 1, v => UInt8.ofNat (v / 256 ^ n) :: bigEndian n v

/-- The number that bytes stand for. -/
def ofBigEndian (l : List UInt8) : Nat := l.foldl (fun v b => v * 256 + b.toNat) 0

@[simp] theorem bigEndian_length (n v : Nat) : (bigEndian n v).length = n := by
  induction n with
  | zero => rfl
  | succ n ih => rw [bigEndian, List.length_cons, ih]

theorem foldl_bigEndian (n v acc : Nat) :
    (bigEndian n v).foldl (fun v b => v * 256 + b.toNat) acc = acc * 256 ^ n + v % 256 ^ n := by
  induction n generalizing acc with
  | zero => simp [bigEndian, Nat.mod_one]
  | succ n ih =>
    have hbyte : (UInt8.ofNat (v / 256 ^ n)).toNat = v / 256 ^ n % 256 := UInt8.toNat_ofNat'
    have hdigit : v % 256 ^ (n + 1) = v % 256 ^ n + 256 ^ n * (v / 256 ^ n % 256) := by
      rw [Nat.pow_succ, Nat.mod_mul]
    rw [bigEndian, List.foldl_cons, ih, hbyte, hdigit, Nat.pow_succ, Nat.add_mul]
    rw [Nat.mul_assoc, Nat.mul_comm 256, Nat.mul_comm (v / 256 ^ n % 256)]
    omega

/-- A number that fits comes back. -/
theorem ofBigEndian_bigEndian (n v : Nat) : ofBigEndian (bigEndian n v) = v % 256 ^ n := by
  rw [ofBigEndian, foldl_bigEndian]
  omega

/-- The last byte of a number. -/
theorem bigEndian_concat (n v : Nat) :
    bigEndian (n + 1) v = bigEndian n (v / 256) ++ [UInt8.ofNat v] := by
  induction n with
  | zero => simp [bigEndian]
  | succ n ih =>
    have hfirst : v / 256 ^ (n + 1) = v / 256 / 256 ^ n := by
      rw [Nat.pow_succ', Nat.div_div_eq_div_mul]
    rw [bigEndian, ih, hfirst, bigEndian, List.cons_append]

theorem ofBigEndian_concat (l : List UInt8) (b : UInt8) :
    ofBigEndian (l ++ [b]) = ofBigEndian l * 256 + b.toNat := by
  rw [ofBigEndian, List.foldl_append, ofBigEndian, List.foldl_cons, List.foldl_nil]

theorem ofBigEndian_append (l l' : List UInt8) :
    ofBigEndian (l ++ l') = ofBigEndian l * 256 ^ l'.length + ofBigEndian l' := by
  induction l' using List.reverseRecOn with
  | nil => simp [ofBigEndian]
  | append_singleton l' b ih =>
    rw [← List.append_assoc, ofBigEndian_concat, ofBigEndian_concat, ih, List.length_append,
      List.length_singleton, Nat.pow_succ, ← Nat.mul_assoc, Nat.add_mul, Nat.add_assoc]

theorem ofBigEndian_cons (b : UInt8) (l : List UInt8) :
    ofBigEndian (b :: l) = b.toNat * 256 ^ l.length + ofBigEndian l := by
  have hbyte : ofBigEndian [b] = b.toNat := Nat.zero_add b.toNat
  rw [← List.singleton_append, ofBigEndian_append, hbyte]

theorem ofBigEndian_lt (l : List UInt8) : ofBigEndian l < 256 ^ l.length := by
  induction l using List.reverseRecOn with
  | nil => simp [ofBigEndian]
  | append_singleton l b ih =>
    have hb := b.toNat_lt
    rw [ofBigEndian_concat, List.length_append, List.length_singleton, Nat.pow_succ]
    omega

/-- Bytes come back. -/
theorem bigEndian_ofBigEndian (l : List UInt8) : bigEndian l.length (ofBigEndian l) = l := by
  induction l using List.reverseRecOn with
  | nil => rfl
  | append_singleton l b ih =>
    have hb := b.toNat_lt
    have hrest : (ofBigEndian l * 256 + b.toNat) / 256 = ofBigEndian l := by omega
    have hlast : UInt8.ofNat (ofBigEndian l * 256 + b.toNat) = b := by
      apply UInt8.toNat.inj
      rw [UInt8.toNat_ofNat']
      omega
    rw [ofBigEndian_concat, List.length_append, List.length_singleton, bigEndian_concat, hrest,
      hlast, ih]

theorem ofBigEndian_inj {l l' : List UInt8} (hlen : l.length = l'.length)
    (h : ofBigEndian l = ofBigEndian l') : l = l' := by
  rw [← bigEndian_ofBigEndian l, h, hlen, bigEndian_ofBigEndian]

/-- The bytes say nothing of what does not fit. -/
theorem bigEndian_mod (n v : Nat) : bigEndian n (v % 256 ^ n) = bigEndian n v := by
  have h := bigEndian_ofBigEndian (bigEndian n v)
  rwa [bigEndian_length, ofBigEndian_bigEndian] at h

theorem bigEndian_congr {n v v' : Nat} (h : v % 256 ^ n = v' % 256 ^ n) :
    bigEndian n v = bigEndian n v' := by
  rw [← bigEndian_mod n v, h, bigEndian_mod]

end ParaTos.Bytes
