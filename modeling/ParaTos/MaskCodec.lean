/-
  ParaTos/MaskCodec.lean
  ======================
  **Sets as bit masks.**

  A table gives some members of a type a bit of a 32-bit word each.  `decode`
  reads a word as a set, one table line after the other, and `encode` writes a set
  as a word, each with a table of its own.

  Where the two tables say the same (`Codec`), decoding is undone by encoding up
  to the bits that nothing has, and encoding by decoding up to the members without
  a bit.  Nothing here names a particular program.
-/
import Mathlib.Data.List.Nodup
import Mathlib.Logic.Function.Basic
import Mathlib.Data.Nat.Bitwise

namespace ParaTos.MaskCodec

/-! ### The bits of a word -/

/-- Bit `n` of a word. -/
def bit (m : UInt32) (n : Nat) : Bool := m.toNat.testBit n

/-- The word with bit `n` alone. -/
def flag (n : Nat) : UInt32 := 1 <<< UInt32.ofNat n

@[simp] theorem bit_zero (n : Nat) : bit 0 n = false := by
  simp [bit]

@[simp] theorem bit_or (a b : UInt32) (n : Nat) : bit (a ||| b) n = (bit a n || bit b n) := by
  simp [bit]

@[simp] theorem bit_and (a b : UInt32) (n : Nat) : bit (a &&& b) n = (bit a n && bit b n) := by
  simp [bit]

theorem bit_ge (m : UInt32) {n : Nat} (h : 32 ≤ n) : bit m n = false := by
  apply Nat.testBit_lt_two_pow
  exact lt_of_lt_of_le m.toNat_lt (Nat.pow_le_pow_right (by decide) h)

theorem toNat_flag {n : Nat} (h : n < 32) : (flag n).toNat = 2 ^ n := by
  have hpow : 2 ^ n < 2 ^ 32 := Nat.pow_lt_pow_right (by decide) h
  have hnat : (UInt32.ofNat n).toNat = n := UInt32.toNat_ofNat_of_lt (lt_trans h (by decide))
  rw [flag, UInt32.toNat_shiftLeft, hnat, Nat.mod_eq_of_lt h]
  simpa [Nat.shiftLeft_eq] using hpow

theorem bit_flag {n : Nat} (h : n < 32) (k : Nat) : bit (flag n) k = decide (n = k) := by
  rw [bit, toNat_flag h, Nat.testBit_two_pow]

/-- Words with the same bits are equal. -/
theorem eq_of_bit {a b : UInt32} (h : ∀ n < 32, bit a n = bit b n) : a = b := by
  apply UInt32.toNat_inj.mp
  apply Nat.eq_of_testBit_eq
  intro n
  by_cases hn : n < 32
  · exact h n hn
  · exact (bit_ge a (not_lt.mp hn)).trans (bit_ge b (not_lt.mp hn)).symm

/-- The usual C test of a bit. -/
theorem and_flag_ne_zero {m : UInt32} {n : Nat} (h : n < 32) :
    m &&& flag n ≠ 0 ↔ bit m n = true := by
  constructor
  · intro hne
    by_contra hbit
    apply hne
    apply eq_of_bit
    intro k _
    by_cases hk : n = k
    · subst hk
      simp [hbit]
    · simp [bit_flag h, hk]
  · intro hbit hzero
    have hk := congrArg (fun w => bit w n) hzero
    simp [bit_flag h, hbit] at hk

/-! ### Reading and writing a mask -/

section

variable {κ σ : Type} [DecidableEq σ] (num : κ → Nat)

/-- One line of a reader: the member is added when its bit is set. -/
def readLine (m : UInt32) (set : σ → Bool) (l : κ × σ) : σ → Bool :=
  if m &&& flag (num l.1) ≠ 0 then Function.update set l.2 true else set

/-- The set that a word stands for. -/
def decode (lines : List (κ × σ)) (m : UInt32) : σ → Bool :=
  lines.foldl (readLine num m) fun _ => false

/-- One line of a writer: the bit is set when the member is in the set. -/
def writeLine (set : σ → Bool) (m : UInt32) (l : σ × κ) : UInt32 :=
  if set l.1 then m ||| flag (num l.2) else m

/-- The word that stands for a set. -/
def encode (lines : List (σ × κ)) (set : σ → Bool) : UInt32 := lines.foldl (writeLine num set) 0

variable {num}

theorem readLine_eq_true (hnum : ∀ k, num k < 32) (m : UInt32) (set : σ → Bool) (l : κ × σ)
    (x : σ) : readLine num m set l x = true ↔
      set x = true ∨ (l.2 = x ∧ bit m (num l.1) = true) := by
  by_cases hbit : bit m (num l.1) = true
  · rw [readLine, if_pos ((and_flag_ne_zero (hnum l.1)).mpr hbit), Function.update_apply]
    by_cases hx : x = l.2
    · simp [hx, hbit]
    · have hx' : l.2 ≠ x := fun h => hx h.symm
      simp [hx, hx']
  · rw [readLine, if_neg (mt (and_flag_ne_zero (hnum l.1)).mp hbit)]
    simp [hbit]

theorem foldl_readLine (hnum : ∀ k, num k < 32) (m : UInt32) (lines : List (κ × σ)) :
    ∀ (set : σ → Bool) (x : σ), lines.foldl (readLine num m) set x = true ↔
      set x = true ∨ ∃ l ∈ lines, l.2 = x ∧ bit m (num l.1) = true := by
  induction lines with
  | nil => simp
  | cons l lines ih =>
    intro set x
    rw [List.foldl_cons, ih, readLine_eq_true hnum, List.exists_mem_cons_iff, or_assoc]

/-- A member is in the decoded set when a line gives it a bit that is set. -/
theorem decode_eq_true (hnum : ∀ k, num k < 32) {m : UInt32} {lines : List (κ × σ)} {x : σ} :
    decode num lines m x = true ↔ ∃ l ∈ lines, l.2 = x ∧ bit m (num l.1) = true := by
  simp [decode, foldl_readLine hnum]

omit [DecidableEq σ] in
theorem bit_foldl_writeLine (hnum : ∀ k, num k < 32) (set : σ → Bool) (lines : List (σ × κ)) :
    ∀ (m : UInt32) (n : Nat), bit (lines.foldl (writeLine num set) m) n = true ↔
      bit m n = true ∨ ∃ l ∈ lines, num l.2 = n ∧ set l.1 = true := by
  induction lines with
  | nil => simp
  | cons l lines ih =>
    intro m n
    have hline : bit (writeLine num set m l) n = true ↔
        bit m n = true ∨ (num l.2 = n ∧ set l.1 = true) := by
      by_cases hset : set l.1 = true
      · simp [writeLine, hset, bit_flag (hnum l.2)]
      · simp [writeLine, hset]
    rw [List.foldl_cons, ih, hline, List.exists_mem_cons_iff, or_assoc]

omit [DecidableEq σ] in
/-- A bit of the encoded word is set when a line gives it to a member of the set. -/
theorem bit_encode (hnum : ∀ k, num k < 32) {set : σ → Bool} {lines : List (σ × κ)} {n : Nat} :
    bit (encode num lines set) n = true ↔ ∃ l ∈ lines, num l.2 = n ∧ set l.1 = true := by
  simp [encode, bit_foldl_writeLine hnum]

/-! ### Codecs -/

/-- Two tables that say the same, a bit for each member and a member for each bit. -/
structure Codec (num : κ → Nat) (reads : List (κ × σ)) (writes : List (σ × κ)) : Prop where
  bits : ∀ k, num k < 32
  same : ∀ k x, (k, x) ∈ reads ↔ (x, k) ∈ writes
  member : ∀ k k' x x', (k, x) ∈ reads → (k', x') ∈ reads → num k = num k' → x = x'
  bit : ∀ k k' x, (k, x) ∈ reads → (k', x) ∈ reads → k = k'

variable {reads : List (κ × σ)} {writes : List (σ × κ)}

omit [DecidableEq σ] in
/-- A table without repetitions, and the same table read from right to left. -/
theorem Codec.of_swap (hbits : ∀ k, num k < 32) (hswap : writes = reads.map Prod.swap)
    (hnum : (reads.map fun l => num l.1).Nodup) (hmember : (reads.map Prod.snd).Nodup) :
    Codec num reads writes where
  bits := hbits
  same := by
    intro k x
    rw [hswap, List.mem_map]
    constructor
    · intro h
      exact ⟨(k, x), h, rfl⟩
    · rintro ⟨⟨k', x'⟩, h, heq⟩
      cases heq
      exact h
  member := by
    intro k k' x x' h h' heq
    exact congrArg Prod.snd (List.inj_on_of_nodup_map hnum h h' heq)
  bit := by
    intro k k' x h h'
    exact congrArg Prod.fst (List.inj_on_of_nodup_map hmember h h' rfl)

/-- Decoding and encoding clears the bits that no member has. -/
theorem Codec.encode_decode (hc : Codec num reads writes) (m : UInt32) (n : Nat) :
    MaskCodec.bit (encode num writes (decode num reads m)) n = true ↔
      MaskCodec.bit m n = true ∧ ∃ l ∈ reads, num l.1 = n := by
  rw [bit_encode hc.bits]
  constructor
  · rintro ⟨⟨x, k⟩, hl, rfl, hx⟩
    obtain ⟨⟨k', x'⟩, hl', rfl, hbit⟩ := (decode_eq_true hc.bits).mp hx
    have hkx : (k, x') ∈ reads := (hc.same k x').mpr hl
    cases hc.bit k k' x' hkx hl'
    exact ⟨hbit, (k, x'), hkx, rfl⟩
  · rintro ⟨hbit, ⟨k, x⟩, hl, rfl⟩
    refine ⟨(x, k), (hc.same k x).mp hl, rfl, ?_⟩
    exact (decode_eq_true hc.bits).mpr ⟨(k, x), hl, rfl, hbit⟩

/-- Encoding and decoding drops the members that have no bit. -/
theorem Codec.decode_encode (hc : Codec num reads writes) (set : σ → Bool) (x : σ) :
    decode num reads (encode num writes set) x = true ↔
      set x = true ∧ ∃ l ∈ reads, l.2 = x := by
  rw [decode_eq_true hc.bits]
  constructor
  · rintro ⟨⟨k, x'⟩, hl, rfl, hbit⟩
    obtain ⟨⟨y, k'⟩, hl', hnum, hset⟩ := (bit_encode hc.bits).mp hbit
    have hky : (k', y) ∈ reads := (hc.same k' y).mpr hl'
    cases hc.member k' k y x' hky hl hnum
    exact ⟨hset, (k, x'), hl, rfl⟩
  · rintro ⟨hset, ⟨k, x'⟩, hl, rfl⟩
    refine ⟨(k, x'), hl, rfl, ?_⟩
    exact (bit_encode hc.bits).mpr ⟨(x', k), (hc.same k x').mp hl, rfl, hset⟩

end

end ParaTos.MaskCodec
