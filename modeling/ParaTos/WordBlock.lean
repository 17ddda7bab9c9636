/-
  ParaTos/WordBlock.lean
  ======================
  **Host blocks that hold words and characters.**

  A program that puts an array of pointers and the strings they point to into one
  block of host `malloc` works out by hand where the array ends.  Here a block is
  what it is to the machine, a number of bytes, each of them a character or one of
  the eight bytes of a word.  A word that a character was written into can no longer
  be read.  A store outside the block is a fault, and a block keeps a record of its
  stores.

  `Spells` says that a block is made of words in front and text behind them; stores
  to either part have the effect they have on the lists.
-/
import ParaTos.Run
import Mathlib.Data.List.Basic

namespace ParaTos.WordBlock

variable {W : Type}

/-- `sizeof(char*)` -/
def wordSize : Nat := 8

/-- A byte of a block: never written, a character, or the `k`-th byte of a word. -/
inductive HostByte (W : Type) where
  | junk
  | char (c : UInt8)
  | part (w : W) (k : Nat)
deriving DecidableEq, Repr

/-- A store of a word or of a character. -/
inductive Store (W : Type) where
  | word (offset : Nat) (w : W)
  | char (offset : Nat) (c : UInt8)
deriving DecidableEq, Repr

def Store.offset : Store W → Nat
  | .word o _ => o
  | .char o _ => o

def Store.length : Store W → Nat
  | .word _ _ => wordSize
  | .char _ _ => 1

/-- The `k`-th byte of what is stored. -/
def Store.byte : Store W → Nat → HostByte W
  | .word _ w, k => .part w k
  | .char _ c, _ => .char c

/-- A store of a word: where, and which. -/
def Store.word? : Store W → Option (Nat × W)
  | .word o w => some (o, w)
  | .char .. => none

/-- A store of a character. -/
def Store.char? : Store W → Option (Nat × UInt8)
  | .word .. => none
  | .char o c => some (o, c)

/-- Words go in front of an offset, characters behind it, and nothing behind the block. -/
def Store.Keeps (front size : Nat) : Store W → Prop
  | .word o _ => o + wordSize ≤ front
  | .char o _ => front ≤ o ∧ o < size

/-- A block, with the stores made to it so far. -/
structure HostBlock (W : Type) where
  size : Nat
  bytes : Nat → HostByte W
  stores : List (Store W)

/-- `malloc(size)` -/
def HostBlock.malloc (size : Nat) : HostBlock W := ⟨size, fun _ => .junk, []⟩

/-- `realloc(b, size)` -/
def HostBlock.realloc (b : HostBlock W) (size : Nat) : HostBlock W :=
  { b with
    size
    bytes := fun o => if o < b.size ∧ o < size then b.bytes o else .junk }

/-- The block after a store. -/
def HostBlock.after (b : HostBlock W) (s : Store W) : HostBlock W :=
  { b with
    bytes := fun o =>
      if s.offset ≤ o ∧ o < s.offset + s.length then s.byte (o - s.offset) else b.bytes o
    stores := b.stores ++ [s] }

/-- A store to the block. -/
def HostBlock.store (b : HostBlock W) (s : Store W) : Run (HostBlock W) :=
  if s.offset + s.length ≤ b.size then Except.ok (b.after s) else Except.error .overrun

/-- The word at an offset, if its eight bytes are those of one word. -/
def HostBlock.load [DecidableEq W] (b : HostBlock W) (offset : Nat) : Run (Option W) :=
  if offset + wordSize ≤ b.size then
    match b.bytes offset with
    | .part w 0 =>
      Except.ok (if ∀ k < wordSize, b.bytes (offset + k) = .part w k then some w else none)
    | _ => Except.ok none
  else Except.error .overrun

theorem HostBlock.after_inside (b : HostBlock W) (s : Store W) {o : Nat} (hlo : s.offset ≤ o)
    (hhi : o < s.offset + s.length) : (b.after s).bytes o = s.byte (o - s.offset) :=
  if_pos ⟨hlo, hhi⟩

theorem HostBlock.after_outside (b : HostBlock W) (s : Store W) {o : Nat}
    (h : ¬ (s.offset ≤ o ∧ o < s.offset + s.length)) : (b.after s).bytes o = b.bytes o :=
  if_neg h

/-! ### Words in front, text behind -/

/-- The `k`-th byte of a word that may never have been written. -/
def wordByte : Option W → Nat → HostByte W
  | some w, k => .part w k
  | none, _ => .junk

def charByte : Option UInt8 → HostByte W
  | some c => .char c
  | none => .junk

/-- A byte of such a block. -/
def spelledByte (words : List (Option W)) (text : List UInt8) (o : Nat) : HostByte W :=
  if o < wordSize * words.length then wordByte words[o / wordSize]?.join (o % wordSize)
  else charByte text[o - wordSize * words.length]?

/-- The block holds the words, and behind them `room` bytes that begin with the text, and
    no store to it has mixed the two. -/
structure Spells (b : HostBlock W) (words : List (Option W)) (text : List UInt8) (room : Nat) :
    Prop where
  size : b.size = wordSize * words.length + room
  bytes : ∀ o, b.bytes o = spelledByte words text o
  stores : ∀ s ∈ b.stores, s.Keeps (wordSize * words.length) b.size

section Spells

variable {b : HostBlock W} {words : List (Option W)} {text : List UInt8} {room : Nat}

theorem spelledByte_word {i k : Nat} {w : Option W} (hi : words[i]? = some w) (hk : k < wordSize) :
    spelledByte words text (wordSize * i + k) = wordByte w k := by
  have hlt : i < words.length := (List.getElem?_eq_some_iff.mp hi).1
  have hdiv : (wordSize * i + k) / wordSize = i := by
    rw [Nat.mul_add_div (by decide), Nat.div_eq_of_lt hk, Nat.add_zero]
  have hmod : (wordSize * i + k) % wordSize = k := by
    rw [Nat.mul_add_mod, Nat.mod_eq_of_lt hk]
  have hin : wordSize * i + k < wordSize * words.length := by
    simp only [wordSize] at hk ⊢
    omega
  rw [spelledByte, if_pos hin, hdiv, hmod, hi]
  rfl

theorem spelledByte_text (j : Nat) :
    spelledByte words text (wordSize * words.length + j) = charByte text[j]? := by
  rw [spelledByte, if_neg (by omega), Nat.add_sub_cancel_left]

theorem Spells.malloc (n : Nat) :
    Spells (HostBlock.malloc (wordSize * n) : HostBlock W) (List.replicate n none) [] 0 where
  size := by simp [HostBlock.malloc]
  bytes := by
    intro o
    rw [spelledByte, List.getElem?_replicate]
    split
    · split <;> rfl
    · rfl
  stores := by
    intro s hs
    cases hs

theorem Spells.load [DecidableEq W] (h : Spells b words text room) {i : Nat} {w : Option W}
    (hi : words[i]? = some w) : b.load (wordSize * i) = Except.ok w := by
  have hlt : i < words.length := (List.getElem?_eq_some_iff.mp hi).1
  have hin : wordSize * i + wordSize ≤ b.size := by
    rw [h.size]
    simp only [wordSize]
    omega
  have hbyte : ∀ k < wordSize, b.bytes (wordSize * i + k) = wordByte w k := by
    intro k hk
    rw [h.bytes]
    exact spelledByte_word hi hk
  have hfirst : b.bytes (wordSize * i) = wordByte w 0 := hbyte 0 (by decide)
  rw [HostBlock.load, if_pos hin, hfirst]
  cases w with
  | none => rfl
  | some w => exact congrArg Except.ok (if_pos hbyte)

/-- A word stored where a word belongs. -/
theorem Spells.store_word (h : Spells b words text room) {i : Nat} (hi : i < words.length)
    (w : W) : ∃ b', b.store (.word (wordSize * i) w) = Except.ok b' ∧
      Spells b' (words.set i (some w)) text room ∧
      b'.stores = b.stores ++ [.word (wordSize * i) w] := by
  have hin : wordSize * i + wordSize ≤ b.size := by
    rw [h.size]
    simp only [wordSize]
    omega
  refine ⟨b.after (.word (wordSize * i) w), if_pos hin, ⟨?_, ?_, ?_⟩, rfl⟩
  · rw [List.length_set]
    exact h.size
  · intro o
    by_cases ho : wordSize * i ≤ o ∧ o < wordSize * i + wordSize
    · obtain ⟨k, rfl⟩ := Nat.exists_eq_add_of_le ho.1
      have hset : (words.set i (some w))[i]? = some (some w) := List.getElem?_set_self hi
      have hbyte := b.after_inside (.word (wordSize * i) w) ho.1 ho.2
      rw [hbyte, spelledByte_word hset (by omega)]
      exact congrArg (HostByte.part w) (Nat.add_sub_cancel_left _ _)
    · have hother : i ≠ o / wordSize := by
        rintro rfl
        have hdiv := Nat.div_add_mod o wordSize
        have hmod := Nat.mod_lt o (show 0 < wordSize by decide)
        omega
      rw [b.after_outside (.word (wordSize * i) w) ho, h.bytes, spelledByte, spelledByte,
        List.length_set, List.getElem?_set_ne hother]
  · intro s hs
    rw [List.length_set]
    rcases List.mem_append.mp hs with hs | hs
    · exact h.stores s hs
    · rw [List.mem_singleton.mp hs]
      simp only [Store.Keeps, wordSize]
      omega

/-- A character stored behind the text. -/
theorem Spells.store_char (h : Spells b words text room) (hroom : text.length < room)
    (c : UInt8) : ∃ b', b.store (.char (wordSize * words.length + text.length) c) =
        Except.ok b' ∧ Spells b' words (text ++ [c]) room ∧
      b'.stores = b.stores ++ [.char (wordSize * words.length + text.length) c] := by
  have hin : wordSize * words.length + text.length + 1 ≤ b.size := by
    rw [h.size]
    omega
  refine ⟨b.after (.char (wordSize * words.length + text.length) c), if_pos hin,
    ⟨h.size, ?_, ?_⟩, rfl⟩
  · intro o
    by_cases ho : o = wordSize * words.length + text.length
    · have hbyte := b.after_inside (.char (wordSize * words.length + text.length) c)
        (Nat.le_of_eq ho.symm) (Nat.lt_succ_of_le (Nat.le_of_eq ho))
      rw [hbyte, ho, spelledByte_text, List.getElem?_concat_length]
      rfl
    · have hout : ¬ (wordSize * words.length + text.length ≤ o ∧
          o < wordSize * words.length + text.length + 1) := by omega
      rw [b.after_outside (.char _ c) hout, h.bytes, spelledByte, spelledByte]
      split
      · rfl
      · by_cases hlt : o - wordSize * words.length < text.length
        · rw [List.getElem?_append_left hlt]
        · have hlen : (text ++ [c]).length ≤ o - wordSize * words.length := by
            rw [List.length_append, List.length_singleton]
            omega
          rw [List.getElem?_eq_none (by omega), List.getElem?_eq_none hlen]
  · intro s hs
    rcases List.mem_append.mp hs with hs | hs
    · exact h.stores s hs
    · rw [List.mem_singleton.mp hs]
      exact ⟨Nat.le_add_right _ _, hin⟩

/-- A block of words that grows, by words and room behind them. -/
theorem Spells.realloc (h : Spells b words [] 0) (more room : Nat) :
    Spells (b.realloc (wordSize * (words.length + more) + room))
      (words ++ List.replicate more none) [] room := by
  have hsize := h.size
  constructor
  · rw [List.length_append, List.length_replicate]
    rfl
  · intro o
    simp only [HostBlock.realloc]
    rw [h.bytes, spelledByte, spelledByte, List.length_append, List.length_replicate]
    by_cases hold : o < wordSize * words.length
    · have hdiv : o / wordSize < words.length :=
        Nat.div_lt_of_lt_mul (by rw [Nat.mul_comm] at hold; rw [Nat.mul_comm]; exact hold)
      have hnew : o < wordSize * (words.length + more) := by
        rw [Nat.mul_add]
        omega
      rw [if_pos ⟨by omega, by omega⟩, if_pos hold, if_pos hnew, List.getElem?_append_left hdiv]
    · rw [if_neg (by omega)]
      split
      · have hdiv : words.length ≤ o / wordSize := by
          rw [Nat.le_div_iff_mul_le (by decide), Nat.mul_comm]
          omega
        rw [List.getElem?_append_right hdiv, List.getElem?_replicate]
        split <;> rfl
      · rfl
  · intro s hs
    have hold := h.stores s hs
    rw [List.length_append, List.length_replicate, Nat.mul_add]
    cases s with
    | word o w => exact Nat.le_trans hold (Nat.le_add_right _ _)
    | char o c =>
      obtain ⟨hlo, hhi⟩ := hold
      omega

end Spells

end ParaTos.WordBlock
