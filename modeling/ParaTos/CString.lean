/-
  ParaTos/CString.lean
  ====================
  **C strings in host blocks.**

  A string is the list of its bytes, without the terminating NUL.  A block that
  host `malloc` hands out is a list of bytes too, of the size that was asked for;
  `memcpy` into it and a store to one byte are `overwrite`, which faults when they
  leave the block, and reading a string out of it is `cstr`, which faults when the
  block holds no NUL.

  `strcasecmp` compares in the C locale, where only the ASCII letters have a case.
-/
import ParaTos.Run
import Mathlib.Data.List.Basic

namespace ParaTos.CString

/-- The bytes of a string constant of the source. -/
def ascii (s : String) : List UInt8 := s.toList.map Char.toUInt8

/-! ### Case -/

/-- `toupper` and `tolower` of the C locale. -/
def toupper (c : UInt8) : UInt8 := if 97 ≤ c ∧ c ≤ 122 then c - 32 else c
def tolower (c : UInt8) : UInt8 := if 65 ≤ c ∧ c ≤ 90 then c + 32 else c

/-- A property of all bytes, checked one by one. -/
theorem forall_byte {P : UInt8 → Prop} (h : ∀ n < 256, P (UInt8.ofNat n)) (c : UInt8) : P c := by
  have hc := h c.toNat c.toNat_lt
  rwa [UInt8.ofNat_toNat] at hc

@[simp] theorem tolower_toupper (c : UInt8) : tolower (toupper c) = tolower c := by
  revert c
  apply forall_byte
  decide +kernel

/-- Upper and lower case agree on everything that is not a letter. -/
theorem tolower_eq_iff {c d : UInt8} (hd : ¬ (65 ≤ d ∧ d ≤ 90)) (hd' : ¬ (97 ≤ d ∧ d ≤ 122)) :
    tolower c = d ↔ c = d := by
  constructor
  · intro h
    rw [tolower] at h
    split at h
    · rename_i hc
      rw [UInt8.le_iff_toNat_le, UInt8.le_iff_toNat_le] at hc hd'
      have hsum : d.toNat = c.toNat + 32 := by
        rw [← h, UInt8.toNat_add]
        simp at hc ⊢
        omega
      simp at hc hd'
      omega
    · exact h
  · rintro rfl
    rw [tolower, if_neg hd]

/-- `strcasecmp(a, b) == 0`. -/
def CaseEq (a b : List UInt8) : Prop := a.map tolower = b.map tolower

instance (a b : List UInt8) : Decidable (CaseEq a b) := inferInstanceAs (Decidable (_ = _))

theorem CaseEq.refl (a : List UInt8) : CaseEq a a := rfl

theorem CaseEq.symm {a b : List UInt8} (h : CaseEq a b) : CaseEq b a := Eq.symm h

theorem CaseEq.trans {a b c : List UInt8} (h : CaseEq a b) (h' : CaseEq b c) : CaseEq a c :=
  Eq.trans h h'

theorem CaseEq.length_eq {a b : List UInt8} (h : CaseEq a b) : a.length = b.length := by
  simpa using congrArg List.length h

/-! ### Blocks -/

/-- The string at the start of a block. -/
def cstr : List UInt8 → Run (List UInt8)
  | [] => Except.error .overrun
  | c :: block => if c = 0 then Except.ok [] else do
    let rest ← cstr block
    return c :: rest

theorem cstr_append {s : List UInt8} (hs : 0 ∉ s) (rest : List UInt8) :
    cstr (s ++ 0 :: rest) = Except.ok s := by
  induction s with
  | nil => rfl
  | cons c s ih =>
    simp only [List.mem_cons, not_or] at hs
    have hc : c ≠ 0 := fun h => hs.1 h.symm
    simp [cstr, hc, ih hs.2]

/-- `memcpy` of `src` to offset `o` of a block. -/
def overwrite (block : List UInt8) (o : Nat) (src : List UInt8) : Run (List UInt8) :=
  if o + src.length ≤ block.length then
    Except.ok (block.take o ++ src ++ block.drop (o + src.length))
  else Except.error .overrun

theorem overwrite_append (a : List UInt8) {b src : List UInt8} (h : b.length = src.length)
    (c : List UInt8) : overwrite (a ++ b ++ c) a.length src = Except.ok (a ++ src ++ c) := by
  have hlen : a.length + src.length ≤ (a ++ b ++ c).length := by
    simp only [List.length_append]
    omega
  rw [overwrite, if_pos hlen]
  congr 1
  have hdrop : (a ++ b ++ c).drop (a.length + src.length) = c := by
    rw [← h, ← List.length_append, List.drop_left]
  rw [hdrop, List.append_assoc a b c, List.take_left]

/-- A block with room for `n` bytes and a NUL from offset `o` on. -/
theorem exists_cut {block : List UInt8} {o n : Nat} (h : o + n < block.length) :
    ∃ a b x c, block = a ++ b ++ [x] ++ c ∧ a.length = o ∧ b.length = n := by
  have hdrop : (block.drop o).length = block.length - o := List.length_drop
  have hlt : n < (block.drop o).length := by omega
  refine ⟨block.take o, (block.drop o).take n, (block.drop o)[n], (block.drop o).drop (n + 1),
    ?_, ?_, ?_⟩
  · rw [List.append_assoc, List.append_assoc, List.singleton_append, List.getElem_cons_drop,
      List.take_append_drop, List.take_append_drop]
  · rw [List.length_take]
    omega
  · rw [List.length_take]
    omega

/-- A string, and the NUL behind it. -/
theorem overwrite_string (a : List UInt8) {b src : List UInt8} (h : b.length = src.length)
    (x : UInt8) (c : List UInt8) :
    (overwrite (a ++ b ++ [x] ++ c) a.length src >>= fun block =>
      overwrite block (a.length + src.length) [0]) = Except.ok (a ++ src ++ 0 :: c) := by
  have hcopy : overwrite (a ++ b ++ [x] ++ c) a.length src =
      Except.ok (a ++ src ++ [x] ++ c) := by
    have h := overwrite_append a h ([x] ++ c)
    simpa using h
  have hnul : overwrite (a ++ src ++ [x] ++ c) (a.length + src.length) [0] =
      Except.ok (a ++ src ++ 0 :: c) := by
    have h := @overwrite_append (a ++ src) [x] [0] rfl c
    rw [List.length_append] at h
    simpa using h
  rw [hcopy, Run.ok_bind, hnul]

/-- A string that does not fit with its NUL is a fault. -/
theorem overwrite_overrun {block src : List UInt8} {o : Nat}
    (h : ¬ o + src.length < block.length) :
    (overwrite block o src >>= fun block => overwrite block (o + src.length) [0]) =
      Except.error .overrun := by
  by_cases hfits : o + src.length ≤ block.length
  · have hlen : (block.take o ++ src ++ block.drop (o + src.length)).length = block.length := by
      simp only [List.length_append, List.length_take, List.length_drop]
      omega
    have hnul : ¬ o + src.length + [(0 : UInt8)].length ≤ block.length := by
      rw [List.length_singleton]
      omega
    rw [overwrite, if_pos hfits, Run.ok_bind, overwrite, hlen, if_neg hnul]
  · rw [overwrite, if_neg hfits]
    rfl

/-! ### Lists of strings -/

/-- Strings one after the other, each with its NUL. -/
def pack (ss : List (List UInt8)) : List UInt8 := ss.flatMap fun s => s ++ [0]

@[simp] theorem pack_nil : pack [] = [] := rfl

theorem pack_cons (s : List UInt8) (ss : List (List UInt8)) :
    pack (s :: ss) = s ++ [0] ++ pack ss := rfl

theorem length_pack_cons (s : List UInt8) (ss : List (List UInt8)) :
    (pack (s :: ss)).length = s.length + 1 + (pack ss).length := by
  rw [pack_cons, List.length_append, List.length_append, List.length_singleton]

theorem pack_append (ss ss' : List (List UInt8)) : pack (ss ++ ss') = pack ss ++ pack ss' :=
  List.flatMap_append

end ParaTos.CString
