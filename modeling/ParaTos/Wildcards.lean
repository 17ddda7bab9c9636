/-
  ParaTos/Wildcards.lean
  ======================
  **Patterns with wildcards.**

  A pattern is a list of tokens: a character, one character whatever it is, or a run
  of any characters.  `Matches` says what it means for a text to match: it is made up
  of one part for each token.  `matchesTokens` decides that.  Nothing here names a
  particular program, and what it means for two characters to be the same is left open.
-/
import Mathlib.Data.List.Forall2
import Mathlib.Data.List.Infix

namespace ParaTos.Wildcards

variable {α : Type}

inductive Token (α : Type) where
  | run
  | one
  | char (c : α)
deriving DecidableEq, Repr

/-- The texts that one token stands for. -/
inductive Accepts (same : α → α → Bool) : Token α → List α → Prop where
  | run (s : List α) : Accepts same .run s
  | one (c : α) : Accepts same .one [c]
  | char {c d : α} (h : same c d = true) : Accepts same (.char c) [d]

/-- The text is one part for each token. -/
def Matches (same : α → α → Bool) (tokens : List (Token α)) (s : List α) : Prop :=
  ∃ parts, List.Forall₂ (Accepts same) tokens parts ∧ parts.flatten = s

/-- The search for such parts. -/
def matchesTokens (same : α → α → Bool) : List (Token α) → List α → Bool
  | [], s => s.isEmpty
  | .run :: tokens, s => s.tails.any fun t => matchesTokens same tokens t
  | .one :: tokens, s =>
    match s with
    | [] => false
    | _ :: s => matchesTokens same tokens s
  | .char c :: tokens, s =>
    match s with
    | [] => false
    | d :: s => same c d && matchesTokens same tokens s

variable {same : α → α → Bool}

theorem matches_nil {s : List α} : Matches same [] s ↔ s = [] := by
  constructor
  · rintro ⟨parts, hparts, rfl⟩
    cases hparts
    rfl
  · rintro rfl
    exact ⟨[], List.Forall₂.nil, rfl⟩

/-- The part of the first token, and the rest. -/
theorem matches_cons {token : Token α} {tokens : List (Token α)} {s : List α} :
    Matches same (token :: tokens) s ↔
      ∃ part rest, part ++ rest = s ∧ Accepts same token part ∧ Matches same tokens rest := by
  constructor
  · rintro ⟨parts, hparts, rfl⟩
    cases hparts with
    | @cons _ part _ parts htoken htokens =>
      exact ⟨part, parts.flatten, rfl, htoken, parts, htokens, rfl⟩
  · rintro ⟨part, rest, rfl, htoken, parts, htokens, rfl⟩
    exact ⟨part :: parts, List.Forall₂.cons htoken htokens, rfl⟩

theorem matchesTokens_iff {tokens : List (Token α)} {s : List α} :
    matchesTokens same tokens s = true ↔ Matches same tokens s := by
  induction tokens generalizing s with
  | nil =>
    rw [matches_nil, matchesTokens]
    exact List.isEmpty_iff
  | cons token tokens ih =>
    rw [matches_cons]
    cases token with
    | run =>
      simp only [matchesTokens, List.any_eq_true, List.mem_tails, ih]
      constructor
      · rintro ⟨t, ⟨part, rfl⟩, ht⟩
        exact ⟨part, t, rfl, Accepts.run part, ht⟩
      · rintro ⟨part, rest, rfl, -, hrest⟩
        exact ⟨rest, List.suffix_append part rest, hrest⟩
    | one =>
      cases s with
      | nil =>
        refine iff_of_false (by simp [matchesTokens]) ?_
        rintro ⟨part, rest, happend, hpart, -⟩
        cases hpart
        cases happend
      | cons c s =>
        rw [matchesTokens, ih]
        constructor
        · exact fun h => ⟨[c], s, rfl, Accepts.one c, h⟩
        · rintro ⟨part, rest, happend, hpart, hrest⟩
          cases hpart
          cases happend
          exact hrest
    | char c =>
      cases s with
      | nil =>
        refine iff_of_false (by simp [matchesTokens]) ?_
        rintro ⟨part, rest, happend, hpart, -⟩
        cases hpart
        cases happend
      | cons d s =>
        rw [matchesTokens, Bool.and_eq_true, ih]
        constructor
        · exact fun ⟨hsame, h⟩ => ⟨[d], s, rfl, Accepts.char hsame, h⟩
        · rintro ⟨part, rest, happend, hpart, hrest⟩
          cases hpart with
          | char hsame =>
            cases happend
            exact ⟨hsame, hrest⟩

instance (tokens : List (Token α)) (s : List α) : Decidable (Matches same tokens s) :=
  decidable_of_iff _ matchesTokens_iff

/-- A run alone matches everything. -/
theorem matches_run (s : List α) : Matches same [.run] s :=
  matches_cons.mpr ⟨s, [], List.append_nil s, Accepts.run s, matches_nil.mpr rfl⟩

end ParaTos.Wildcards
