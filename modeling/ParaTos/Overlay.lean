/-
  ParaTos/Overlay.lean
  ====================
  **Rows laid over a table, one after the other.**

  A row covers some keys and has one value for all of them; a later row hides an
  earlier one.  When the rows come in order, what is found under a key is the value of
  a greatest row that covers it (`overlay_of_pairwise`).  Nothing here names a
  particular program.
-/
import Mathlib.Logic.Function.Basic

namespace ParaTos.Overlay

variable {κ α ρ : Type}

/-- One value under every key of a list. -/
def setAll [DecidableEq κ] (keys : List κ) (v : α) (table : κ → α) : κ → α :=
  keys.foldl (fun table k => Function.update table k v) table

theorem setAll_apply [DecidableEq κ] (keys : List κ) (v : α) (table : κ → α) (k : κ) :
    setAll keys v table k = if k ∈ keys then v else table k := by
  induction keys generalizing table with
  | nil => rfl
  | cons key keys ih =>
    have hcons : setAll (key :: keys) v table = setAll keys v (Function.update table key v) := rfl
    rw [hcons, ih]
    by_cases hkey : k = key
    · subst hkey
      simp
    · simp [hkey]

variable (covers : ρ → κ → Prop) [∀ r k, Decidable (covers r k)] (value : ρ → α)

def lay (row : ρ) (table : κ → α) (k : κ) : α := if covers row k then value row else table k

def overlay (rows : List ρ) (table : κ → α) : κ → α :=
  rows.foldl (fun table row => lay covers value row table) table

variable {covers value}

theorem overlay_append (front back : List ρ) (table : κ → α) :
    overlay covers value (front ++ back) table =
      overlay covers value back (overlay covers value front table) :=
  List.foldl_append

/-- Under a key is the value of the last row that covers it. -/
theorem overlay_of_pairwise {before : ρ → ρ → Prop} (hrefl : ∀ row, before row row)
    {rows : List ρ} (hrows : rows.Pairwise before) (table : κ → α) (k : κ) :
    (overlay covers value rows table k = table k ∧ ∀ row ∈ rows, ¬covers row k) ∨
      ∃ row ∈ rows, overlay covers value rows table k = value row ∧ covers row k ∧
        ∀ other ∈ rows, covers other k → before other row := by
  induction rows generalizing table with
  | nil => exact .inl ⟨rfl, by simp⟩
  | cons first rows ih =>
    obtain ⟨hfirst, hrest⟩ := List.pairwise_cons.mp hrows
    rcases ih hrest (lay covers value first table) with ⟨hval, hnone⟩ | ⟨row, hmem, hval, hrow, hlast⟩
    · by_cases hcov : covers first k
      · refine .inr ⟨first, by simp, hval.trans (if_pos hcov), hcov, ?_⟩
        intro other hother hk
        rcases List.mem_cons.mp hother with rfl | hother
        · exact hrefl other
        · exact absurd hk (hnone other hother)
      · refine .inl ⟨hval.trans (if_neg hcov), ?_⟩
        intro other hother
        rcases List.mem_cons.mp hother with rfl | hother
        · exact hcov
        · exact hnone other hother
    · refine .inr ⟨row, by simp [hmem], hval, hrow, ?_⟩
      intro other hother hk
      rcases List.mem_cons.mp hother with rfl | hother
      · exact hfirst row hmem
      · exact hlast other hother hk

/-- A list in order of rank, cut above a rank. -/
theorem exists_cut {rank : ρ → Nat} {rows : List ρ}
    (hrows : rows.Pairwise (fun a b => rank a ≤ rank b)) (n : Nat) :
    ∃ front back, rows = front ++ back ∧ (∀ row ∈ front, rank row ≤ n) ∧
      ∀ row ∈ back, n < rank row := by
  induction rows with
  | nil => exact ⟨[], [], rfl, by simp, by simp⟩
  | cons first rows ih =>
    obtain ⟨hfirst, hrest⟩ := List.pairwise_cons.mp hrows
    by_cases hle : rank first ≤ n
    · obtain ⟨front, back, rfl, hfront, hback⟩ := ih hrest
      refine ⟨first :: front, back, rfl, ?_, hback⟩
      simpa [hle] using hfront
    · have hlt : n < rank first := Nat.lt_of_not_le hle
      refine ⟨[], first :: rows, rfl, by simp, ?_⟩
      intro row hrow
      rcases List.mem_cons.mp hrow with rfl | hrow
      · exact hlt
      · exact Nat.lt_of_lt_of_le hlt (hfirst row hrow)

end ParaTos.Overlay
