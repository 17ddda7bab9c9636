/-
  ParaTos/Quoting.lean
  ====================
  **The quoting of command tails.**

  The states of `parse_cmdline` aim at a grammar: blanks separate arguments,
  everything between two matching quotes belongs to the argument, and a doubled
  quote between them stands for one.  `quoteArgs` is that grammar, on the
  characters up to the first NUL.

  The code drops what stands between quotes, drops the character behind a doubled
  quote, and looks for the second half of a doubled quote behind the end of the
  tail.  What is left are tails whose quotes hold nothing.
-/
import Mathlib.Algebra.GroupWithZero.Nat
import ParaTos.CommandLine

namespace ParaTos.CommandLine

open Bytes Memory CString

/-! ### The grammar -/

/-- The arguments of a text, `cur` being what the current one has so far. -/
def quoteArgs : State → List UInt8 → List UInt8 → List (List UInt8)
  | .bl, _, [] => []
  | .bl, _, c :: t => if isBlank c then quoteArgs .bl [] t else quoteArgs .char [] (c :: t)
  | .char, cur, [] => [cur]
  | .char, cur, c :: t =>
    if isBlank c then cur :: quoteArgs .bl [] t
    else if c = Quote.dq.mark then quoteArgs (.quoted .dq) cur t
    else if c = Quote.sq.mark then quoteArgs (.quoted .sq) cur t
    else quoteArgs .char (cur ++ [c]) t
  | .quoted _, cur, [] => [cur]
  | .quoted q, cur, c :: t =>
    if c ≠ q.mark then quoteArgs (.quoted q) (cur ++ [c]) t
    else if t.head? = some q.mark then quoteArgs (.quoted q) (cur ++ [q.mark]) (t.drop 1)
    else quoteArgs .char cur t
termination_by state _ text => 2 * text.length + if state = .bl then 1 else 0
decreasing_by all_goals simp; try omega

/-- The first `n` bytes of a tail with length byte `n`. -/
def tailOf (cmdline : UInt32) (m : Memory) : List UInt8 :=
  (List.range (m cmdline.toNat).toNat).map fun i => m (cmdline.toNat + 1 + i)

/-- The characters in front of the first NUL. -/
def textOf (tail : List UInt8) : List UInt8 := tail.takeWhile (· ≠ 0)

/-- `parse_cmdline` finds the arguments of the grammar. -/
def ParsesRight (cmdline : UInt32) (m : Memory) : Prop :=
  ∃ p, parseCmdline cmdline m = Except.ok p ∧
    p.args = Except.ok (quoteArgs .bl [] (textOf (tailOf cmdline m)))

/-! ### Tails that the code reads right -/

/-- The state behind a character outside quotes. -/
def unquoted (c : UInt8) : State :=
  if isBlank c then .bl
  else if c = Quote.dq.mark then .quoted .dq
  else if c = Quote.sq.mark then .quoted .sq
  else .char

/-- What may stand behind a doubled quote: the end of the tail, or the quote that closes
    and the end of the text. -/
def Spent (q : Quote) (t : List UInt8) : Prop :=
  t = [] ∨ t = [0] ∨ t.head? = some q.mark ∧ (t.drop 1).headD 0 = 0

instance (q : Quote) (t : List UInt8) : Decidable (Spent q t) :=
  inferInstanceAs (Decidable (_ ∨ _ ∨ _ ∧ _))

/-- Quotes hold nothing, a doubled quote ends the text, and a quote that closes is not the
    last byte of the tail. -/
def PlainTail : State → List UInt8 → Prop
  | _, [] => True
  | .quoted q, c :: t => c = 0 ∨ c = q.mark ∧
      (t.headD q.mark ≠ q.mark ∧ PlainTail .char t ∨ t.head? = some q.mark ∧ Spent q (t.drop 1))
  | _, c :: t => c = 0 ∨ PlainTail (unquoted c) t

/-- No quote is doubled. -/
def SingleQuotes : State → List UInt8 → Prop
  | _, [] => True
  | .quoted q, c :: t => c = 0 ∨
      if c = q.mark then t.head? ≠ some q.mark ∧ SingleQuotes .char t
      else SingleQuotes (.quoted q) t
  | _, c :: t => c = 0 ∨ SingleQuotes (unquoted c) t

instance PlainTail.decidable : (state : State) → (t : List UInt8) → Decidable (PlainTail state t)
  | .bl, [] | .char, [] | .quoted _, [] => isTrue (by simp [PlainTail])
  | .quoted q, c :: t =>
    have := PlainTail.decidable .char t
    inferInstanceAs (Decidable (_ ∨ _ ∧ (_ ∧ _ ∨ _ ∧ _)))
  | .bl, c :: t | .char, c :: t =>
    have := PlainTail.decidable (unquoted c) t
    inferInstanceAs (Decidable (_ ∨ _))

theorem unquoted_blank {c : UInt8} (h : isBlank c = true) : unquoted c = .bl := by
  rw [unquoted, if_pos h]

theorem unquoted_mark (q : Quote) : unquoted q.mark = .quoted q := by
  cases q <;> decide

theorem unquoted_char {c : UInt8} (hblank : ¬ isBlank c = true) (hdq : c ≠ Quote.dq.mark)
    (hsq : c ≠ Quote.sq.mark) : unquoted c = .char := by
  rw [unquoted, if_neg hblank, if_neg hdq, if_neg hsq]

/-- The text of a tail, one character at a time. -/
theorem textOf_cons {c : UInt8} (hc : c ≠ 0) (t : List UInt8) : textOf (c :: t) = c :: textOf t := by
  simp [textOf, hc]

theorem textOf_zero (t : List UInt8) : textOf (0 :: t) = [] := rfl

theorem head?_textOf {t : List UInt8} {c : UInt8} (hc : c ≠ 0) :
    (textOf t).head? = some c ↔ t.head? = some c := by
  cases t with
  | nil => simp [textOf]
  | cons d t =>
    by_cases hd : d = 0
    · subst hd
      simp [textOf_zero, Ne.symm hc]
    · simp [textOf_cons hd]

theorem quoteArgs_nil (state : State) (cur : List UInt8) :
    quoteArgs state cur [] = ended state cur := by
  cases state <;> rw [quoteArgs, ended] <;> simp

/-- A scanner that meets the end, or a NUL, is done. -/
theorem scanTail_over {behind : UInt8} {state : State} {cur t : List UInt8}
    (h : t.headD 0 = 0) : scanTail behind state cur t = ended state cur := by
  cases t with
  | nil => rw [scanTail]
  | cons c t =>
    have hc : c = 0 := h
    rw [scanTail.eq_def]
    simp only [if_pos hc]

theorem textOf_over {t : List UInt8} (h : t.headD 0 = 0) : textOf t = [] := by
  cases t with
  | nil => rfl
  | cons c t =>
    have hc : c = 0 := h
    rw [hc, textOf_zero]

section Doubled

variable {behind : UInt8} {q : Quote} {cur t : List UInt8}

/-- Behind such a doubled quote, the code skips at most the quote that closes ... -/
theorem Spent.scan (h : Spent q t) : scanTail behind (.quoted q) cur (t.drop 1) = [cur] := by
  rcases h with rfl | rfl | ⟨hhead, hover⟩
  · exact scanTail_over rfl
  · exact scanTail_over rfl
  · exact scanTail_over hover

/-- ... and the grammar has at most that quote to read. -/
theorem Spent.grammar (h : Spent q t) : quoteArgs (.quoted q) cur (textOf t) = [cur] := by
  rcases h with rfl | rfl | ⟨hhead, hover⟩
  · exact quoteArgs_nil _ _
  · exact quoteArgs_nil _ _
  · obtain ⟨t', rfl⟩ := List.head?_eq_some_iff.mp hhead
    have hrest : textOf t' = [] := textOf_over hover
    rw [textOf_cons q.mark_ne_zero, hrest, quoteArgs, if_neg (not_not_intro rfl)]
    simp [quoteArgs]

end Doubled

/-- **A plain tail is read as the grammar reads it**, whatever byte is behind it. -/
theorem scanTail_plain {behind : UInt8} {state : State} {cur t : List UInt8}
    (h : PlainTail state t) : scanTail behind state cur t = quoteArgs state cur (textOf t) := by
  fun_induction scanTail behind state cur t with
  | case1 state cur => exact (quoteArgs_nil state cur).symm
  | case2 state cur t => exact (quoteArgs_nil state cur).symm
  | case3 cur c t hnul hblank ih =>
    have htail : PlainTail (unquoted c) t := h.resolve_left hnul
    rw [unquoted_blank hblank] at htail
    rw [textOf_cons hnul, quoteArgs, if_pos hblank]
    exact ih htail
  | case4 cur c t hnul hblank ih =>
    rw [ih h, textOf_cons hnul]
    conv_rhs => rw [quoteArgs, if_neg hblank]
  | case5 cur c t hnul hblank ih =>
    have htail : PlainTail (unquoted c) t := h.resolve_left hnul
    rw [unquoted_blank hblank] at htail
    rw [textOf_cons hnul, quoteArgs, if_pos hblank, ih htail]
  | case6 cur t hnul hblank ih =>
    have htail : PlainTail (unquoted Quote.dq.mark) t := h.resolve_left hnul
    rw [textOf_cons hnul, quoteArgs, if_neg hblank, if_pos rfl]
    exact ih htail
  | case7 cur t hnul hblank hdq ih =>
    have htail : PlainTail (unquoted Quote.sq.mark) t := h.resolve_left hnul
    rw [textOf_cons hnul, quoteArgs, if_neg hblank, if_neg hdq, if_pos rfl]
    exact ih htail
  | case8 cur c t hnul hblank hdq hsq ih =>
    have htail : PlainTail (unquoted c) t := h.resolve_left hnul
    rw [unquoted_char hblank hdq hsq] at htail
    rw [textOf_cons hnul, quoteArgs, if_neg hblank, if_neg hdq, if_neg hsq]
    exact ih htail
  | case9 cur t q hnext hnul ih =>
    have hsingle : ¬ t.head? = some q.mark := by
      intro hhead
      rw [List.headD_eq_head?_getD, hhead] at hnext
      exact hnext rfl
    obtain ⟨-, htail⟩ | ⟨hhead, -⟩ := (h.resolve_left hnul).2
    · rw [textOf_cons hnul, quoteArgs, if_neg (not_not_intro rfl),
        if_neg (mt (head?_textOf hnul).mp hsingle)]
      exact ih htail
    · exact absurd hhead hsingle
  | case10 cur t q hnext hnul ih =>
    obtain ⟨hsingle, -⟩ | ⟨hhead, hspent⟩ := (h.resolve_left hnul).2
    · cases t with
      | nil => exact absurd rfl hsingle
      | cons c t => exact absurd hsingle hnext
    · obtain ⟨t', rfl⟩ := List.head?_eq_some_iff.mp hhead
      have hspent' : Spent q t' := hspent
      rw [textOf_cons hnul, textOf_cons hnul, quoteArgs, if_neg (not_not_intro rfl),
        if_pos List.head?_cons, List.drop_one, List.tail_cons, hspent'.grammar]
      exact hspent'.scan
  | case11 cur c t hnul q hmark ih => exact absurd (h.resolve_left hnul).1 hmark

/-! ### Tails without doubled quotes -/

/-- How many characters stand between the quotes of such a tail. -/
def lost : State → List UInt8 → Nat
  | _, [] => 0
  | .quoted q, c :: t =>
    if c = 0 then 0 else if c = q.mark then lost .char t else lost (.quoted q) t + 1
  | _, c :: t => if c = 0 then 0 else lost (unquoted c) t

/-- How many quotes the code makes up, taking the byte behind the tail for the second
    half of a doubled one. -/
def madeUp (behind : UInt8) : State → List UInt8 → Nat
  | _, [] => 0
  | .quoted q, c :: t =>
    if c = 0 then 0
    else if c = q.mark then
      if t = [] then (if behind = q.mark then 1 else 0) else madeUp behind .char t
    else madeUp behind (.quoted q) t
  | _, c :: t => if c = 0 then 0 else madeUp behind (unquoted c) t

/-- The characters of all arguments. -/
def total (args : List (List UInt8)) : Nat := (args.map List.length).sum

/-- What the current argument adds to them. -/
def weight : State → List UInt8 → Nat
  | .bl, _ => 0
  | _, cur => cur.length

theorem total_ended (state : State) (cur : List UInt8) :
    total (ended state cur) = weight state cur := by
  cases state <;> simp [total, ended, weight]

theorem total_cons (arg : List UInt8) (args : List (List UInt8)) :
    total (arg :: args) = arg.length + total args := rfl

/-- At the end of the text nothing is lost or made up. -/
theorem lost_over {state : State} {t : List UInt8} (h : t.headD 0 = 0) : lost state t = 0 := by
  cases t with
  | nil => cases state <;> rfl
  | cons c t => cases state <;> exact if_pos h

theorem madeUp_over {behind : UInt8} {state : State} {t : List UInt8} (h : t.headD 0 = 0) :
    madeUp behind state t = 0 := by
  cases t with
  | nil => cases state <;> rfl
  | cons c t => cases state <;> exact if_pos h

section Unquoted

variable {behind c : UInt8} {t : List UInt8} (hnul : c ≠ 0)

include hnul

theorem SingleQuotes.unquoted {state : State} (hstate : state = .bl ∨ state = .char)
    (h : SingleQuotes state (c :: t)) : SingleQuotes (unquoted c) t := by
  rcases hstate with rfl | rfl <;> exact h.resolve_left hnul

theorem lost_unquoted {state : State} (hstate : state = .bl ∨ state = .char) :
    lost state (c :: t) = lost (unquoted c) t := by
  rcases hstate with rfl | rfl <;> exact if_neg hnul

theorem madeUp_unquoted {state : State} (hstate : state = .bl ∨ state = .char) :
    madeUp behind state (c :: t) = madeUp behind (unquoted c) t := by
  rcases hstate with rfl | rfl <;> exact if_neg hnul

end Unquoted

/-- Without doubled quotes the code is where the grammar is, and differs by what it has
    lost and made up. -/
theorem total_scanTail {behind : UInt8} {state : State} {cur t : List UInt8}
    (h : SingleQuotes state t) (cur' : List UInt8) :
    total (scanTail behind state cur t) + lost state t + weight state cur' =
      total (quoteArgs state cur' (textOf t)) + madeUp behind state t + weight state cur := by
  fun_induction scanTail behind state cur t generalizing cur' with
  | case1 state cur =>
    rw [lost_over rfl, madeUp_over rfl, textOf_over rfl, quoteArgs_nil, total_ended, total_ended]
    omega
  | case2 state cur t =>
    rw [lost_over rfl, madeUp_over rfl, textOf_over rfl, quoteArgs_nil, total_ended, total_ended]
    omega
  | case3 cur c t hnul hblank ih =>
    have hih := ih (by simpa [unquoted_blank hblank] using h.unquoted hnul (Or.inl rfl)) []
    rw [lost_unquoted hnul (Or.inl rfl), madeUp_unquoted hnul (Or.inl rfl), unquoted_blank hblank,
      textOf_cons hnul, quoteArgs, if_pos hblank]
    exact hih
  | case4 cur c t hnul hblank ih =>
    have hih := ih h []
    rw [textOf_cons hnul] at hih ⊢
    rw [quoteArgs.eq_def]
    simp only [hblank]
    exact hih
  | case5 cur c t hnul hblank ih =>
    have hih := ih (by simpa [unquoted_blank hblank] using h.unquoted hnul (Or.inr rfl)) []
    rw [lost_unquoted hnul (Or.inr rfl), madeUp_unquoted hnul (Or.inr rfl), unquoted_blank hblank,
      textOf_cons hnul, quoteArgs, if_pos hblank, total_cons, total_cons]
    simp only [weight] at hih ⊢
    omega
  | case6 cur t hnul hblank ih =>
    have hih := ih (h.unquoted hnul (Or.inr rfl)) cur'
    rw [lost_unquoted hnul (Or.inr rfl), madeUp_unquoted hnul (Or.inr rfl), unquoted_mark .dq,
      textOf_cons hnul, quoteArgs, if_neg hblank, if_pos rfl]
    exact hih
  | case7 cur t hnul hblank hdq ih =>
    have hih := ih (h.unquoted hnul (Or.inr rfl)) cur'
    rw [lost_unquoted hnul (Or.inr rfl), madeUp_unquoted hnul (Or.inr rfl), unquoted_mark .sq,
      textOf_cons hnul, quoteArgs, if_neg hblank, if_neg hdq, if_pos rfl]
    exact hih
  | case8 cur c t hnul hblank hdq hsq ih =>
    have hchar := unquoted_char hblank hdq hsq
    have hih := ih (by simpa [hchar] using h.unquoted hnul (Or.inr rfl)) (cur' ++ [c])
    rw [lost_unquoted hnul (Or.inr rfl), madeUp_unquoted hnul (Or.inr rfl), hchar,
      textOf_cons hnul, quoteArgs, if_neg hblank, if_neg hdq, if_neg hsq]
    simp only [weight, List.length_append, List.length_singleton] at hih ⊢
    omega
  | case9 cur t q hnext hnul ih =>
    have hsingle := h.resolve_left hnul
    rw [if_pos rfl] at hsingle
    have hih := ih hsingle.2 cur'
    have hmade : madeUp behind (.quoted q) (q.mark :: t) = madeUp behind .char t := by
      rw [madeUp, if_neg hnul, if_pos rfl]
      split
      · rename_i hempty
        rw [hempty] at hnext ⊢
        exact if_neg hnext
      · rfl
    rw [lost, if_neg hnul, if_pos rfl, hmade, textOf_cons hnul, quoteArgs,
      if_neg (not_not_intro rfl), if_neg (mt (head?_textOf hnul).mp hsingle.1)]
    exact hih
  | case10 cur t q hnext hnul ih =>
    have hsingle := h.resolve_left hnul
    rw [if_pos rfl] at hsingle
    cases t with
    | cons c t => exact absurd (congrArg some (not_not.mp hnext)) hsingle.1
    | nil =>
      have hbehind : behind = q.mark := not_not.mp hnext
      have hrest : textOf [q.mark] = [q.mark] := textOf_cons hnul []
      rw [List.drop_nil, scanTail_over rfl, total_ended, hrest, quoteArgs,
        if_neg (not_not_intro rfl)]
      simp [lost, madeUp, hnul, hbehind, quoteArgs, weight, total]
      omega
  | case11 cur c t hnul q hmark ih =>
    have hsingle := h.resolve_left hnul
    rw [if_neg hmark] at hsingle
    have hih := ih hsingle (cur' ++ [c])
    rw [lost, if_neg hnul, if_neg hmark, madeUp, if_neg hnul, if_neg hmark, textOf_cons hnul,
      quoteArgs, if_pos hmark]
    simp only [weight, List.length_append, List.length_singleton] at hih ⊢
    omega

/-- A NUL behind the tail is no quote. -/
theorem madeUp_zero (state : State) (t : List UInt8) : madeUp 0 state t = 0 := by
  induction t generalizing state with
  | nil => exact madeUp_over rfl
  | cons c t ih =>
    by_cases hnul : c = 0
    · exact madeUp_over hnul
    cases state with
    | bl => rw [madeUp_unquoted hnul (Or.inl rfl), ih]
    | char => rw [madeUp_unquoted hnul (Or.inr rfl), ih]
    | quoted q =>
      rw [madeUp, if_neg hnul, if_neg q.mark_ne_zero.symm, ih, ih]
      simp

/-- What loses nothing and makes nothing up is plain. -/
theorem plainTail_of_lost {state : State} {t : List UInt8} (h : SingleQuotes state t)
    (hlost : lost state t = 0) (hmade : ∀ behind, madeUp behind state t = 0) :
    PlainTail state t := by
  induction t generalizing state with
  | nil => cases state <;> trivial
  | cons c t ih =>
    by_cases hnul : c = 0
    · cases state <;> exact Or.inl hnul
    cases state with
    | bl =>
      rw [lost_unquoted hnul (Or.inl rfl)] at hlost
      refine Or.inr (ih (h.unquoted hnul (Or.inl rfl)) hlost ?_)
      intro behind
      rw [← madeUp_unquoted hnul (Or.inl rfl)]
      exact hmade behind
    | char =>
      rw [lost_unquoted hnul (Or.inr rfl)] at hlost
      refine Or.inr (ih (h.unquoted hnul (Or.inr rfl)) hlost ?_)
      intro behind
      rw [← madeUp_unquoted hnul (Or.inr rfl)]
      exact hmade behind
    | quoted q =>
      rw [lost, if_neg hnul] at hlost
      have hsingle := h.resolve_left hnul
      by_cases hmark : c = q.mark
      swap
      · rw [if_neg hmark] at hlost
        exact absurd hlost (Nat.succ_ne_zero _)
      rw [if_pos hmark] at hlost hsingle
      have hclose : ∀ behind, (if t = [] then (if behind = q.mark then 1 else 0)
          else madeUp behind .char t) = 0 := by
        intro behind
        have hm := hmade behind
        rw [madeUp, if_neg hnul, if_pos hmark] at hm
        exact hm
      have hne : t ≠ [] := by
        intro hempty
        have hm := hclose q.mark
        rw [if_pos hempty, if_pos rfl] at hm
        cases hm
      refine Or.inr ⟨hmark, Or.inl ⟨?_, ih hsingle.2 hlost ?_⟩⟩
      · cases t with
        | nil => exact absurd rfl hne
        | cons d t =>
          intro hd
          exact hsingle.1 (congrArg some hd)
      · intro behind
        have hm := hclose behind
        rw [if_neg hne] at hm
        exact hm

/-! ### What parse_cmdline finds -/

/-- Memories with the same tail, and anything behind it. -/
def SameTail (cmdline : UInt32) (m m' : Memory) : Prop :=
  ∀ i ≤ (m cmdline.toNat).toNat, m' (cmdline.toNat + i) = m (cmdline.toNat + i)

theorem SameTail.length {cmdline : UInt32} {m m' : Memory} (h : SameTail cmdline m m') :
    m' cmdline.toNat = m cmdline.toNat := h 0 (Nat.zero_le _)

theorem SameTail.tailOf {cmdline : UInt32} {m m' : Memory} (h : SameTail cmdline m m') :
    tailOf cmdline m' = tailOf cmdline m := by
  rw [CommandLine.tailOf, CommandLine.tailOf, h.length]
  apply List.map_congr_left
  intro i hi
  have hlt := List.mem_range.mp hi
  rw [Nat.add_assoc, Nat.add_comm 1]
  exact h (i + 1) hlt

theorem length_tailOf (cmdline : UInt32) (m : Memory) :
    (tailOf cmdline m).length = (m cmdline.toNat).toNat := by
  simp [tailOf]

theorem shows_tailOf (cmdline : UInt32) (m : Memory) :
    Shows m (cmdline.toNat + 1) (tailOf cmdline m) := by
  intro i hi
  simp [tailOf]

/-- The code against the grammar, on the bytes of the tail. -/
theorem parsesRight_iff {cmdline : UInt32} {m : Memory}
    (hmap : ∀ i ≤ (m cmdline.toNat).toNat + 1, Mapped (cmdline.toNat + i)) :
    ParsesRight cmdline m ↔
      scanTail (m (cmdline.toNat + 1 + (m cmdline.toNat).toNat)) .bl [] (tailOf cmdline m) =
        quoteArgs .bl [] (textOf (tailOf cmdline m)) := by
  have hlen := length_tailOf cmdline m
  obtain ⟨p, hp, hargs⟩ := parseCmdline_scanTail hlen.symm (shows_tailOf cmdline m)
    (fun i hi => hmap i (by omega))
  rw [hlen] at hargs
  constructor
  · rintro ⟨p', hp', hargs'⟩
    obtain rfl := Run.ok_inj.mp (hp.symm.trans hp')
    exact Run.ok_inj.mp (hargs.symm.trans hargs')
  · intro heq
    rw [heq] at hargs
    exact ⟨p, hp, hargs⟩

/-- **When `parse_cmdline` reads a tail as its grammar does**, whatever is behind the tail:
    when the tail is plain, and, as long as no quote is doubled, only then. -/
theorem parse_cmdline_plain {cmdline : UInt32} {m : Memory}
    (hmap : ∀ i ≤ (m cmdline.toNat).toNat + 1, Mapped (cmdline.toNat + i)) :
    (PlainTail .bl (tailOf cmdline m) →
      ∀ m', SameTail cmdline m m' → ParsesRight cmdline m') ∧
    (SingleQuotes .bl (tailOf cmdline m) →
      (∀ m', SameTail cmdline m m' → ParsesRight cmdline m') →
      PlainTail .bl (tailOf cmdline m)) := by
  have hmap' : ∀ m', SameTail cmdline m m' →
      ∀ i ≤ (m' cmdline.toNat).toNat + 1, Mapped (cmdline.toNat + i) := by
    intro m' hsame
    rw [hsame.length]
    exact hmap
  constructor
  · intro hplain m' hsame
    rw [parsesRight_iff (hmap' m' hsame), hsame.tailOf]
    exact scanTail_plain hplain
  · intro hsingle hright
    have hbalance : ∀ behind, lost .bl (tailOf cmdline m) = madeUp behind .bl (tailOf cmdline m) := by
      intro behind
      -- a memory with that byte behind the tail
      let m' := Function.update m (cmdline.toNat + 1 + (m cmdline.toNat).toNat) behind
      have hsame : SameTail cmdline m m' := by
        intro i hi
        exact Function.update_of_ne (by omega) _ _
      have hbehind : m' (cmdline.toNat + 1 + (m' cmdline.toNat).toNat) = behind := by
        rw [hsame.length]
        exact Function.update_self _ _ _
      have hscan := (parsesRight_iff (hmap' m' hsame)).mp (hright m' hsame)
      rw [hbehind, hsame.tailOf] at hscan
      have htotal := @total_scanTail behind .bl [] _ hsingle []
      rw [hscan] at htotal
      omega
    have hlost : lost .bl (tailOf cmdline m) = 0 := (hbalance 0).trans (madeUp_zero _ _)
    exact plainTail_of_lost hsingle hlost fun behind => (hbalance behind).symm.trans hlost

/-- The tail `-o "" x`. -/
theorem parse_cmdline_plain_empty :
    ParsesRight 0x100 (write initM68KMemory 0x100 (7 :: ascii "-o \"\" x")) := by
  have hmap : ∀ i ≤ (write initM68KMemory 0x100 (7 :: ascii "-o \"\" x")
      (0x100 : UInt32).toNat).toNat + 1, Mapped ((0x100 : UInt32).toNat + i) := by
    intro i hi
    apply mapped_of_lt
    have hlen : (write initM68KMemory 0x100 (7 :: ascii "-o \"\" x")
      (0x100 : UInt32).toNat).toNat = 7 := by decide +kernel
    have hbase : (0x100 : UInt32).toNat = 0x100 := rfl
    omega
  exact (parse_cmdline_plain hmap).1 (by decide +kernel) _ (fun _ _ => rfl)

/-- From the tail `"a b"` the code makes one empty argument. -/
theorem quoted_text_lost :
    ¬ ParsesRight 0x100 (write initM68KMemory 0x100 (5 :: ascii "\"a b\"")) := by
  rw [parsesRight_iff]
  · decide +kernel
  · intro i hi
    apply mapped_of_lt
    have hlen : (write initM68KMemory 0x100 (5 :: ascii "\"a b\"")
      (0x100 : UInt32).toNat).toNat = 5 := by decide +kernel
    have hbase : (0x100 : UInt32).toNat = 0x100 := rfl
    omega

end ParaTos.CommandLine
