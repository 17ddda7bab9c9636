/-
  ParaTos/CommandLine.lean
  ========================
  **Reading a command tail** (`parse_cmdline` in `gemdos/pexec.c`).

  `parse_cmdline` walks over the characters of a command tail and writes the
  arguments it finds into a buffer, one NUL behind each, noting in `argv` where
  they start.  It is called twice, once without `argv` and buffer to count; both
  calls are the one function `parseCmdline`, which gives the noted starts and the
  bytes.

  The second half says what the arguments are without positions: `scan` runs
  through the text and puts the arguments together as strings.
-/
import ParaTos.Memory

namespace ParaTos.CommandLine

open Bytes Memory CString

/-- `" \t\n\r"` -/
def isBlank (c : UInt8) : Bool := c = 32 ∨ c = 9 ∨ c = 10 ∨ c = 13

/-- The states `DQ` and `SQ`, each equal to the character that opens it. -/
inductive Quote where
  | dq
  | sq
deriving DecidableEq, Repr

def Quote.mark : Quote → UInt8
  | .dq => 34
  | .sq => 39

inductive State where
  | bl
  | char
  | quoted (q : Quote)
deriving DecidableEq, Repr

/-- What `parse_cmdline` has written: where each argument starts in the buffer, and the
    buffer. -/
structure Parsed where
  starts : List Nat
  bytes : List UInt8
deriving DecidableEq, Repr

/-- `*(argv++) = buffer` -/
def Parsed.start (p : Parsed) : Parsed := { p with starts := p.starts ++ [p.bytes.length] }

/-- `*buffer++ = c` -/
def Parsed.put (p : Parsed) (c : UInt8) : Parsed := { p with bytes := p.bytes ++ [c] }

/-- The `for` loop of `parse_cmdline`.  In the state `BL` the `i--` takes back the `i++`
    of the loop; behind a doubled quote `i+=2` and the `i++` skip three characters. -/
def parseLoop (m : Memory) (cmd length i : Nat) (state : State) (p : Parsed) : Run Parsed :=
  if i < length then do
    let c ← peek (cmd + i) m
    if c = 0 then return p
    match state with
    | .bl =>
      if isBlank c then parseLoop m cmd length (i + 1) .bl p
      else parseLoop m cmd length i .char p.start
    | .char =>
      if isBlank c then parseLoop m cmd length (i + 1) .bl (p.put 0)
      else if c = Quote.dq.mark then parseLoop m cmd length (i + 1) (.quoted .dq) p
      else if c = Quote.sq.mark then parseLoop m cmd length (i + 1) (.quoted .sq) p
      else parseLoop m cmd length (i + 1) .char (p.put c)
    | .quoted q =>
      if c = q.mark then do
        let next ← peek (cmd + i + 1) m
        if next ≠ q.mark then parseLoop m cmd length (i + 1) .char p
        else parseLoop m cmd length (i + 3) (.quoted q) (p.put q.mark)
      else parseLoop m cmd length (i + 1) (.quoted q) p
  else return p
termination_by 2 * (length - i) + if state = .bl then 1 else 0
decreasing_by all_goals simp; try omega

/-- `parse_cmdline(cmdline, …)` -/
def parseCmdline (cmdline : UInt32) (m : Memory) : Run Parsed := do
  let length ← readMemory8 cmdline m
  let p ← parseLoop m (cmdline.toNat + 1) length.toNat 0 .bl ⟨[], []⟩
  return p.put 0

/-- The arguments, as strings. -/
def Parsed.args (p : Parsed) : Run (List (List UInt8)) :=
  p.starts.mapM fun o => cstr (p.bytes.drop o)

/-! ### The arguments of a text -/

/-- The arguments found in a text, `cur` being what the current one has so far.  `behind`
    is the byte behind the text, which only a quote at the very end looks at. -/
def scan (behind : UInt8) : State → List UInt8 → List UInt8 → List (List UInt8)
  | .bl, _, [] => []
  | .bl, _, c :: t =>
    if isBlank c then scan behind .bl [] t else scan behind .char [] (c :: t)
  | .char, cur, [] => [cur]
  | .char, cur, c :: t =>
    if isBlank c then cur :: scan behind .bl [] t
    else if c = Quote.dq.mark then scan behind (.quoted .dq) cur t
    else if c = Quote.sq.mark then scan behind (.quoted .sq) cur t
    else scan behind .char (cur ++ [c]) t
  | .quoted _, cur, [] => [cur]
  | .quoted q, cur, c :: t =>
    if c = q.mark then
      if t.headD behind ≠ q.mark then scan behind .char cur t
      else scan behind (.quoted q) (cur ++ [q.mark]) (t.drop 2)
    else scan behind (.quoted q) cur t
termination_by state _ text => 2 * text.length + if state = .bl then 1 else 0
decreasing_by all_goals simp; try omega

/-- The arguments that are left when the scanner stops. -/
def ended : State → List UInt8 → List (List UInt8)
  | .bl, _ => []
  | _, cur => [cur]

/-- The same for the bytes of a tail, which the scanner leaves at the first NUL it meets. -/
def scanTail (behind : UInt8) (state : State) (cur : List UInt8) : List UInt8 → List (List UInt8)
  | [] => ended state cur
  | c :: t =>
    if c = 0 then ended state cur else
    match state with
    | .bl =>
      if isBlank c then scanTail behind .bl [] t else scanTail behind .char [] (c :: t)
    | .char =>
      if isBlank c then cur :: scanTail behind .bl [] t
      else if c = Quote.dq.mark then scanTail behind (.quoted .dq) cur t
      else if c = Quote.sq.mark then scanTail behind (.quoted .sq) cur t
      else scanTail behind .char (cur ++ [c]) t
    | .quoted q =>
      if c = q.mark then
        if t.headD behind ≠ q.mark then scanTail behind .char cur t
        else scanTail behind (.quoted q) (cur ++ [q.mark]) (t.drop 2)
      else scanTail behind (.quoted q) cur t
termination_by text => 2 * text.length + if state = .bl then 1 else 0
decreasing_by all_goals simp; try omega

/-- A text without NULs is scanned to its end. -/
theorem scanTail_eq_scan (behind : UInt8) (state : State) (cur text : List UInt8)
    (hnul : 0 ∉ text) : scanTail behind state cur text = scan behind state cur text := by
  fun_induction scan behind state cur text with
  | case1 | case4 | case9 => simp [scanTail, ended]
  | case2 cur c t hblank ih =>
    rw [scanTail, if_neg (List.ne_of_not_mem_cons hnul).symm]
    simp only [hblank, if_true]
    exact ih (List.not_mem_of_not_mem_cons hnul)
  | case3 cur c t hblank ih =>
    rw [scanTail, if_neg (List.ne_of_not_mem_cons hnul).symm]
    simp only [hblank]
    exact ih hnul
  | case5 cur c t hblank ih =>
    rw [scanTail, if_neg (List.ne_of_not_mem_cons hnul).symm]
    simp only [hblank, if_true]
    rw [ih (List.not_mem_of_not_mem_cons hnul)]
  | case6 cur t hblank ih =>
    rw [scanTail, if_neg (List.ne_of_not_mem_cons hnul).symm]
    simp only [hblank]
    exact ih (List.not_mem_of_not_mem_cons hnul)
  | case7 cur t hblank hdq ih =>
    rw [scanTail, if_neg (List.ne_of_not_mem_cons hnul).symm]
    simp only [hblank, hdq]
    exact ih (List.not_mem_of_not_mem_cons hnul)
  | case8 cur c t hblank hdq hsq ih =>
    rw [scanTail, if_neg (List.ne_of_not_mem_cons hnul).symm]
    simp only [hblank, if_neg hdq, if_neg hsq]
    exact ih (List.not_mem_of_not_mem_cons hnul)
  | case10 q cur t hnext ih =>
    rw [scanTail, if_neg (List.ne_of_not_mem_cons hnul).symm]
    simp only [if_true, if_pos hnext]
    exact ih (List.not_mem_of_not_mem_cons hnul)
  | case11 q cur t hnext ih =>
    rw [scanTail, if_neg (List.ne_of_not_mem_cons hnul).symm]
    simp only [if_true, if_neg hnext]
    exact ih fun h => List.not_mem_of_not_mem_cons hnul (List.mem_of_mem_drop h)
  | case12 q cur c t hmark ih =>
    rw [scanTail, if_neg (List.ne_of_not_mem_cons hnul).symm]
    simp only [if_neg hmark]
    exact ih (List.not_mem_of_not_mem_cons hnul)

/-- Where strings start that stand one after the other from `o` on. -/
def offsets : Nat → List (List UInt8) → List Nat
  | _, [] => []
  | o, s :: ss => o :: offsets (o + (s.length + 1)) ss

theorem offsets_append (o : Nat) (ss ss' : List (List UInt8)) :
    offsets o (ss ++ ss') = offsets o ss ++ offsets (o + (pack ss).length) ss' := by
  induction ss generalizing o with
  | nil => rfl
  | cons s ss ih =>
    have hnext : o + (pack (s :: ss)).length = o + (s.length + 1) + (pack ss).length := by
      rw [length_pack_cons]
      exact (Nat.add_assoc _ _ _).symm
    rw [List.cons_append, offsets, offsets, ih, hnext]
    rfl

/-- Strings are read back from where they start. -/
theorem mapM_offsets {ss : List (List UInt8)} (hss : ∀ s ∈ ss, 0 ∉ s) {block rest : List UInt8}
    {o : Nat} (h : block.drop o = pack ss ++ rest) :
    (offsets o ss).mapM (fun o => cstr (block.drop o)) = Except.ok ss := by
  induction ss generalizing o with
  | nil => rfl
  | cons s ss ih =>
    have hdrop : block.drop (o + (s.length + 1)) = pack ss ++ rest := by
      rw [← List.drop_drop, h, pack_cons, List.append_assoc]
      have hlen : (s ++ [0]).length = s.length + 1 := List.length_append
      rw [← hlen, List.drop_left]
    have hstring : cstr (block.drop o) = Except.ok s := by
      rw [h, pack_cons]
      simp only [List.append_assoc, List.singleton_append]
      exact cstr_append (hss s (by simp)) _
    rw [offsets, List.mapM_cons, hstring, Run.ok_bind, ih (fun s hs => hss s (by simp [hs])) hdrop]
    rfl

/-- The buffer with finished arguments, and with one that is not finished. -/
def finished (done : List (List UInt8)) : Parsed := ⟨offsets 0 done, pack done⟩
def unfinished (done : List (List UInt8)) (cur : List UInt8) : Parsed :=
  ⟨offsets 0 (done ++ [cur]), pack done ++ cur⟩

theorem finished_start (done : List (List UInt8)) : (finished done).start = unfinished done [] := by
  simp [finished, unfinished, Parsed.start, offsets_append, offsets]

theorem unfinished_put (done : List (List UInt8)) (cur : List UInt8) (c : UInt8) :
    (unfinished done cur).put c = unfinished done (cur ++ [c]) := by
  simp [unfinished, Parsed.put, offsets_append, offsets]

theorem unfinished_close (done : List (List UInt8)) (cur : List UInt8) :
    (unfinished done cur).put 0 = finished (done ++ [cur]) := by
  simp [finished, unfinished, Parsed.put, pack_append, pack_cons]

theorem args_finished {done : List (List UInt8)} (h : ∀ s ∈ done, 0 ∉ s) :
    (finished done).args = Except.ok done := by
  apply mapM_offsets h
  rw [List.drop_zero]
  exact (List.append_nil _).symm

theorem args_finished_put {done : List (List UInt8)} (h : ∀ s ∈ done, 0 ∉ s) :
    ((finished done).put 0).args = Except.ok done := mapM_offsets h rfl

/-- The buffer in a state of the loop. -/
def buffer (done : List (List UInt8)) : State → List UInt8 → Parsed
  | .bl, _ => finished done
  | .char, cur => unfinished done cur
  | .quoted _, cur => unfinished done cur

theorem Quote.mark_ne_zero (q : Quote) : q.mark ≠ 0 := by
  cases q <;> decide

section Loop

variable {m : Memory} {cmd : Nat} {text : List UInt8}

/-- What the loop meets at a position with the character `c`. -/
structure Reads (m : Memory) (cmd : Nat) (text : List UInt8) (i : Nat) (c : UInt8)
    (t : List UInt8) : Prop where
  lt : i < text.length
  char : peek (cmd + i) m = Except.ok c
  behind : peek (cmd + i + 1) m = Except.ok (t.headD (m (cmd + text.length)))
  next : text.drop (i + 1) = t

theorem reads (htext : Shows m cmd text) (hmap : ∀ i ≤ text.length, Mapped (cmd + i)) {i : Nat}
    {c : UInt8} {t : List UInt8} (h : text.drop i = c :: t) : Reads m cmd text i c t := by
  have hlt : i < text.length := by
    apply Classical.byContradiction
    intro hge
    rw [List.drop_eq_nil_of_le (by omega)] at h
    cases h
  have hsplit := List.drop_eq_getElem_cons hlt
  rw [h] at hsplit
  obtain ⟨hc, ht⟩ := List.cons.inj hsplit
  constructor
  · exact hlt
  · exact peek_eq_ok.mpr ⟨hmap i (by omega), by rw [htext i hlt, hc]⟩
  · rw [Nat.add_assoc, peek_eq_ok]
    refine ⟨hmap (i + 1) (by omega), ?_⟩
    rw [ht]
    by_cases hlast : i + 1 < text.length
    · rw [htext (i + 1) hlast, List.drop_eq_getElem_cons hlast]
      rfl
    · have hend : i + 1 = text.length := by omega
      rw [hend, List.drop_length]
      rfl
  · exact ht.symm

/-- At the end of the text the loop stops. -/
theorem parseLoop_end {i : Nat} (h : text.drop i = []) (state : State) (p : Parsed) :
    parseLoop m cmd text.length i state p = Except.ok p := by
  rw [parseLoop, if_neg]
  · rfl
  · have hle := List.drop_eq_nil_iff.mp h
    omega

/-- What the buffer holds when the loop stops. -/
theorem args_ended {done : List (List UInt8)} {state : State} {cur : List UInt8}
    (hcur : 0 ∉ cur) (hdone : ∀ s ∈ done, 0 ∉ s) :
    ((buffer done state cur).put 0).args = Except.ok (done ++ ended state cur) := by
  cases state with
  | bl =>
    rw [ended, List.append_nil]
    exact args_finished_put hdone
  | char | quoted =>
    rw [buffer, unfinished_close]
    apply args_finished
    simpa [or_imp, forall_and, hcur] using hdone

/-- The loop finds the arguments of the tail. -/
theorem parseLoop_scanTail (htext : Shows m cmd text)
    (hmap : ∀ i ≤ text.length, Mapped (cmd + i)) (state : State) (cur t : List UInt8) :
    ∀ (done : List (List UInt8)) (i : Nat), text.drop i = t → 0 ∉ cur → (∀ s ∈ done, 0 ∉ s) →
      ∃ p, parseLoop m cmd text.length i state (buffer done state cur) = Except.ok p ∧
        (p.put 0).args =
          Except.ok (done ++ scanTail (m (cmd + text.length)) state cur t) := by
  fun_induction scanTail (m (cmd + text.length)) state cur t with
  | case1 state cur =>
    intro done i hi hcur hdone
    exact ⟨_, parseLoop_end hi _ _, args_ended hcur hdone⟩
  | case2 state cur t =>
    intro done i hi hcur hdone
    have hc := reads htext hmap hi
    refine ⟨_, ?_, args_ended hcur hdone⟩
    rw [parseLoop, if_pos hc.lt, hc.char, Run.ok_bind, if_pos rfl]
    rfl
  | case3 cur c t hnul hblank ih =>
    intro done i hi hcur hdone
    have hc := reads htext hmap hi
    rw [parseLoop, if_pos hc.lt, hc.char, Run.ok_bind, if_neg hnul]
    simp only [hblank, if_true]
    exact ih done (i + 1) hc.next (by simp) hdone
  | case4 cur c t hnul hblank ih =>
    intro done i hi hcur hdone
    have hc := reads htext hmap hi
    rw [parseLoop, if_pos hc.lt, hc.char, Run.ok_bind, if_neg hnul]
    simp only [hblank, buffer, finished_start]
    exact ih done i hi (by simp) hdone
  | case5 cur c t hnul hblank ih =>
    intro done i hi hcur hdone
    have hc := reads htext hmap hi
    rw [parseLoop, if_pos hc.lt, hc.char, Run.ok_bind, if_neg hnul]
    simp only [hblank, if_true, buffer, unfinished_close]
    obtain ⟨p, hp, hargs⟩ := ih (done ++ [cur]) (i + 1) hc.next (by simp) (by
      simpa [or_imp, forall_and, hcur] using hdone)
    rw [List.append_assoc] at hargs
    exact ⟨p, hp, hargs⟩
  | case6 cur t hnul hblank ih =>
    intro done i hi hcur hdone
    have hc := reads htext hmap hi
    rw [parseLoop, if_pos hc.lt, hc.char, Run.ok_bind, if_neg hnul]
    simp only [hblank]
    exact ih done (i + 1) hc.next hcur hdone
  | case7 cur t hnul hblank hdq ih =>
    intro done i hi hcur hdone
    have hc := reads htext hmap hi
    rw [parseLoop, if_pos hc.lt, hc.char, Run.ok_bind, if_neg hnul]
    simp only [hblank, hdq]
    exact ih done (i + 1) hc.next hcur hdone
  | case8 cur c t hnul hblank hdq hsq ih =>
    intro done i hi hcur hdone
    have hc := reads htext hmap hi
    rw [parseLoop, if_pos hc.lt, hc.char, Run.ok_bind, if_neg hnul]
    simp only [hblank, if_neg hdq, if_neg hsq, buffer, unfinished_put]
    apply ih done (i + 1) hc.next _ hdone
    simp [hcur, Ne.symm hnul]
  | case9 cur t q hnext hnul ih =>
    intro done i hi hcur hdone
    have hc := reads htext hmap hi
    rw [parseLoop, if_pos hc.lt, hc.char, Run.ok_bind, if_neg hnul]
    simp only [if_true, hc.behind, Run.ok_bind, if_pos hnext]
    exact ih done (i + 1) hc.next hcur hdone
  | case10 cur t q hnext hnul ih =>
    intro done i hi hcur hdone
    have hc := reads htext hmap hi
    have hskip : text.drop (i + 3) = t.drop 2 := by
      rw [← hc.next, List.drop_drop]
    rw [parseLoop, if_pos hc.lt, hc.char, Run.ok_bind, if_neg hnul]
    simp only [if_true, hc.behind, Run.ok_bind, if_neg hnext, buffer, unfinished_put]
    apply ih done (i + 3) hskip _ hdone
    simp [hcur, q.mark_ne_zero.symm]
  | case11 cur c t hnul q hmark ih =>
    intro done i hi hcur hdone
    have hc := reads htext hmap hi
    rw [parseLoop, if_pos hc.lt, hc.char, Run.ok_bind, if_neg hnul]
    simp only [if_neg hmark]
    exact ih done (i + 1) hc.next hcur hdone

end Loop

/-- `parse_cmdline` returns from any tail in mapped memory. -/
theorem parseLoop_returns {m : Memory} {cmd length : Nat}
    (hmap : ∀ i ≤ length, Mapped (cmd + i)) (i : Nat) (state : State) (p : Parsed) :
    ∃ p', parseLoop m cmd length i state p = Except.ok p' := by
  -- the measure of the recursion
  generalize hn : 2 * (length - i) + (if state = .bl then 1 else 0) = n
  induction n using Nat.strongRecOn generalizing i state p with
  | ind n ih =>
    rw [parseLoop]
    split
    · rename_i hlt
      rw [peek_ok (hmap i (by omega)), Run.ok_bind]
      split
      · exact ⟨p, rfl⟩
      · cases state with
        | bl =>
          rw [if_pos rfl] at hn
          dsimp only
          split
          · exact ih _ (by simp; omega) _ _ _ rfl
          · exact ih _ (by simp; omega) _ _ _ rfl
        | char =>
          rw [if_neg (by simp)] at hn
          dsimp only
          split
          · exact ih _ (by simp; omega) _ _ _ rfl
          · split
            · exact ih _ (by simp; omega) _ _ _ rfl
            · split
              · exact ih _ (by simp; omega) _ _ _ rfl
              · exact ih _ (by simp; omega) _ _ _ rfl
        | quoted q =>
          rw [if_neg (by simp)] at hn
          dsimp only
          split
          · rw [Nat.add_assoc, peek_ok (hmap (i + 1) (by omega)), Run.ok_bind]
            split
            · exact ih _ (by simp; omega) _ _ _ rfl
            · exact ih _ (by simp; omega) _ _ _ rfl
          · exact ih _ (by simp; omega) _ _ _ rfl
    · exact ⟨p, rfl⟩

theorem parseCmdline_returns {cmdline : UInt32} {m : Memory}
    (hmap : ∀ i ≤ (m cmdline.toNat).toNat + 1, Mapped (cmdline.toNat + i)) :
    ∃ p, parseCmdline cmdline m = Except.ok p := by
  have hmap' : ∀ i ≤ (m cmdline.toNat).toNat, Mapped (cmdline.toNat + 1 + i) := by
    intro i hi
    rw [Nat.add_assoc, Nat.add_comm 1]
    exact hmap (i + 1) (by omega)
  obtain ⟨p, hp⟩ := @parseLoop_returns m _ _ hmap' 0 .bl ⟨[], []⟩
  have hread : readMemory8 cmdline m = Except.ok (m cmdline.toNat) := peek_ok (hmap 0 (by omega)) m
  refine ⟨p.put 0, ?_⟩
  rw [parseCmdline, hread, Run.ok_bind]
  exact Run.bind_eq_ok.mpr ⟨p, hp, rfl⟩

/-- `parse_cmdline` finds the arguments of a tail. -/
theorem parseCmdline_scanTail {cmdline : UInt32} {m : Memory} {text : List UInt8}
    (hlen : (m cmdline.toNat).toNat = text.length) (htext : Shows m (cmdline.toNat + 1) text)
    (hmap : ∀ i ≤ text.length + 1, Mapped (cmdline.toNat + i)) :
    ∃ p, parseCmdline cmdline m = Except.ok p ∧
      p.args = Except.ok (scanTail (m (cmdline.toNat + 1 + text.length)) .bl [] text) := by
  have hmap' : ∀ i ≤ text.length, Mapped (cmdline.toNat + 1 + i) := by
    intro i hi
    rw [Nat.add_assoc, Nat.add_comm 1]
    exact hmap (i + 1) (by omega)
  obtain ⟨p, hp, hargs⟩ := parseLoop_scanTail htext hmap' .bl [] text [] 0 rfl (by simp) (by simp)
  have hread : readMemory8 cmdline m = Except.ok (m cmdline.toNat) := peek_ok (hmap 0 (by omega)) m
  refine ⟨p.put 0, ?_, hargs⟩
  rw [parseCmdline, hread, Run.ok_bind, hlen]
  exact Run.bind_eq_ok.mpr ⟨p, hp, rfl⟩

/-- `parse_cmdline` finds the arguments of a text that holds no NUL. -/
theorem parseCmdline_scan {cmdline : UInt32} {m : Memory} {text : List UInt8}
    (hlen : (m cmdline.toNat).toNat = text.length) (htext : Shows m (cmdline.toNat + 1) text)
    (hnul : 0 ∉ text) (hmap : ∀ i ≤ text.length + 1, Mapped (cmdline.toNat + i)) :
    ∃ p, parseCmdline cmdline m = Except.ok p ∧
      p.args = Except.ok (scan (m (cmdline.toNat + 1 + text.length)) .bl [] text) := by
  rw [← scanTail_eq_scan _ _ _ _ hnul]
  exact parseCmdline_scanTail hlen htext hmap

end ParaTos.CommandLine
