/-
  ParaTos/TailRoundTrip.lean
  ==========================
  **From `argv` to the command tail and back.**

  `BuildTosArglist` separates the arguments by blanks and quotes the empty ones;
  `parse_cmdline` splits at four kinds of blank, takes both quote characters for
  quotes and drops what stands between them.  So an argument with a blank or a
  quote in it does not come back, and neither does an empty one at the end when a
  quote happens to stand behind the tail.  Everything else does.

  For the direction from the result to the arguments: what `scan` puts together
  never contains a blank, so the text has just one blank for each argument; a
  quoted blank or a dropped one then shows in the number of arguments, and a
  quote that swallows no blank in the length of the argument it stands in.
-/
import ParaTos.ArgList
import ParaTos.CommandLine

namespace ParaTos.CommandLine

open Bytes Memory CString ArgList

/-- An argument without blanks and quotes. -/
def Plain (arg : List UInt8) : Prop :=
  ∀ c ∈ arg, isBlank c = false ∧ c ≠ Quote.dq.mark ∧ c ≠ Quote.sq.mark

instance (arg : List UInt8) : Decidable (Plain arg) := inferInstanceAs (Decidable (∀ c ∈ arg, _))

/-- No blank of any kind. -/
def Unbroken (arg : List UInt8) : Prop := ∀ c ∈ arg, isBlank c = false

variable {behind : UInt8}

/-! ### What the arguments of a text look like -/

/-- The arguments that come out hold no blanks. -/
theorem scan_unbroken (state : State) (cur t : List UInt8) (hcur : Unbroken cur) :
    ∀ s ∈ scan behind state cur t, Unbroken s := by
  have happend : ∀ {cur : List UInt8} {c : UInt8}, Unbroken cur → isBlank c = false →
      Unbroken (cur ++ [c]) := by
    intro cur c hcur hc d hd
    rw [List.mem_append, List.mem_singleton] at hd
    rcases hd with hd | rfl
    · exact hcur d hd
    · exact hc
  have hnil : Unbroken [] := fun _ h => nomatch h
  have hmark : ∀ q : Quote, isBlank q.mark = false := by
    intro q
    cases q <;> rfl
  fun_induction scan behind state cur t with
  | case1 => simp
  | case2 _ _ _ _ ih => exact ih hnil
  | case3 _ _ _ _ ih => exact ih hnil
  | case4 => simpa using hcur
  | case5 cur c t hblank ih =>
    intro s hs
    rcases List.mem_cons.mp hs with rfl | hs
    · exact hcur
    · exact ih hnil s hs
  | case6 _ _ _ ih => exact ih hcur
  | case7 _ _ _ _ ih => exact ih hcur
  | case8 cur c t hblank _ _ ih => exact ih (happend hcur (by simpa using hblank))
  | case9 => simpa using hcur
  | case10 _ _ _ _ ih => exact ih hcur
  | case11 q cur t _ ih => exact ih (happend hcur (hmark q))
  | case12 _ _ _ _ _ ih => exact ih hcur

/-- Every argument but the first needs a blank in front. -/
theorem scan_length_le (state : State) (cur t : List UInt8) :
    (scan behind state cur t).length ≤ t.countP isBlank + 1 := by
  fun_induction scan behind state cur t with
  | case1 => simp
  | case2 cur c t hblank ih =>
    rw [List.countP_cons_of_pos hblank]
    omega
  | case3 cur c t hblank ih => exact ih
  | case4 => simp
  | case5 cur c t hblank ih =>
    rw [List.countP_cons_of_pos hblank, List.length_cons]
    omega
  | case6 cur t hblank ih => rwa [List.countP_cons_of_neg hblank]
  | case7 cur t hblank _ ih => rwa [List.countP_cons_of_neg hblank]
  | case8 cur c t hblank _ _ ih => rwa [List.countP_cons_of_neg hblank]
  | case9 => simp
  | case10 q cur t _ ih =>
    have hcons : t.countP isBlank ≤ (q.mark :: t).countP isBlank :=
      (List.sublist_cons_self _ _).countP_le
    omega
  | case11 q cur t _ ih =>
    have hdrop : (t.drop 2).countP isBlank ≤ (q.mark :: t).countP isBlank :=
      ((List.drop_sublist 2 t).trans (List.sublist_cons_self _ _)).countP_le
    omega
  | case12 q cur c t _ ih =>
    have hcons : t.countP isBlank ≤ (c :: t).countP isBlank :=
      (List.sublist_cons_self _ _).countP_le
    omega

/-- The end of the text, or a blank and more. -/
def Break (t : List UInt8) : Prop := t = [] ∨ ∃ t', t = blank :: t'

theorem break_tailText (argv : List (List UInt8)) : Break (tailText argv) := by
  cases argv with
  | nil => exact Or.inl rfl
  | cons arg argv => exact Or.inr ⟨_, rfl⟩

/-- At a break an argument ends. -/
theorem scan_break {t : List UInt8} (ht : Break t) (cur : List UInt8) :
    scan behind .char cur t = cur :: scan behind .bl [] t := by
  rcases ht with rfl | ⟨t', rfl⟩
  · simp [scan]
  · have hblank : isBlank blank = true := rfl
    simp [scan, hblank]

theorem scan_plain {w : List UInt8} (hw : Plain w) (cur t : List UInt8) :
    scan behind .char cur (w ++ t) = scan behind .char (cur ++ w) t := by
  induction w generalizing cur with
  | nil => simp
  | cons c w ih =>
    obtain ⟨hblank, hdq, hsq⟩ := hw c (by simp)
    rw [List.cons_append, scan, hblank, if_neg (by simp), if_neg hdq, if_neg hsq,
      ih (fun d hd => hw d (by simp [hd])), List.append_assoc]
    rfl

/-! ### Quotes make arguments shorter -/

/-- Of a run of characters up to a break at most those come out, provided that as many
    arguments follow as there are blanks left.  Inside quotes a blank would be lost, and
    an argument with it. -/
theorem scan_head_le (state : State) (cur : List UInt8) {w t : List UInt8}
    (hstate : state ≠ .bl) (hw : Unbroken w) (ht : Break t) {x : List UInt8}
    {more : List (List UInt8)} (h : scan behind state cur (w ++ t) = x :: more)
    (hmore : t.countP isBlank ≤ more.length) : x.length ≤ cur.length + w.length := by
  -- what is left when a quoted run reaches the break
  have hlost : ∀ {q : Quote} {cur' t' : List UInt8}, t = blank :: t' →
      scan behind (.quoted q) cur' t' = x :: more → False := by
    intro q cur' t' htail hscan
    have hle := @scan_length_le behind (.quoted q) cur' t'
    have hblank : isBlank blank = true := rfl
    rw [hscan, List.length_cons] at hle
    rw [htail, List.countP_cons_of_pos hblank] at hmore
    omega
  -- a character that is no blank belongs to the run
  have hrun : ∀ {w t' : List UInt8} {c : UInt8}, isBlank c = false → w ++ t = c :: t' →
      ∃ w', w = c :: w' ∧ t' = w' ++ t := by
    intro w t' c hc hsplit
    rcases List.append_eq_cons_iff.mp hsplit with ⟨-, htail⟩ | hcons
    · rcases ht with rfl | ⟨t'', rfl⟩
      · cases htail
      · cases htail
        cases hc
    · exact hcons
  have hmark : ∀ q : Quote, isBlank q.mark = false := by
    intro q
    cases q <;> rfl
  generalize htext : w ++ t = text at h
  fun_induction scan behind state cur text generalizing w with
  | case1 => exact absurd rfl hstate
  | case2 => exact absurd rfl hstate
  | case3 => exact absurd rfl hstate
  | case4 cur =>
    cases h
    omega
  | case5 cur c t' hblank ih =>
    cases h
    omega
  | case6 cur t' hblank ih =>
    obtain ⟨w, rfl, rfl⟩ := hrun (by simpa using hblank) htext
    have hle := ih (by simp) (fun d hd => hw d (by simp [hd])) rfl h
    rw [List.length_cons]
    omega
  | case7 cur t' hblank _ ih =>
    obtain ⟨w, rfl, rfl⟩ := hrun (by simpa using hblank) htext
    have hle := ih (by simp) (fun d hd => hw d (by simp [hd])) rfl h
    rw [List.length_cons]
    omega
  | case8 cur c t' hblank _ _ ih =>
    obtain ⟨w, rfl, rfl⟩ := hrun (by simpa using hblank) htext
    have hle := ih (by simp) (fun d hd => hw d (by simp [hd])) rfl h
    rw [List.length_append, List.length_singleton] at hle
    rw [List.length_cons]
    omega
  | case9 q cur =>
    cases h
    omega
  | case10 q cur t' hnext ih =>
    obtain ⟨w, rfl, rfl⟩ := hrun (hmark q) htext
    have hle := ih (by simp) (fun d hd => hw d (by simp [hd])) rfl h
    rw [List.length_cons]
    omega
  | case11 q cur t' hnext ih =>
    obtain ⟨w, rfl, rfl⟩ := hrun (hmark q) htext
    have hlast : (cur ++ [q.mark]).length = cur.length + 1 := List.length_append
    rcases w with _ | ⟨d, _ | ⟨e, w⟩⟩
    · rcases ht with rfl | ⟨t', rfl⟩
      · simp only [List.nil_append, List.drop_nil, scan, List.cons.injEq] at h
        rw [← h.1, hlast, List.length_cons]
        omega
      · refine absurd ?_ hnext
        intro hquote
        have hblank := hmark q
        rw [← hquote] at hblank
        cases hblank
    · rcases ht with rfl | ⟨t', rfl⟩
      · simp only [List.append_nil, List.drop_succ_cons, List.drop_nil, scan,
          List.cons.injEq] at h
        rw [← h.1, hlast, List.length_cons]
        omega
      · exact (hlost rfl h).elim
    · have hle := ih (by simp) (fun d hd => hw d (by simp [hd])) rfl h
      rw [hlast] at hle
      simp only [List.length_cons]
      omega
  | case12 q cur c t' hmark ih =>
    rcases List.append_eq_cons_iff.mp htext with ⟨rfl, htail⟩ | ⟨w, rfl, rfl⟩
    · rcases ht with rfl | ⟨t'', rfl⟩
      · cases htail
      · cases htail
        exact (hlost rfl h).elim
    · have hle := ih hstate (fun d hd => hw d (by simp [hd])) rfl h
      rw [List.length_cons]
      omega

/-- A run of characters that comes out in full holds no quotes. -/
theorem plain_of_scan {w t : List UInt8} (hw : Unbroken w) (ht : Break t)
    {more : List (List UInt8)} {cur : List UInt8}
    (h : scan behind .char cur (w ++ t) = (cur ++ w) :: more)
    (hmore : t.countP isBlank ≤ more.length) : Plain w := by
  induction w generalizing cur with
  | nil => exact fun _ hc => absurd hc List.not_mem_nil
  | cons c w ih =>
    have hblank := hw c (by simp)
    have hrest : Unbroken w := fun d hd => hw d (by simp [hd])
    -- behind an opening quote at most the rest of the run comes out
    have hshort : ∀ q : Quote,
        scan behind (.quoted q) cur (w ++ t) = (cur ++ c :: w) :: more → False := by
      intro q hscan
      have hle := scan_head_le (.quoted q) cur (by simp) hrest ht hscan hmore
      rw [List.length_append, List.length_cons] at hle
      omega
    rw [List.cons_append, scan, hblank, if_neg (by simp)] at h
    split at h
    · exact (hshort _ h).elim
    · split at h
      · exact (hshort _ h).elim
      · rename_i hdq hsq
        have hsplit : cur ++ c :: w = cur ++ [c] ++ w := by simp
        rw [hsplit] at h
        intro d hd
        rcases List.mem_cons.mp hd with rfl | hd
        · exact ⟨hblank, hdq, hsq⟩
        · exact ih hrest h d hd

/-- The blanks of a command tail are the ones in front of the arguments. -/
theorem countP_tailText {argv : List (List UInt8)} (h : ∀ a ∈ argv, Unbroken a) :
    (tailText argv).countP isBlank = argv.length := by
  induction argv with
  | nil => rfl
  | cons arg argv ih =>
    have hquoted : (quoted arg).countP isBlank = 0 := by
      rw [List.countP_eq_zero]
      unfold quoted
      split
      · decide +kernel
      · intro c hc
        simp [h arg (by simp) c hc]
    have hblank : isBlank blank = true := rfl
    rw [tailText_cons, List.cons_append, List.countP_cons_of_pos hblank, List.countP_append,
      hquoted, ih (fun a ha => h a (by simp [ha])), List.length_cons, Nat.zero_add]

/-! ### The round trip -/

/-- The arguments that a command tail can carry, `behind` being the byte behind it. -/
structure Carried (behind : UInt8) (argv : List (List UInt8)) : Prop where
  plain : ∀ a ∈ argv, Plain a
  last : argv.getLast? = some [] → behind ≠ quote

theorem carried_cons {arg : List UInt8} {argv : List (List UInt8)}
    (h : arg ≠ [] ∨ argv ≠ []) :
    Carried behind (arg :: argv) ↔ Plain arg ∧ Carried behind argv := by
  have hlast : (arg :: argv).getLast? = some [] ↔ argv.getLast? = some [] := by
    cases argv with
    | nil =>
      have harg : arg ≠ [] := h.resolve_right (fun hne => hne rfl)
      simp [harg]
    | cons b argv => rw [List.getLast?_cons_cons]
  constructor
  · rintro ⟨hplain, hquote⟩
    refine ⟨hplain arg (by simp), fun a ha => hplain a (by simp [ha]), ?_⟩
    intro hend
    exact hquote (hlast.mpr hend)
  · rintro ⟨harg, hplain, hquote⟩
    constructor
    · intro a ha
      rcases List.mem_cons.mp ha with rfl | ha
      · exact harg
      · exact hplain a ha
    · intro hend
      exact hquote (hlast.mp hend)

theorem carried_singleton_nil : Carried behind [[]] ↔ behind ≠ quote := by
  constructor
  · intro h
    exact h.last rfl
  · intro h
    constructor
    · intro a ha c hc
      rw [List.mem_singleton.mp ha] at hc
      cases hc
    · intro _
      exact h

theorem scan_bl_tailText (arg : List UInt8) (argv : List (List UInt8)) :
    scan behind .bl [] (tailText (arg :: argv)) =
      scan behind .bl [] (quoted arg ++ tailText argv) := by
  have hblank : isBlank blank = true := rfl
  rw [tailText_cons, List.cons_append, scan, if_pos hblank]

/-- An empty argument comes back unless a quote follows at once. -/
theorem scan_quotes (t : List UInt8) :
    scan behind .bl [] (quoted [] ++ t) =
      if t.headD behind = quote then scan behind (.quoted .sq) [quote] (t.drop 2)
      else scan behind .char [] t := by
  have hblank : isBlank quote = false := rfl
  have hdq : quote ≠ Quote.dq.mark := by decide
  have hsq : quote = Quote.sq.mark := rfl
  have hquotes : quoted [] ++ t = quote :: quote :: t := rfl
  rw [hquotes, scan, hblank, if_neg (by simp), scan, hblank, if_neg (by simp), if_neg hdq,
    if_pos hsq, scan, if_pos hsq, ← hsq]
  by_cases hnext : t.headD behind = quote
  · rw [if_neg (fun hne => hne hnext), if_pos hnext]
    rfl
  · rw [if_pos hnext, if_neg hnext]

/-- An argument that is not empty comes back if it is plain, and only then. -/
theorem scan_arg {arg : List UInt8} (harg : arg ≠ []) (argv : List (List UInt8)) :
    scan behind .bl [] (quoted arg ++ tailText argv) = arg :: argv ↔
      Plain arg ∧ scan behind .bl [] (tailText argv) = argv := by
  have hquoted : quoted arg = arg := if_neg harg
  have hbreak := break_tailText argv
  have hstart : Unbroken arg →
      scan behind .bl [] (arg ++ tailText argv) = scan behind .char [] (arg ++ tailText argv) := by
    intro hw
    obtain ⟨c, w, rfl⟩ := List.exists_cons_of_ne_nil harg
    rw [List.cons_append, scan, hw c (by simp), if_neg (by simp)]
  have hend : Plain arg → scan behind .char [] (arg ++ tailText argv) =
      arg :: scan behind .bl [] (tailText argv) := by
    intro hplain
    rw [scan_plain hplain, scan_break hbreak, List.nil_append]
  rw [hquoted]
  constructor
  · intro h
    have hunbroken := @scan_unbroken behind .bl [] (arg ++ tailText argv) (fun _ hc => absurd hc List.not_mem_nil)
    rw [h] at hunbroken
    have hw := hunbroken arg (by simp)
    have hcount : (tailText argv).countP isBlank = argv.length :=
      countP_tailText fun a ha => hunbroken a (by simp [ha])
    rw [hstart hw] at h
    have hplain : Plain arg := plain_of_scan hw hbreak h (Nat.le_of_eq hcount)
    rw [hend hplain] at h
    exact ⟨hplain, (List.cons.inj h).2⟩
  · rintro ⟨hplain, hrest⟩
    rw [hstart fun c hc => (hplain c hc).1, hend hplain, hrest]

/-- The arguments come back from their command tail exactly when it can carry them. -/
theorem scan_tailText (argv : List (List UInt8)) :
    scan behind .bl [] (tailText argv) = argv ↔ Carried behind argv := by
  induction argv with
  | nil =>
    have hcarried : Carried behind [] := ⟨by simp, by simp⟩
    simp [scan, hcarried]
  | cons arg argv ih =>
    rw [scan_bl_tailText]
    by_cases harg : arg = []
    · subst harg
      rw [scan_quotes]
      cases argv with
      | nil =>
        rw [carried_singleton_nil, tailText_nil, List.headD_nil, List.drop_nil]
        by_cases hquote : behind = quote
        · simp [hquote, scan]
        · simp [hquote, scan]
      | cons b argv =>
        have hnext : (tailText (b :: argv)).headD behind ≠ quote := by
          rw [tailText_cons, List.cons_append, List.headD_cons]
          decide
        rw [if_neg hnext, scan_break (break_tailText _), carried_cons (Or.inr (by simp)), ← ih,
          List.cons_inj_right]
        have hplain : Plain [] := fun _ hc => absurd hc List.not_mem_nil
        simp [hplain]
    · rw [scan_arg harg, ih, carried_cons (Or.inl harg)]

theorem zero_notMem_tailText {argv : List (List UInt8)} (h : ∀ a ∈ argv, 0 ∉ a) :
    0 ∉ tailText argv := by
  unfold tailText
  intro hmem
  obtain ⟨arg, harg, hzero⟩ := List.mem_flatMap.mp hmem
  rcases List.mem_cons.mp hzero with hblank | hquoted
  · exact absurd hblank (by decide)
  · unfold quoted at hquoted
    split at hquoted
    · exact absurd hquoted (by decide)
    · exact h arg harg hquoted

/-- **The command tail carries plain arguments, and nothing else.**  For every command
    line that `BuildTosArglist` does not cut off, `parse_cmdline` gives back the arguments
    behind `argv[0]` if and only if none of them contains a blank, a tab, a line end or a
    quote, and no quote happens to stand behind a tail whose last argument is empty. -/
theorem tail_round_trip {args env e : UInt32} {argv : List (List UInt8)} {m m' : Memory}
    (hargv : IsArgv argv) (hargs : args.toNat + 128 ≤ env.toNat)
    (henv : env.toNat ≤ 0x1000000)
    (hbuild : buildTosArglist args argv env m = Except.ok (e, m'))
    (hshort : m' args.toNat < 127) :
    (∃ p, parseCmdline args m' = Except.ok p ∧ p.args = Except.ok argv.tail) ↔
      Carried (m (args.toNat + 1 + (tailText argv.tail).length)) argv.tail := by
  obtain ⟨m₁, hholds, hspec⟩ := buildTosArglist_spec m hargv.count hargs henv
  obtain ⟨-, hresult⟩ := (hspec _).mp hbuild
  obtain ⟨rfl, rfl⟩ := Prod.mk.inj hresult
  -- the strings are written behind the tail
  have hbelow : ∀ x < env.toNat,
      write m₁ env.toNat (pack (argvEntry m env.toNat argv :: argv.map shown)) x = m₁ x :=
    fun x hx => write_outside m₁ (Or.inl hx)
  rw [hbelow _ (by omega)] at hshort
  have hlength := hholds.length_byte
  have hwhole : (tailText argv.tail).length ≤ 125 := by
    apply Classical.byContradiction
    intro hlong
    rw [hlength, if_neg hlong] at hshort
    revert hshort
    decide
  rw [if_pos hwhole] at hlength
  have htext : Shows m₁ (args.toNat + 1) (tailText argv.tail) := by
    cases hholds with
    | whole _ => exact (shows_cons.mp (shows_write m args.toNat _)).2
    | cut hlong _ _ => omega
  have hbehind : m₁ (args.toNat + 1 + (tailText argv.tail).length) =
      m (args.toNat + 1 + (tailText argv.tail).length) := by
    cases hholds with
    | whole _ =>
      apply write_outside
      rw [List.length_cons]
      omega
    | cut hlong _ _ => omega
  have hnul : 0 ∉ tailText argv.tail :=
    zero_notMem_tailText fun a ha => hargv.strings a (List.mem_of_mem_tail ha)
  generalize hm' : write m₁ env.toNat _ = m' at hbelow
  obtain ⟨p, hp, hpargs⟩ := @parseCmdline_scan args m' (tailText argv.tail)
    (by rw [hbelow _ (by omega), hlength]; simp; omega)
    (htext.congr fun x _ hx => hbelow x (by omega)) hnul
    (fun i hi => mapped_of_lt (by omega))
  rw [hbelow _ (by omega), hbehind] at hpargs
  rw [← scan_tailText]
  constructor
  · rintro ⟨p', hp', hargs'⟩
    obtain rfl := Run.ok_inj.mp (hp.symm.trans hp')
    exact Run.ok_inj.mp (hpargs.symm.trans hargs')
  · intro hscan
    rw [hscan] at hpargs
    exact ⟨p, hp, hpargs⟩

/-- The tail that `BuildTosArglist` writes for a command line into fresh memory, where
    `LoadExe` has it write the first one, and what `parse_cmdline` makes of it. -/
def throughTail (argv : List (List UInt8)) : Run (UInt8 × List (List UInt8)) := do
  let (_, m) ← buildTosArglist 0x10880 argv 0x10904 initM68KMemory
  let p ← parseCmdline 0x10880 m
  let args ← p.args
  return (m 0x10880, args)

theorem throughTail_eq_ok {argv : List (List UInt8)} {length : UInt8}
    {args : List (List UInt8)} (h : throughTail argv = Except.ok (length, args)) :
    ∃ e m', buildTosArglist 0x10880 argv 0x10904 initM68KMemory = Except.ok (e, m') ∧
      m' 0x10880 = length ∧ ∃ p, parseCmdline 0x10880 m' = Except.ok p ∧
        p.args = Except.ok args := by
  unfold throughTail at h
  obtain ⟨⟨e, m'⟩, hbuild, h⟩ := Run.bind_eq_ok.mp h
  obtain ⟨p, hp, h⟩ := Run.bind_eq_ok.mp h
  obtain ⟨args', hargs, h⟩ := Run.bind_eq_ok.mp h
  obtain ⟨rfl, rfl⟩ := Prod.mk.inj (Run.ok_inj.mp h)
  exact ⟨e, m', hbuild, rfl, p, hp, hargs⟩

/-- Two plain arguments and an empty one make the round trip. -/
theorem tail_round_trip_plain : ∃ e m',
    buildTosArglist 0x10880 [ascii "p.tos", ascii "-o", [], ascii "file"] 0x10904 initM68KMemory =
        Except.ok (e, m') ∧
      ∃ p, parseCmdline 0x10880 m' = Except.ok p ∧
        p.args = Except.ok [ascii "-o", [], ascii "file"] := by
  have hrun : throughTail [ascii "p.tos", ascii "-o", [], ascii "file"] =
      Except.ok (11, [ascii "-o", [], ascii "file"]) := by
    decide +kernel
  obtain ⟨e, m', hbuild, hlength, -⟩ := throughTail_eq_ok hrun
  have hargv : IsArgv [ascii "p.tos", ascii "-o", [], ascii "file"] := by
    constructor <;> decide
  refine ⟨e, m', hbuild, ?_⟩
  apply (tail_round_trip hargv (by decide) (by decide) hbuild ?_).mpr
  · constructor <;> decide +kernel
  · have hargs : (0x10880 : UInt32).toNat = 0x10880 := rfl
    rw [hargs, hlength]
    decide

/-- An argument with a blank in it comes back as two. -/
theorem blank_splits : ∃ e m',
    buildTosArglist 0x10880 [ascii "p.tos", ascii "a b"] 0x10904 initM68KMemory =
        Except.ok (e, m') ∧
      m' 0x10880 < 127 ∧
      ¬ ∃ p, parseCmdline 0x10880 m' = Except.ok p ∧ p.args = Except.ok [ascii "a b"] := by
  have hrun : throughTail [ascii "p.tos", ascii "a b"] =
      Except.ok (4, [ascii "a", ascii "b"]) := by
    decide +kernel
  obtain ⟨e, m', hbuild, hlength, p, hp, hargs⟩ := throughTail_eq_ok hrun
  refine ⟨e, m', hbuild, ?_, ?_⟩
  · rw [hlength]
    decide
  · rintro ⟨p', hp', hargs'⟩
    obtain rfl := Run.ok_inj.mp (hp.symm.trans hp')
    exact absurd (Run.ok_inj.mp (hargs.symm.trans hargs')) (by decide +kernel)

end ParaTos.CommandLine
