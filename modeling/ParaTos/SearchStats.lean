/-
  ParaTos/SearchStats.lean
  ========================
  **Where the data of a report come from.**

  The loop of `Fsnext` has one `fileStat` for all entries, and does not look at what
  `fstatat` returns.  Where it fails, as for a symbolic link that leads nowhere, the entry
  is judged and reported by what is there from before: the data of another entry, or
  whatever the variable started with.

  `sourced_iff` says for which directories no call reports such data.
-/
import ParaTos.SearchEnumeration

namespace ParaTos.FileSearch

open Bytes CString Filename Loader Memory Streams
open Wild (Setting passes)

namespace Calls

/-! ### What is in `fileStat` -/

/-- The call of `Fsnext` that goes on, and its `fileStat`. -/
abbrev Progress := Nat × Stat

section Progress

variable (uppercase : Bool) (priv : DTAPrivate) (unset : Nat → Stat)

/-- Behind an entry that was examined, `fileStat` has its data, or the next call has begun
    because the entry was reported. -/
def next (x : Progress) (entry : Entry) : Progress :=
  if candidate uppercase priv entry then
    match entry.stat with
    | none => x
    | some st =>
      if passes priv.attr entry.name st then (x.1 + 1, unset (x.1 + 1)) else (x.1, st)
  else x

/-- No entry that cannot be examined passes the mask with what `fileStat` has by then: the
    data of the last entry that the same call has examined, or what its variable started
    with.  A search without wildcards does not get past the first entry that passes. -/
def Covered (x : Progress) (entries : List Entry) : Prop :=
  ∀ pre entry post, entries = pre ++ entry :: post →
    candidate uppercase priv entry = true → entry.stat = none →
    (priv.glob = true ∨ ∀ e ∈ pre, accepted uppercase priv e = false) →
    passes priv.attr entry.name (pre.foldl (next uppercase priv unset) x).2 = false

end Progress

section Covered

variable {uppercase : Bool} {priv : DTAPrivate} {unset : Nat → Stat} {x : Progress}
  {entry : Entry} {entries left : List Entry}

theorem covered_nil : Covered uppercase priv unset x [] := by
  intro pre entry post hsplit
  cases pre <;> cases hsplit

theorem covered_cons : Covered uppercase priv unset x (entry :: entries) ↔
    (candidate uppercase priv entry = true → entry.stat = none →
      passes priv.attr entry.name x.2 = false) ∧
    (priv.glob = true ∨ accepted uppercase priv entry = false →
      Covered uppercase priv unset (next uppercase priv unset x entry) entries) := by
  constructor
  · intro h
    refine ⟨fun hcand hstat => h [] entry entries rfl hcand hstat (Or.inr (by simp)), ?_⟩
    intro hfirst pre e post hsplit hcand hstat hpre
    refine h (entry :: pre) e post (by rw [hsplit]; rfl) hcand hstat ?_
    rcases hpre with hglob | hpre
    · exact Or.inl hglob
    · rcases hfirst with hglob | hfirst
      · exact Or.inl hglob
      · exact Or.inr (List.forall_mem_cons.mpr ⟨hfirst, hpre⟩)
  · rintro ⟨hhead, htail⟩ pre e post hsplit hcand hstat hpre
    cases pre with
    | nil =>
      cases hsplit
      exact hhead hcand hstat
    | cons d pre =>
      cases hsplit
      rcases hpre with hglob | hpre
      · exact htail (Or.inl hglob) pre e post rfl hcand hstat (Or.inl hglob)
      · obtain ⟨hd, hpre⟩ := List.forall_mem_cons.mp hpre
        exact htail (Or.inr hd) pre e post rfl hcand hstat (Or.inr hpre)

/-- An entry that is passed over. -/
theorem covered_skip (hcand : candidate uppercase priv entry = false) :
    Covered uppercase priv unset x (entry :: entries) ↔
      Covered uppercase priv unset x entries := by
  have hnext : next uppercase priv unset x entry = x := by simp [next, hcand]
  have haccepted : accepted uppercase priv entry = false := by simp [accepted, hcand]
  rw [covered_cons, hnext]
  simp [hcand, haccepted]

/-- One that cannot be examined. -/
theorem covered_unexamined (hcand : candidate uppercase priv entry = true)
    (hstat : entry.stat = none) :
    Covered uppercase priv unset x (entry :: entries) ↔
      passes priv.attr entry.name x.2 = false ∧ Covered uppercase priv unset x entries := by
  have hnext : next uppercase priv unset x entry = x := by simp [next, hcand, hstat]
  have haccepted : accepted uppercase priv entry = false := by simp [accepted, hstat]
  rw [covered_cons, hnext]
  simp [hcand, hstat, haccepted]

/-- One that was examined and reported. -/
theorem covered_reported (hcand : candidate uppercase priv entry = true) {st : Stat}
    (hstat : entry.stat = some st) (hpasses : passes priv.attr entry.name st = true) :
    Covered uppercase priv unset x (entry :: entries) ↔
      (priv.glob = true → Covered uppercase priv unset (x.1 + 1, unset (x.1 + 1)) entries) := by
  have hnext : next uppercase priv unset x entry = (x.1 + 1, unset (x.1 + 1)) := by
    simp [next, hcand, hstat, hpasses]
  have haccepted : accepted uppercase priv entry = true := by
    simp [accepted, hcand, hstat, hpasses]
  rw [covered_cons, hnext]
  simp [hstat, haccepted]

/-- One that was examined and turned down. -/
theorem covered_rejected (hcand : candidate uppercase priv entry = true) {st : Stat}
    (hstat : entry.stat = some st) (hpasses : passes priv.attr entry.name st = false) :
    Covered uppercase priv unset x (entry :: entries) ↔
      Covered uppercase priv unset (x.1, st) entries := by
  have hnext : next uppercase priv unset x entry = (x.1, st) := by
    simp [next, hcand, hstat, hpasses]
  have haccepted : accepted uppercase priv entry = false := by simp [accepted, hstat, hpasses]
  rw [covered_cons, hnext]
  simp [hstat, haccepted]

/-- What one call does about it. -/
theorem scan_covered (unset : Nat → Stat) (x : Progress) (entries : List Entry) :
    ((scan uppercase priv x.2 entries).1 = none → Covered uppercase priv unset x entries) ∧
    ∀ hit left, scan uppercase priv x.2 entries = (some hit, left) →
      (hit.entry.stat = none → ¬ Covered uppercase priv unset x entries) ∧
      ∀ st, hit.entry.stat = some st → hit = hitWith uppercase hit.entry st ∧
        (Covered uppercase priv unset x entries ↔
          (priv.glob = true → Covered uppercase priv unset (x.1 + 1, unset (x.1 + 1)) left)) := by
  induction entries generalizing x with
  | nil =>
    refine ⟨fun _ => covered_nil, ?_⟩
    intro hit left h
    cases h
  | cons entry rest ih =>
    rw [scan, tryEntry_eq]
    cases hcand : candidate uppercase priv entry with
    | false =>
      rw [covered_skip hcand]
      exact ih x
    | true =>
      cases hstat : entry.stat with
      | none =>
        rw [covered_unexamined hcand hstat]
        simp only [if_true, Option.getD_none]
        cases hpasses : passes priv.attr entry.name x.2 with
        | false =>
          simp only [Bool.false_eq_true, if_false, true_and]
          exact ih x
        | true =>
          simp only [if_true]
          constructor
          · intro h
            cases h
          · intro hit left h
            cases h
            refine ⟨fun _ hcovered => Bool.noConfusion hcovered.1, ?_⟩
            intro st hst
            rw [hitWith, hstat] at hst
            cases hst
      | some st =>
        simp only [if_true, Option.getD_some]
        cases hpasses : passes priv.attr entry.name st with
        | false =>
          rw [covered_rejected hcand hstat hpasses]
          simp only [Bool.false_eq_true, if_false]
          exact ih (x.1, st)
        | true =>
          rw [covered_reported hcand hstat hpasses]
          simp only [if_true]
          constructor
          · intro h
            cases h
          · intro hit left h
            cases h
            constructor
            · intro hnone
              rw [hitWith, hstat] at hnone
              cases hnone
            · intro st' hst'
              rw [hitWith, hstat] at hst'
              cases hst'
              exact ⟨rfl, Iff.rfl⟩

end Covered

/-! ### Reports -/

section Process

variable (currentProcess : UInt32) (localtime : Int64 → Tm) (unset : Nat → Stat) (q : Search)

/-- The call that answered `r` and the `n` calls of `Fsnext` behind it describe an entry by
    its own data, whenever they answer `TOS_E_OK`. -/
def Sourced : Nat → Nat → Int32 → State → Prop
  | 0, _, r, s => r = Mem.tosEOk → ∃ entry, Describes localtime q s entry
  | n + 1, k, r, s => (r = Mem.tosEOk → ∃ entry, Describes localtime q s entry) ∧
    ∀ m, LeftAlone currentProcess q s.memory m →
      ∃ r' t, fsnext currentProcess localtime (unset k) { s with memory := m } =
        Except.ok (r', t) ∧ Sourced n (k + 1) r'.toInt32 t

end Process

section Calls

variable {currentProcess : UInt32} {localtime : Int64 → Tm} {unset : Nat → Stat} {q : Search}
  {s : State} {pre rest : List Entry} {n k : Nat} {r : Int32}

theorem Sourced.first (h : Sourced currentProcess localtime unset q n k r s)
    (hr : r = Mem.tosEOk) : ∃ entry, Describes localtime q s entry := by
  cases n with
  | zero => exact h hr
  | succ n => exact h.1 hr

theorem Done.sourced (h : Done currentProcess q s) (hr : r ≠ Mem.tosEOk) :
    Sourced currentProcess localtime unset q n k r s := by
  induction n generalizing s k r with
  | zero => exact fun hok => absurd hok hr
  | succ n ih =>
    refine ⟨fun hok => absurd hok hr, ?_⟩
    intro m hm
    exact ⟨_, _, (h.leftAlone hm).call, ih (h.leftAlone hm) (by decide)⟩

/-- Behind a report that is right, the rest of the search. -/
theorem sourced_behind (hdescribes : ∃ entry, Describes localtime q s entry)
    (hends : q.cell.val.glob = false → Done currentProcess q s)
    (hgoes : q.cell.val.glob = true → ∀ m, LeftAlone currentProcess q s.memory m →
      ∀ i, i + 1 = n → ∃ r' t, fsnext currentProcess localtime (unset k) { s with memory := m } =
        Except.ok (r', t) ∧ Sourced currentProcess localtime unset q i (k + 1) r'.toInt32 t) :
    Sourced currentProcess localtime unset q n k r s := by
  cases n with
  | zero => exact fun _ => hdescribes
  | succ n =>
    refine ⟨fun _ => hdescribes, ?_⟩
    intro m hm
    cases hglob : q.cell.val.glob with
    | true => exact hgoes hglob m hm n rfl
    | false =>
      have hdone := (hends hglob).leftAlone hm
      exact ⟨_, _, hdone.call, hdone.sourced (by decide)⟩

theorem leftAlone_refl (m : Memory) : LeftAlone currentProcess q m m :=
  ⟨fun _ _ => rfl, fun _ _ => rfl, fun _ _ => rfl⟩

/-- **The calls of `Fsnext` report own data only**, exactly if none has to fall back on
    others. -/
theorem Ongoing.sourced_iff (h : Ongoing currentProcess q s pre rest) :
    (∀ n, ∃ r t, fsnext currentProcess localtime (unset k) s = Except.ok (r, t) ∧
      Sourced currentProcess localtime unset q n (k + 1) r.toInt32 t) ↔
      Covered (q.domain = 0) q.cell.val unset (k, unset k) rest := by
  -- each report leaves fewer entries
  induction hlen : rest.length using Nat.strong_induction_on generalizing s pre rest k with
  | _ len ih =>
  obtain ⟨hnone, hsome⟩ := @scan_covered (q.domain = 0) q.cell.val unset (k, unset k) rest
  rcases @Ongoing.call currentProcess localtime q s pre rest (unset k) h with
    ⟨hscan, t, hrun, hdone⟩ | ⟨hit, mid, left, t, hscan, hrest, hrun, hholds, hgoes, hends⟩
  · exact iff_of_true (fun n => ⟨_, t, hrun, hdone.sourced (by decide)⟩) (hnone hscan)
  · obtain ⟨hstale, hown⟩ := hsome hit left hscan
    cases hstat : hit.entry.stat with
    | none =>
      refine iff_of_false ?_ (hstale hstat)
      intro hall
      obtain ⟨r, t', hrun', hsourced⟩ := hall 0
      rw [hrun] at hrun'
      cases hrun'
      obtain ⟨entry, hdescribes⟩ := hsourced.first (by decide)
      have heq := hholds.last.symm.trans hdescribes.last
      obtain ⟨st, hst, -⟩ := hdescribes.data
      rw [← Option.some.inj heq, hstat] at hst
      cases hst
    | some st =>
      obtain ⟨hhit, hcovered⟩ := hown st hstat
      rw [hhit] at hholds
      have hdescribes := hholds.describes hstat
      rw [hcovered]
      have hshorter : left.length < len := by
        rw [← hlen, hrest, List.length_append, List.length_cons]
        omega
      constructor
      · intro hall hglob
        refine (ih left.length hshorter (hgoes hglob) rfl).mp ?_
        intro n
        obtain ⟨r, t', hrun', hsourced⟩ := hall (n + 1)
        rw [hrun] at hrun'
        cases hrun'
        exact hsourced.2 t.memory (leftAlone_refl _)
      · intro hleft n
        refine ⟨_, t, hrun, sourced_behind ⟨_, hdescribes⟩ hends ?_⟩
        intro hglob m hm i _
        have hnext := (hgoes hglob).leftAlone hm
        exact (ih left.length hshorter hnext rfl).mpr (hleft hglob) i

end Calls

/-! ### The whole search -/

section Search

variable {currentProcess : UInt32} {s : State} {b domain : UInt32} {priv dirh : UInt64}
  {path : List UInt8} {found : List UInt8 → Option (UInt64 × List Entry)} {entries : List Entry}

/-- `Fsfirst` reports what its call of `Fsnext` does. -/
theorem fsfirst_sourced (hset : Setting currentProcess s.memory b domain)
    (hpriv : priv ≠ 0) (hdirh : dirh ≠ 0)
    (hfound : found (splitPath path).1 = some (dirh, entries)) (localtime : Int64 → Tm)
    (attr : Int16) (unset : Nat → Stat) (n : Nat) :
    let q := searchOf s b domain priv (recordOf path attr dirh) entries
    (∃ r t, fsfirst currentProcess localtime (some path) attr priv found (unset 0) s =
        Except.ok (r, t) ∧ Sourced currentProcess localtime unset q n 1 r t) ↔
      ∃ r t, fsnext currentProcess localtime (unset 0)
          (begun priv (recordOf path attr dirh) entries b s) = Except.ok (r, t) ∧
        Sourced currentProcess localtime unset q n 1 r.toInt32 t := by
  intro q
  have hbegun := @ongoing_begun currentProcess s b domain priv entries hset hpriv
    (recordOf path attr dirh) hdirh
  obtain ⟨r, t, m, left, _, -, hnext, -⟩ := hbegun.searching.fsnext localtime (unset 0)
  have hfirst := fsfirst_call hset hfound hnext
  -- the answers differ in the code of an error only
  have hsame : Sourced currentProcess localtime unset q n 1
      (if r = tosEnmfil.toInt16 then tosEfilnf else r.toInt32) t ↔
      Sourced currentProcess localtime unset q n 1 r.toInt32 t := by
    have hok : (if r = tosEnmfil.toInt16 then tosEfilnf else r.toInt32) = Mem.tosEOk ↔
        r.toInt32 = Mem.tosEOk := by
      by_cases hr : r = tosEnmfil.toInt16
      · rw [if_pos hr, hr]
        decide
      · rw [if_neg hr]
    cases n with
    | zero => exact imp_congr_left hok
    | succ n => exact and_congr_left' (imp_congr_left hok)
  constructor
  · rintro ⟨r', t', hrun, hsourced⟩
    rw [hfirst] at hrun
    cases hrun
    exact ⟨r, t, hnext, hsame.mp hsourced⟩
  · rintro ⟨r', t', hrun, hsourced⟩
    rw [hnext] at hrun
    cases hrun
    exact ⟨_, t, hfirst, hsame.mpr hsourced⟩

/-- **When the data of a report are its entry's own**: exactly if no entry that `fstatat`
    cannot examine passes the mask with what its call has in `fileStat` by then. -/
theorem stats_iff (hset : Setting currentProcess s.memory b domain) (hpriv : priv ≠ 0)
    (hdirh : dirh ≠ 0) (hfound : found (splitPath path).1 = some (dirh, entries))
    (localtime : Int64 → Tm) (attr : Int16) (unset : Nat → Stat) :
    (∀ n, ∃ r t, fsfirst currentProcess localtime (some path) attr priv found (unset 0) s =
        Except.ok (r, t) ∧
      Sourced currentProcess localtime unset
        (searchOf s b domain priv (recordOf path attr dirh) entries) n 1 r t) ↔
      Covered (domain = 0) (recordOf path attr dirh) unset (0, unset 0) entries := by
  have hbegun := @ongoing_begun currentProcess s b domain priv entries hset hpriv
    (recordOf path attr dirh) hdirh
  have hcalls := @Ongoing.sourced_iff currentProcess localtime unset _ _ _ _ 0 hbegun
  exact (forall_congr' (fsfirst_sourced hset hpriv hdirh hfound localtime attr unset)).trans hcalls

end Search

/-! ### A link that leads nowhere -/

/-- A hidden file, which the mask 0 turns down, and a link to nothing. -/
def hiddenAndLink : List Entry := [⟨ascii ".a", some ⟨0o100644, 5, 0⟩⟩, ⟨ascii "b", none⟩]

/-- Where every entry can be examined, nothing has to be covered. -/
theorem stats_iff_oneFile :
    ∃ r t, fsfirst 0x10800 Runs.noTime (some (ascii "*.*")) 0 0x5000
        (fun _ => some (0x7000, Wild.oneFile)) ⟨0, 0, 0⟩ Runs.launched = Except.ok (r, t) ∧
      Sourced 0x10800 Runs.noTime (fun _ => ⟨0, 0, 0⟩)
        (searchOf Runs.launched 0x10880 0 0x5000 (recordOf (ascii "*.*") 0 0x7000) Wild.oneFile)
        2 1 r t := by
  have hstats := Wild.oneFile_stats
  refine (@stats_iff 0x10800 Runs.launched 0x10880 0 0x5000 0x7000 (ascii "*.*")
    (fun _ => some (0x7000, Wild.oneFile)) Wild.oneFile Wild.launched_setting (by decide)
    (by decide) rfl Runs.noTime 0 fun _ => ⟨0, 0, 0⟩).mpr ?_ 2
  intro pre entry post hsplit _ hstat
  exact absurd hstat (hstats entry (by rw [hsplit]; simp))

/-- The link is reported with the data of the hidden file. -/
theorem stale_stat_reported :
    ¬ ∀ n, ∃ r t, fsfirst 0x10800 Runs.noTime (some (ascii "*.*")) 0 0x5000
        (fun _ => some (0x7000, hiddenAndLink)) ⟨0, 0, 0⟩ Runs.launched = Except.ok (r, t) ∧
      Sourced 0x10800 Runs.noTime (fun _ => ⟨0, 0, 0⟩)
        (searchOf Runs.launched 0x10880 0 0x5000 (recordOf (ascii "*.*") 0 0x7000) hiddenAndLink)
        n 1 r t := by
  intro hall
  have hbegun := @ongoing_begun 0x10800 Runs.launched 0x10880 0 0x5000 hiddenAndLink
    Wild.launched_setting (by decide) (recordOf (ascii "*.*") 0 0x7000) (by decide)
  have hfirst := @fsfirst_sourced 0x10800 Runs.launched 0x10880 0 0x5000 0x7000 (ascii "*.*")
    (fun _ => some (0x7000, hiddenAndLink)) hiddenAndLink Wild.launched_setting (by decide)
    (by decide) rfl Runs.noTime 0 (fun _ => ⟨0, 0, 0⟩)
  have hcovered := (@Ongoing.sourced_iff 0x10800 Runs.noTime (fun _ => ⟨0, 0, 0⟩) _ _ _ _ 0
    hbegun).mp fun n => (hfirst n).mp (hall n)
  have hlink := hcovered [⟨ascii ".a", some ⟨0o100644, 5, 0⟩⟩] ⟨ascii "b", none⟩ [] rfl
    (by decide +kernel) rfl (Or.inl (by decide))
  revert hlink
  decide +kernel

end Calls

end ParaTos.FileSearch
