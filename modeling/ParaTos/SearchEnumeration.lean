/-
  ParaTos/SearchEnumeration.lean
  ==============================
  **What a search reports.**

  In a directory whose entries can all be examined, `Fsfirst` and the calls of `Fsnext`
  behind it go through the entries in the order of the stream and report those that pass
  their tests: all of them in a search with wildcards, and the first one otherwise.  Then
  they answer with an error, for good.
-/
import ParaTos.SearchCalls

namespace ParaTos.FileSearch

open Bytes CString Filename Loader Memory Streams
open Wild (Setting hitOf isListed passes)

namespace Calls

/-! ### The entries that pass -/

/-- The tests that `Fsnext` makes before `fstatat`: a search with wildcards passes over `.`
    and `..`, and the pattern is empty or is the name or the 8.3 name up to case. -/
def candidate (uppercase : Bool) (priv : DTAPrivate) (entry : Entry) : Bool :=
  (!priv.glob || isListed entry) &&
    matchesPattern priv.pattern entry.name (filename83 uppercase entry.name).1

/-- All of its tests: the mask has all attributes of the entry, too. -/
def accepted (uppercase : Bool) (priv : DTAPrivate) (entry : Entry) : Bool :=
  candidate uppercase priv entry && entry.stat.any (passes priv.attr entry.name)

/-- What the search is to report. -/
def expected (uppercase : Bool) (priv : DTAPrivate) (entries : List Entry) : List Entry :=
  let passing := entries.filter (accepted uppercase priv)
  if priv.glob then passing else passing.take 1

section Scan

variable {uppercase : Bool} {priv : DTAPrivate} {fileStat : Stat} {entry : Entry}
  {entries : List Entry}

/-- What `Fsnext` breaks with at an entry, if `fileStat` holds `st`. -/
def hitWith (uppercase : Bool) (entry : Entry) (st : Stat) : Hit :=
  ⟨entry, (filename83 uppercase entry.name).1, attributes entry.name st, st⟩

/-- One round of the loop. -/
theorem tryEntry_eq : tryEntry uppercase priv fileStat entry =
    if candidate uppercase priv entry = true then
      let st := entry.stat.getD fileStat
      if passes priv.attr entry.name st = true then (some (hitWith uppercase entry st), st)
      else (none, st)
    else (none, fileStat) := Wild.tryEntry_passes uppercase priv fileStat entry

/-- The loop breaks at an entry that passes, and goes on behind any other. -/
theorem tryEntry_stat {st : Stat} (hstat : entry.stat = some st) :
    (accepted uppercase priv entry = true →
      tryEntry uppercase priv fileStat entry = (some (hitWith uppercase entry st), st)) ∧
    (accepted uppercase priv entry = false →
      ∃ fileStat', tryEntry uppercase priv fileStat entry = (none, fileStat')) := by
  rw [tryEntry_eq, accepted, hstat, Option.any_some, Option.getD_some]
  dsimp only
  cases candidate uppercase priv entry with
  | false => exact ⟨fun h => absurd h Bool.false_ne_true, fun _ => ⟨fileStat, rfl⟩⟩
  | true =>
    cases passes priv.attr entry.name st with
    | false => exact ⟨fun h => absurd h Bool.false_ne_true, fun _ => ⟨st, rfl⟩⟩
    | true => exact ⟨fun _ => rfl, fun h => absurd h.symm Bool.false_ne_true⟩

/-- The loop stops at the first entry that passes. -/
theorem scan_accepted (hstats : ∀ e ∈ entries, e.stat ≠ none) :
    (entries.filter (accepted uppercase priv) = [] ∧
      (scan uppercase priv fileStat entries).1 = none) ∨
    ∃ mid entry left st, entries = mid ++ entry :: left ∧ entry.stat = some st ∧
      entries.filter (accepted uppercase priv) =
        entry :: left.filter (accepted uppercase priv) ∧
      scan uppercase priv fileStat entries = (some (hitWith uppercase entry st), left) := by
  induction entries generalizing fileStat with
  | nil => exact Or.inl ⟨rfl, rfl⟩
  | cons entry rest ih =>
    obtain ⟨st, hstat⟩ := Option.ne_none_iff_exists'.mp (hstats entry List.mem_cons_self)
    obtain ⟨hbreaks, hgoes⟩ := @tryEntry_stat uppercase priv fileStat entry st hstat
    rw [scan]
    cases hpasses : accepted uppercase priv entry with
    | true =>
      rw [hbreaks hpasses, List.filter_cons_of_pos hpasses]
      exact Or.inr ⟨[], entry, rest, st, rfl, hstat, rfl, rfl⟩
    | false =>
      obtain ⟨fileStat', htry⟩ := hgoes hpasses
      rw [htry, List.filter_cons_of_neg (by rw [hpasses]; exact Bool.false_ne_true)]
      rcases @ih fileStat' fun e he => hstats e (List.mem_cons_of_mem _ he) with
        hnone | ⟨mid, e, left, st', hrest, hst', hfilter, hscan⟩
      · exact Or.inl hnone
      · exact Or.inr ⟨entry :: mid, e, left, st', by rw [hrest]; rfl, hst', hfilter, hscan⟩

end Scan

/-! ### Reports -/

section Process

variable (currentProcess : UInt32) (localtime : Int64 → Tm) (q : Search)

/-- The search is over, and `n` more calls of `Fsnext` answer `TOS_ENMFIL`. -/
def Over : Nat → State → Prop
  | 0, s => Done currentProcess q s
  | n + 1, s => Done currentProcess q s ∧
    ∀ unset m, LeftAlone currentProcess q s.memory m →
      ∃ t, fsnext currentProcess localtime unset { s with memory := m } =
        Except.ok (tosEnmfil.toInt16, t) ∧ Over n t

/-- A call that answered `r` reports the first of the entries, and the calls of `Fsnext`
    behind it the others.  Where no entry is left the answer is the error, and the search
    is over for good; a search without wildcards is so behind its entry. -/
def Enumerates : List Entry → Int32 → Int32 → State → Prop
  | [], error, r, s => r = error ∧ ∀ n, Over currentProcess localtime q n s
  | entry :: entries, _, r, s =>
    r = Mem.tosEOk ∧ Describes localtime q s entry ∧
      if q.cell.val.glob then
        ∀ unset m, LeftAlone currentProcess q s.memory m →
          ∃ r' t, fsnext currentProcess localtime unset { s with memory := m } =
            Except.ok (r', t) ∧ Enumerates entries tosEnmfil r'.toInt32 t
      else entries = [] ∧ ∀ n, Over currentProcess localtime q n s

end Process

section Calls

variable {currentProcess : UInt32} {localtime : Int64 → Tm} {q : Search} {s : State}
  {pre rest : List Entry} {unset : Stat}

theorem Done.over (h : Done currentProcess q s) (n : Nat) :
    Over currentProcess localtime q n s := by
  induction n generalizing s with
  | zero => exact h
  | succ n ih =>
    refine ⟨h, ?_⟩
    intro unset m hm
    exact ⟨_, (h.leftAlone hm).call, ih (h.leftAlone hm)⟩

/-- A hit at an entry that `fstatat` can examine describes it. -/
theorem Holds.describes {entry : Entry} {st : Stat}
    (h : Holds localtime q s (hitWith (q.domain = 0) entry st)) (hstat : entry.stat = some st) :
    Describes localtime q s entry :=
  ⟨h.last, st, hstat, h.data⟩

/-- **The calls report what passes.** -/
theorem Ongoing.enumerates (h : Ongoing currentProcess q s pre rest)
    (hstats : ∀ e ∈ rest, e.stat ≠ none) :
    ∃ r t, fsnext currentProcess localtime unset s = Except.ok (r, t) ∧
      Enumerates currentProcess localtime q (expected (q.domain = 0) q.cell.val rest)
        tosEnmfil r.toInt32 t := by
  -- the induction is on the entries that are to be reported
  generalize hpassing : rest.filter (accepted (q.domain = 0) q.cell.val) = passing
  induction passing generalizing s pre rest unset with
  | nil =>
    have hexpected : expected (q.domain = 0) q.cell.val rest = [] := by
      simp [expected, hpassing]
    rcases @scan_accepted (q.domain = 0) q.cell.val unset rest hstats with
      ⟨-, hscan⟩ | ⟨_, _, _, _, -, -, hfilter, -⟩
    · rcases @Ongoing.call currentProcess localtime q s pre rest unset h with
        ⟨-, t, hrun, hdone⟩ | ⟨hit, _, _, _, hscan', -⟩
      · rw [hexpected]
        exact ⟨_, t, hrun, by decide, hdone.over⟩
      · rw [hscan'] at hscan
        cases hscan
    · rw [hpassing] at hfilter
      cases hfilter
  | cons first passing ih =>
    rcases @scan_accepted (q.domain = 0) q.cell.val unset rest hstats with
      ⟨hnone, -⟩ | ⟨mid, entry, left, st, hrest, hstat, hfilter, hscan⟩
    · rw [hpassing] at hnone
      cases hnone
    · rw [hpassing] at hfilter
      obtain ⟨rfl, hleft⟩ := List.cons.inj hfilter
      rcases @Ongoing.call currentProcess localtime q s pre rest unset h with
        ⟨hnone, -⟩ | ⟨hit, mid', left', t, hscan', hrest', hrun, hholds, hgoes, hends⟩
      · rw [hscan] at hnone
        cases hnone
      · rw [hscan] at hscan'
        cases hscan'
        refine ⟨_, t, hrun, ?_⟩
        have hdescribes := hholds.describes hstat
        by_cases hglob : q.cell.val.glob = true
        · have hexpected : expected (q.domain = 0) q.cell.val rest =
              first :: expected (q.domain = 0) q.cell.val left := by
            simp [expected, hglob, hpassing, hleft]
          rw [hexpected]
          refine ⟨by decide, hdescribes, ?_⟩
          rw [if_pos hglob]
          intro unset' m hm
          have hnext := (hgoes hglob).leftAlone hm
          refine ih hnext ?_ hleft.symm
          intro e he
          exact hstats e (by rw [hrest]; simp [he])
        · have hplain : q.cell.val.glob = false := Bool.not_eq_true _ ▸ hglob
          have hexpected : expected (q.domain = 0) q.cell.val rest = [first] := by
            simp [expected, hplain, hpassing]
          rw [hexpected]
          refine ⟨by decide, hdescribes, ?_⟩
          rw [if_neg hglob]
          exact ⟨rfl, (hends hplain).over⟩

end Calls

/-! ### The whole search -/

section Search

variable {currentProcess : UInt32} {s : State} {b domain : UInt32} {priv dirh : UInt64}
  {path : List UInt8} {found : List UInt8 → Option (UInt64 × List Entry)} {entries : List Entry}

/-- Where `Fsnext` fails, `Fsfirst` answers with its own error. -/
theorem enumerates_first {localtime : Int64 → Tm} {q : Search} {t : State} {r : Int16}
    {reported : List Entry}
    (h : Enumerates currentProcess localtime q reported tosEnmfil r.toInt32 t) :
    Enumerates currentProcess localtime q reported tosEfilnf
      (if r = tosEnmfil.toInt16 then tosEfilnf else r.toInt32) t := by
  cases reported with
  | nil =>
    obtain ⟨hr, hover⟩ := h
    have hfails : r = tosEnmfil.toInt16 := by
      rw [← hr, Int16.toInt16_toInt32]
    rw [if_pos hfails]
    exact ⟨rfl, hover⟩
  | cons entry reported =>
    obtain ⟨hr, hrest⟩ := h
    have hok : r ≠ tosEnmfil.toInt16 := by
      rintro rfl
      exact absurd hr (by decide)
    rw [if_neg hok]
    exact ⟨hr, hrest⟩

/-- **A search in a directory whose entries can all be examined** reports the entries that
    pass the tests of `Fsnext`, each once and in their order: all of them if the name has
    wildcards, and the first one otherwise. -/
theorem search_enumerates (hset : Setting currentProcess s.memory b domain) (hpriv : priv ≠ 0)
    (hdirh : dirh ≠ 0) (hfound : found (splitPath path).1 = some (dirh, entries))
    (hstats : ∀ e ∈ entries, e.stat ≠ none) (localtime : Int64 → Tm) (attr : Int16)
    (unset : Stat) :
    ∃ r t, fsfirst currentProcess localtime (some path) attr priv found unset s =
        Except.ok (r, t) ∧
      Enumerates currentProcess localtime
        (searchOf s b domain priv (recordOf path attr dirh) entries)
        (expected (domain = 0) (recordOf path attr dirh) entries) tosEfilnf r t := by
  have hbegun := @ongoing_begun currentProcess s b domain priv entries hset hpriv
    (recordOf path attr dirh) hdirh
  obtain ⟨r, t, hnext, henum⟩ :=
    @Ongoing.enumerates currentProcess localtime _ _ _ _ unset hbegun hstats
  exact ⟨_, t, fsfirst_call hset hfound hnext, enumerates_first henum⟩

end Search

example : expected true (recordOf (ascii "*.*") 0 0x7000) Wild.oneFile = [Wild.aFile] := by
  decide +kernel

/-- `*.*` in a directory with one file. -/
theorem search_enumerates_all :
    ∃ r t, fsfirst 0x10800 Runs.noTime (some (ascii "*.*")) 0 0x5000
        (fun _ => some (0x7000, Wild.oneFile)) ⟨0, 0, 0⟩ Runs.launched = Except.ok (r, t) ∧
      Enumerates 0x10800 Runs.noTime
        (searchOf Runs.launched 0x10880 0 0x5000 (recordOf (ascii "*.*") 0 0x7000) Wild.oneFile)
        (expected true (recordOf (ascii "*.*") 0 0x7000) Wild.oneFile) tosEfilnf r t :=
  @search_enumerates 0x10800 Runs.launched 0x10880 0 0x5000 0x7000 (ascii "*.*")
    (fun _ => some (0x7000, Wild.oneFile)) Wild.oneFile Wild.launched_setting (by decide)
    (by decide) rfl Wild.oneFile_stats Runs.noTime 0 ⟨0, 0, 0⟩

end Calls

end ParaTos.FileSearch
