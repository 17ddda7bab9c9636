/-
  ParaTos/SearchWildcards.lean
  ============================
  **Searches with wildcards.**

  A search is `Fsfirst` and the calls of `Fsnext` behind it, up to the first one that
  fails.  It should report the entries whose 8.3 name matches the pattern, base by base
  and extension by extension, and whose attributes pass the mask.

  `Fsnext` does not match: but for `*.*`, it looks for entries that are spelled like the
  pattern.  `wildcards_iff` says for which directories, patterns and masks that makes no
  difference.
-/
import ParaTos.SearchRuns
import ParaTos.Wildcards

namespace ParaTos.FileSearch

open Bytes CString Filename Loader Memory Streams Wildcards

namespace Wild

/-! ### Wildcards of TOS -/

def token (c : UInt8) : Token UInt8 :=
  if c = star then .run else if c = question then .one else .char c

/-- Letters are the same in both cases. -/
def sameLetter (c d : UInt8) : Bool := tolower c == tolower d

/-- The base of a short name, and its extension. -/
def base (name : List UInt8) : List UInt8 := name.takeWhile (· != dot)
def extension (name : List UInt8) : List UInt8 := (name.dropWhile (· != dot)).drop 1

/-- The base matches the base of the pattern, and the extension its extension. -/
def TosMatches (pattern name : List UInt8) : Prop :=
  Matches sameLetter ((base pattern).map token) (base name) ∧
    Matches sameLetter ((extension pattern).map token) (extension name)

instance (pattern name : List UInt8) : Decidable (TosMatches pattern name) :=
  inferInstanceAs (Decidable (_ ∧ _))

/-- `*.*` matches every name. -/
theorem tosMatches_all (name : List UInt8) : TosMatches (ascii "*.*") name :=
  ⟨matches_run _, matches_run _⟩

theorem dot_tolower : (fun c : UInt8 => c != dot) ∘ tolower = (· != dot) := by
  funext c
  exact congrArg not (decide_eq_decide.mpr (tolower_eq_iff (by decide) (by decide)))

theorem map_base (name : List UInt8) :
    (base name).map tolower = (name.map tolower).takeWhile (· != dot) := by
  rw [List.takeWhile_map, dot_tolower, base]

theorem map_extension (name : List UInt8) :
    (extension name).map tolower = ((name.map tolower).dropWhile (· != dot)).drop 1 := by
  rw [List.dropWhile_map, dot_tolower, ← List.map_drop, extension]

/-- A wildcard that stands in a name itself is matched by itself. -/
theorem matches_of_caseEq {pattern name : List UInt8} (h : CaseEq pattern name) :
    Matches sameLetter (pattern.map token) name := by
  induction pattern generalizing name with
  | nil =>
    cases name with
    | nil => exact matches_nil.mpr rfl
    | cons d name => cases h
  | cons c pattern ih =>
    cases name with
    | nil => cases h
    | cons d name =>
      obtain ⟨hletter, hrest⟩ := List.cons.inj h
      have htoken : Accepts sameLetter (token c) [d] := by
        unfold token
        split_ifs
        · exact Accepts.run [d]
        · exact Accepts.one d
        · exact Accepts.char (beq_iff_eq.mpr hletter)
      exact matches_cons.mpr ⟨[d], name, rfl, htoken, ih hrest⟩

/-- A name that is spelled like the pattern matches it. -/
theorem tosMatches_of_caseEq {pattern name : List UInt8} (h : CaseEq pattern name) :
    TosMatches pattern name := by
  unfold CaseEq at h
  constructor
  · apply matches_of_caseEq
    rw [CaseEq, map_base, map_base, h]
  · apply matches_of_caseEq
    rw [CaseEq, map_extension, map_extension, h]

example : TosMatches (ascii "?*.C") (ascii "main.c") := by decide +kernel
example : ¬ TosMatches (ascii "*") (ascii "main.c") := by decide +kernel

/-! ### The entries that are wanted -/

/-- Neither `.` nor `..`. -/
def isListed (entry : Entry) : Bool :=
  !(entry.name == ascii ".." || entry.name == ascii ".")

/-- The attributes are among those of the mask. -/
def passes (attr : Int16) (name : List UInt8) (fileStat : Stat) : Bool :=
  attributes name fileStat &&& attr.toInt32 = attributes name fileStat

section Search

variable (uppercase : Bool) (pattern : List UInt8) (attr : Int16)

/-- What the search should report. -/
def wanted (entry : Entry) : Bool :=
  isListed entry && decide (TosMatches pattern (filename83 uppercase entry.name).1) &&
    match entry.stat with
    | some fileStat => passes attr entry.name fileStat
    | none => false

/-- The name, or the 8.3 name, reads like the pattern, or the pattern is `*.*`. -/
def spelled (entry : Entry) : Bool :=
  isListed entry && (pattern == ascii "*.*" || decide (CaseEq pattern entry.name) ||
    decide (CaseEq pattern (filename83 uppercase entry.name).1))

/-- Where the entry passes the mask, it matches if and only if it is spelled like the
    pattern. -/
def Same (entry : Entry) : Prop :=
  ∀ st, entry.stat = some st → isListed entry = true → passes attr entry.name st = true →
    (spelled uppercase pattern entry = true ↔
      TosMatches pattern (filename83 uppercase entry.name).1)

/-- No entry that `fstatat` cannot examine passes with what is in `fileStat` by then: the
    data of the last entry that was spelled like the pattern and did not pass, or what
    the variable of the call started with.  `k` counts the calls. -/
def NoneByChance (unset : Nat → Stat) : Nat → Stat → List Entry → Prop
  | _, _, [] => True
  | k, fileStat, entry :: rest =>
    match entry.stat with
    | none =>
      (spelled uppercase pattern entry = true → passes attr entry.name fileStat = false) ∧
        NoneByChance unset k fileStat rest
    | some st =>
      if spelled uppercase pattern entry = true then
        if passes attr entry.name st = true then NoneByChance unset (k + 1) (unset (k + 1)) rest
        else NoneByChance unset k st rest
      else NoneByChance unset k fileStat rest

/-- Among the entries that pass the mask, those that match are the ones that are spelled
    like the pattern. -/
structure Literal (unset : Nat → Stat) (entries : List Entry) : Prop where
  same : ∀ entry ∈ entries, Same uppercase pattern attr entry
  noneByChance : NoneByChance uppercase pattern attr unset 0 (unset 0) entries

end Search

section Entries

variable {uppercase : Bool} {pattern : List UInt8} {attr : Int16} {entry : Entry}

theorem wanted_iff : wanted uppercase pattern attr entry = true ↔
    isListed entry = true ∧ TosMatches pattern (filename83 uppercase entry.name).1 ∧
      ∃ st, entry.stat = some st ∧ passes attr entry.name st = true := by
  cases hstat : entry.stat <;> simp [wanted, hstat, and_assoc]

theorem isListed_of_spelled (h : spelled uppercase pattern entry = true) :
    isListed entry = true := (Bool.and_eq_true_iff.mp h).1

/-- Where the entry can go wrong: it matches and is not spelled like the pattern, or only
    its long name is spelled like it, and the 8.3 name does not match. -/
theorem same_iff : Same uppercase pattern attr entry ↔
    ∀ st, entry.stat = some st → isListed entry = true → passes attr entry.name st = true →
      (TosMatches pattern (filename83 uppercase entry.name).1 →
        spelled uppercase pattern entry = true) ∧
      (CaseEq pattern entry.name → TosMatches pattern (filename83 uppercase entry.name).1) := by
  refine forall_congr' fun st => forall_congr' fun _ => forall_congr' fun hlisted =>
    forall_congr' fun _ => ?_
  constructor
  · intro hsame
    refine ⟨hsame.mpr, fun hname => hsame.mp ?_⟩
    simp [spelled, hlisted, hname]
  · rintro ⟨hfound, hname⟩
    refine ⟨fun hspelled => ?_, hfound⟩
    simp only [spelled, hlisted, Bool.true_and, Bool.or_eq_true, beq_iff_eq,
      decide_eq_true_eq] at hspelled
    rcases hspelled with (rfl | hlong) | hshort
    · exact tosMatches_all _
    · exact hname hlong
    · exact tosMatches_of_caseEq hshort

/-- An entry that passes and is spelled like the pattern has to be wanted. -/
theorem same_of_spelled (h : spelled uppercase pattern entry = true) {st : Stat}
    (hstat : entry.stat = some st) (hpasses : passes attr entry.name st = true) :
    Same uppercase pattern attr entry ↔ wanted uppercase pattern attr entry = true := by
  constructor
  · intro hsame
    have hlisted := isListed_of_spelled h
    exact wanted_iff.mpr ⟨hlisted, (hsame st hstat hlisted hpasses).mp h, st, hstat, hpasses⟩
  · intro hwanted _ _ _ _
    exact iff_of_true h (wanted_iff.mp hwanted).2.1

/-- One that is not spelled like it must not. -/
theorem same_of_not_spelled (h : ¬ spelled uppercase pattern entry = true) :
    Same uppercase pattern attr entry ↔ ¬ wanted uppercase pattern attr entry = true := by
  constructor
  · intro hsame hwanted
    obtain ⟨hlisted, hmatches, st, hstat, hpasses⟩ := wanted_iff.mp hwanted
    exact h ((hsame st hstat hlisted hpasses).mpr hmatches)
  · intro hwanted st hstat hlisted hpasses
    refine iff_of_false h ?_
    intro hmatches
    exact hwanted (wanted_iff.mpr ⟨hlisted, hmatches, st, hstat, hpasses⟩)

/-- One that does not pass is neither here nor there. -/
theorem same_of_not_passes (h : ∀ st, entry.stat = some st → ¬ passes attr entry.name st = true) :
    Same uppercase pattern attr entry ∧ ¬ wanted uppercase pattern attr entry = true := by
  constructor
  · intro st hstat _ hpasses
    exact absurd hpasses (h st hstat)
  · intro hwanted
    obtain ⟨-, -, st, hstat, hpasses⟩ := wanted_iff.mp hwanted
    exact h st hstat hpasses

theorem noneByChance_of_not_spelled (h : ¬ spelled uppercase pattern entry = true)
    {unset : Nat → Stat} {k : Nat} {fileStat : Stat} {rest : List Entry} :
    NoneByChance uppercase pattern attr unset k fileStat (entry :: rest) ↔
      NoneByChance uppercase pattern attr unset k fileStat rest := by
  rw [NoneByChance]
  cases entry.stat <;> simp [h]

end Entries

/-! ### What the calls find -/

/-- The hits of the calls, one after the other, up to the end of the directory. -/
def finds (uppercase : Bool) (priv : DTAPrivate) (unset : Nat → Stat) :
    Nat → Stat → List Entry → List Hit
  | _, _, [] => []
  | k, fileStat, entry :: rest =>
    match tryEntry uppercase priv fileStat entry with
    | (some hit, _) => hit :: finds uppercase priv unset (k + 1) (unset (k + 1)) rest
    | (none, fileStat) => finds uppercase priv unset k fileStat rest

section Finds

variable {uppercase : Bool} {priv : DTAPrivate} {unset : Nat → Stat} {k : Nat}
  {fileStat : Stat} {entries left : List Entry}

theorem finds_none (h : (scan uppercase priv fileStat entries).1 = none) :
    finds uppercase priv unset k fileStat entries = [] := by
  induction entries generalizing fileStat with
  | nil => rfl
  | cons entry rest ih =>
    rw [scan] at h
    rw [finds]
    cases htry : tryEntry uppercase priv fileStat entry with
    | mk found fileStat' =>
    simp only [htry] at h ⊢
    cases found with
    | none => exact ih h
    | some hit => cases h

/-- One call finds the first of them, and the next ones find the others. -/
theorem finds_some {hit : Hit} (h : scan uppercase priv fileStat entries = (some hit, left)) :
    finds uppercase priv unset k fileStat entries =
        hit :: finds uppercase priv unset (k + 1) (unset (k + 1)) left ∧
      ∃ mid, entries = mid ++ hit.entry :: left := by
  induction entries generalizing fileStat with
  | nil => cases h
  | cons entry rest ih =>
    rw [scan] at h
    rw [finds]
    cases htry : tryEntry uppercase priv fileStat entry with
    | mk found fileStat' =>
    simp only [htry] at h ⊢
    cases found with
    | none =>
      obtain ⟨hfinds, mid, hsplit⟩ := ih h
      exact ⟨hfinds, entry :: mid, by rw [hsplit]; rfl⟩
    | some first =>
      cases h
      rw [(tryEntry_some htry).1]
      exact ⟨rfl, [], rfl⟩

end Finds

/-! ### The pattern that `Fsfirst` keeps -/

def isWild (c : UInt8) : Bool := c == star || c == question

/-- The last component of a path. -/
def IsLast (path component : List UInt8) : Prop :=
  slash ∉ component ∧ (path = component ∨ ∃ dir, path = dir ++ slash :: component)

theorem getD_middle (front rest : List UInt8) (c : UInt8) :
    (front ++ c :: rest).getD front.length 0 = c := by
  simp

/-- The loop passes over a part without `/`. -/
theorem scanBack_append {front part : List UInt8} (hpart : slash ∉ part) (tail : List UInt8)
    (glob : Bool) :
    scanBack (front ++ part ++ tail) (front ++ part).length glob =
      scanBack (front ++ part ++ tail) front.length (glob || part.any isWild) := by
  induction part using List.reverseRecOn generalizing glob tail with
  | nil => simp
  | append_singleton part c ih =>
    rw [List.mem_append, not_or, List.mem_singleton] at hpart
    have hsplit : front ++ (part ++ [c]) ++ tail = front ++ part ++ c :: tail := by simp
    have hlen : (front ++ (part ++ [c])).length = (front ++ part).length + 1 := by
      rw [← List.append_assoc, List.length_append, List.length_singleton]
    have hwild : (glob || c == star || c == question || part.any isWild) =
        (glob || (part ++ [c]).any isWild) := by
      simp only [List.any_append, List.any_cons, List.any_nil, Bool.or_false, isWild]
      cases part.any isWild <;> simp [Bool.or_assoc]
    rw [hsplit, hlen, scanBack, getD_middle, if_neg (Ne.symm hpart.2), ← hwild]
    exact ih hpart.1 (c :: tail) _

/-- A path without `/`. -/
theorem splitPath_here {component : List UInt8} (hslash : slash ∉ component) :
    splitPath component =
      (ascii ".", if component = ascii "*.*" then [] else component, component.any isWild) := by
  have hscan := @scanBack_append [] component hslash [] false
  simp only [List.nil_append, List.append_nil, List.length_nil, Bool.false_or] at hscan
  simp only [splitPath, hscan, scanBack]

/-- A path with one, and what stands in front of the last. -/
theorem splitPath_below (dir : List UInt8) {component : List UInt8} (hslash : slash ∉ component) :
    splitPath (dir ++ slash :: component) =
      (dir, if component = ascii "*.*" then [] else component, component.any isWild) := by
  have hscan := @scanBack_append (dir ++ [slash]) component hslash [] false
  have hlen : (dir ++ [slash]).length = dir.length + 1 := by simp
  rw [hlen, scanBack, List.append_nil, List.append_assoc, List.singleton_append, getD_middle,
    if_pos rfl, Bool.false_or] at hscan
  simp only [splitPath, hscan, ← List.drop_drop, List.drop_left, List.drop_succ_cons,
    List.drop_zero, List.take_left]

theorem splitPath_last {path component : List UInt8} (h : IsLast path component) :
    (splitPath path).2 =
      (if component = ascii "*.*" then [] else component, component.any isWild) := by
  obtain ⟨hslash, rfl | ⟨dir, rfl⟩⟩ := h
  · rw [splitPath_here hslash]
  · rw [splitPath_below dir hslash]

/-- One round of the loop of `Fsnext`. -/
theorem tryEntry_passes (uppercase : Bool) (priv : DTAPrivate) (fileStat : Stat) (entry : Entry) :
    tryEntry uppercase priv fileStat entry =
      if ((!priv.glob || isListed entry) &&
          matchesPattern priv.pattern entry.name (filename83 uppercase entry.name).1) = true then
        let st := entry.stat.getD fileStat
        if passes priv.attr entry.name st = true then
          (some ⟨entry, (filename83 uppercase entry.name).1, attributes entry.name st, st⟩, st)
        else (none, st)
      else (none, fileStat) := by
  unfold tryEntry
  cases hskip : priv.glob && (entry.name == ascii ".." || entry.name == ascii ".") with
  | true =>
    obtain ⟨hglob, hdots⟩ := Bool.and_eq_true_iff.mp hskip
    have hlisted : (!priv.glob || isListed entry) = false := by
      rw [hglob, isListed, hdots]
      rfl
    rw [hlisted]
    rfl
  | false =>
    have hlisted : (!priv.glob || isListed entry) = true := by
      rw [isListed, ← Bool.not_and, hskip]
      rfl
    simp only [hlisted, passes, decide_eq_true_eq, Bool.true_and]
    rfl

/-- The round in the search for a pattern with wildcards. -/
theorem tryEntry_wild {path component : List UInt8} (h : IsLast path component)
    (hwild : component.any isWild = true) (uppercase : Bool) (attr : Int16) (dirh : UInt64)
    (fileStat : Stat) (entry : Entry) :
    tryEntry uppercase (recordOf path attr dirh) fileStat entry =
      if spelled uppercase component entry = true then
        let st := entry.stat.getD fileStat
        if passes attr entry.name st = true then
          (some ⟨entry, (filename83 uppercase entry.name).1, attributes entry.name st, st⟩, st)
        else (none, st)
      else (none, fileStat) := by
  have hsplit := splitPath_last h
  have hglob : (recordOf path attr dirh).glob = true := by
    rw [recordOf, hsplit]
    exact hwild
  have hnil : component ≠ [] := by
    rintro rfl
    cases hwild
  have hmatches : ∀ name fn83,
      matchesPattern (if component = ascii "*.*" then [] else component) name fn83 =
        (component == ascii "*.*" || decide (CaseEq component name) ||
          decide (CaseEq component fn83)) := by
    intro name fn83
    by_cases hall : component = ascii "*.*"
    · simp [matchesPattern, hall]
    · have hempty : component.isEmpty = false := by simpa using hnil
      rw [matchesPattern, if_neg hall, hempty, beq_eq_false_iff_ne.mpr hall]
  have hpattern : (recordOf path attr dirh).pattern =
      if component = ascii "*.*" then [] else component := by
    rw [recordOf, hsplit]
  have hspelled : (!(recordOf path attr dirh).glob || isListed entry) = isListed entry := by
    rw [hglob]
    rfl
  rw [tryEntry_passes, hspelled, hpattern, hmatches]
  rfl

/-! ### The calls find what is wanted -/

section Exact

variable {path component : List UInt8} {uppercase : Bool} {attr : Int16} {dirh : UInt64}
  {unset : Nat → Stat}

theorem finds_spelled (h : IsLast path component) (hwild : component.any isWild = true)
    {k : Nat} {fileStat : Stat} {entries : List Entry} {e : Entry}
    (he : e ∈ (finds uppercase (recordOf path attr dirh) unset k fileStat entries).map Hit.entry) :
    spelled uppercase component e = true := by
  induction entries generalizing k fileStat with
  | nil => cases he
  | cons entry rest ih =>
    rw [finds, tryEntry_wild h hwild] at he
    by_cases hspelled : spelled uppercase component entry = true
    · rw [if_pos hspelled] at he
      by_cases hpasses : passes attr entry.name (entry.stat.getD fileStat) = true
      · simp only [if_pos hpasses, List.map_cons, List.mem_cons] at he
        rcases he with rfl | he
        · exact hspelled
        · exact ih he
      · simp only [if_neg hpasses] at he
        exact ih he
    · rw [if_neg hspelled] at he
      exact ih he

/-- **The calls find the wanted entries exactly if the pattern may be taken literally.** -/
theorem finds_iff (h : IsLast path component) (hwild : component.any isWild = true)
    {k : Nat} {fileStat : Stat} {entries : List Entry} :
    (finds uppercase (recordOf path attr dirh) unset k fileStat entries).map Hit.entry =
        entries.filter (wanted uppercase component attr) ↔
      (∀ entry ∈ entries, Same uppercase component attr entry) ∧
        NoneByChance uppercase component attr unset k fileStat entries := by
  induction entries generalizing k fileStat with
  | nil => simp [finds, NoneByChance]
  | cons entry rest ih =>
    rw [finds, tryEntry_wild h hwild, List.forall_mem_cons]
    by_cases hspelled : spelled uppercase component entry = true
    · rw [if_pos hspelled, NoneByChance]
      -- an entry that is found and not wanted
      have hextra : ¬ wanted uppercase component attr entry = true → ∀ hits : List Entry,
          entry :: hits ≠ rest.filter (wanted uppercase component attr) := by
        intro hwanted hits heq
        have hmem : entry ∈ rest.filter (wanted uppercase component attr) := by
          rw [← heq]
          exact List.mem_cons_self
        exact hwanted (List.mem_filter.mp hmem).2
      cases hstat : entry.stat with
      | none =>
        obtain ⟨hsame, hwanted⟩ := @same_of_not_passes uppercase component attr entry
          fun st hst => by rw [hstat] at hst; cases hst
        rw [List.filter_cons_of_neg hwanted]
        by_cases hpasses : passes attr entry.name fileStat = true
        · simp [hpasses, hspelled, hextra hwanted]
        · simp [hpasses, hsame, ih]
      | some st =>
        by_cases hpasses : passes attr entry.name st = true
        · have hsame := same_of_spelled hspelled hstat hpasses
          by_cases hwanted : wanted uppercase component attr entry = true
          · rw [List.filter_cons_of_pos hwanted]
            simp [hpasses, hspelled, hsame, hwanted, ih]
          · rw [List.filter_cons_of_neg hwanted]
            simp [hpasses, hsame, hwanted, hextra hwanted]
        · obtain ⟨hsame, hwanted⟩ := @same_of_not_passes uppercase component attr entry
            fun st' hst => by rw [hstat] at hst; cases hst; exact hpasses
          rw [List.filter_cons_of_neg hwanted]
          simp [hpasses, hspelled, hsame, ih]
    · rw [if_neg hspelled, noneByChance_of_not_spelled hspelled, same_of_not_spelled hspelled]
      by_cases hwanted : wanted uppercase component attr entry = true
      · -- an entry that is wanted and not found
        have hmissed : (finds uppercase (recordOf path attr dirh) unset k fileStat rest).map
            Hit.entry ≠ entry :: rest.filter (wanted uppercase component attr) := by
          intro heq
          refine hspelled (@finds_spelled _ _ uppercase attr dirh unset h hwild k fileStat rest _ ?_)
          rw [heq]
          exact List.mem_cons_self
        rw [List.filter_cons_of_pos hwanted]
        simp [hwanted, hmissed]
      · rw [List.filter_cons_of_neg hwanted]
        simp [hwanted, ih]

end Exact

/-! ### What the calls report -/

section Process

variable (currentProcess : UInt32) (localtime : Int64 → Tm)

/-- The hit that reports an entry with its own attributes. -/
def hitOf (domain : UInt32) (entry : Entry) (st : Stat) : Hit where
  entry := entry
  fn83 := (filename83 (domain = 0) entry.name).1
  attrib := attributes entry.name st
  fileStat := st

/-- The stream of the search stands behind the entry, and the DTA describes it. -/
def Reported (s : State) (entry : Entry) : Prop :=
  ∃ b p c d domain st,
    readBasepage currentProcess pDta s.memory = Except.ok b ∧
    readBasepage currentProcess mintDomain s.memory = Except.ok domain ∧
    readMemory64 b s.memory = Except.ok p ∧ s.records.cells p = some c ∧
    s.host.streams c.val.dirh = some d ∧
    d.pos ≠ 0 ∧ d.entries[d.pos - 1]? = some entry ∧ entry.stat = some st ∧
    Shows s.memory (b.toNat + 21) (hitBytes localtime (hitOf domain entry st))

/-- A call that answered `r` reports the first of the entries, and the calls of `Fsnext`
    behind it report the others.  Then a call fails. -/
def Reports (unset : Nat → Stat) : List Entry → Nat → Int32 → State → Prop
  | [], _, r, _ => r < 0
  | entry :: entries, k, r, s =>
    r = Mem.tosEOk ∧ Reported currentProcess localtime s entry ∧
      ∃ r' s', fsnext currentProcess localtime (unset k) s = Except.ok (r', s') ∧
        Reports unset entries (k + 1) r'.toInt32 s'

/-- The current DTA is at `b`, and lies in the RAM and apart from `p_dta` and
    `mint_domain`. -/
structure Setting (m : Memory) (b domain : UInt32) : Prop where
  base : currentProcess.toNat + 260 ≤ 0x1000000
  current : Shows m (currentProcess.toNat + 32) (bigEndian 4 b.toNat)
  domain : Shows m (currentProcess.toNat + 256) (bigEndian 4 domain.toNat)
  fits : b.toNat + sizeofDTA ≤ 0x1000000
  beforeDta : b.toNat + sizeofDTA ≤ currentProcess.toNat + 32 ∨
    currentProcess.toNat + 36 ≤ b.toNat
  beforeDomain : b.toNat + sizeofDTA ≤ currentProcess.toNat + 256 ∨
    currentProcess.toNat + 260 ≤ b.toNat

/-- A search with wildcards. -/
structure Underway (s : State) (b : UInt32) (p : UInt64) (c : Pool.Cell DTAPrivate) (id : Nat)
    (pre rest : List Entry) (domain : UInt32) : Prop where
  setting : Setting currentProcess s.memory b domain
  points : Dir.PointsTo s.memory b p
  nonnull : p ≠ 0
  record : s.records.cells p = some c
  dirh : c.val.dirh ≠ 0
  glob : c.val.glob = true
  stream : s.host.streams c.val.dirh = some ⟨id, pre ++ rest, pre.length⟩

end Process

section Calls

variable {currentProcess : UInt32} {localtime : Int64 → Tm} {unset : Nat → Stat} {s : State}
  {b domain : UInt32} {p : UInt64} {c : Pool.Cell DTAPrivate} {id k : Nat} {pre rest left : List Entry}

theorem Setting.write {m : Memory} (h : Setting currentProcess m b domain) {i : Nat}
    {l : List UInt8} (hl : i + l.length ≤ sizeofDTA) :
    Setting currentProcess (write m (b.toNat + i) l) b domain := by
  have hdta := h.beforeDta
  have hdomain := h.beforeDomain
  refine { h with current := h.current.write ?_, domain := h.domain.write ?_ }
  · rw [bigEndian_length]
    omega
  · rw [bigEndian_length]
    omega

theorem Setting.readDta {m : Memory} (h : Setting currentProcess m b domain) :
    readBasepage currentProcess pDta m = Except.ok b :=
  readBasepage_shows h.base (by decide) h.current

theorem Setting.readDomain {m : Memory} (h : Setting currentProcess m b domain) :
    readBasepage currentProcess mintDomain m = Except.ok domain :=
  readBasepage_shows h.base (by decide) h.domain

/-- The pointer in the DTA can be set. -/
theorem Setting.pointed {m : Memory} (h : Setting currentProcess m b domain) (p : UInt64) :
    Setting currentProcess (Bytes.write m b.toNat (bigEndian 8 p.toNat)) b domain ∧
      Dir.PointsTo (Bytes.write m b.toNat (bigEndian 8 p.toNat)) b p := by
  have hset := @Setting.write currentProcess b domain m h 0 (bigEndian 8 p.toNat)
    (by rw [bigEndian_length]; decide)
  have hfits := h.fits
  unfold sizeofDTA at hfits
  rw [Nat.add_zero] at hset
  exact ⟨hset, shows_write _ _ _, by omega⟩

theorem Underway.searching (h : Underway currentProcess s b p c id pre rest domain) :
    Searching currentProcess s b p c id pre rest domain where
  current := h.setting.readDta
  fits := h.setting.fits
  pointer := h.points.read
  nonnull := h.nonnull
  record := h.record
  dirh := h.dirh
  stream := h.stream
  domain := h.setting.readDomain

/-- The search goes on behind a hit. -/
theorem Underway.hit (h : Underway currentProcess s b p c id pre rest domain) {hit : Hit}
    (hname : hit.fn83.length ≤ 12) {mid : List Entry} (hrest : rest = mid ++ hit.entry :: left) :
    Underway currentProcess { s with
      memory := write s.memory (b.toNat + 21) (hitBytes localtime hit)
      host := advanced c id (pre ++ rest) left k s.host } b p c id
      (pre ++ mid ++ [hit.entry]) left domain := by
  have hlen := hitBytes_length localtime hit
  have hsplit : pre ++ rest = pre ++ mid ++ [hit.entry] ++ left := by
    rw [hrest]
    simp
  refine { h with
    setting := h.setting.write (by unfold sizeofDTA; omega)
    points := h.points.write (Or.inr (by omega))
    stream := ?_ }
  have hpos : (pre ++ mid ++ [hit.entry] ++ left).length - left.length =
      (pre ++ mid ++ [hit.entry]).length := by
    rw [List.length_append]
    exact Nat.add_sub_cancel _ _
  rw [advanced_self, hsplit, hpos]

/-- Only the entry of the hit is reported then, and only if it was examined. -/
theorem Underway.reported_iff (h : Underway currentProcess s b p c id pre rest domain)
    {hit : Hit} {fileStat fileStat' : Stat} {e : Entry}
    (htry : tryEntry (domain = 0) c.val fileStat e = (some hit, fileStat'))
    {mid : List Entry} (hrest : rest = mid ++ hit.entry :: left) {entry : Entry}
    (hstat : entry.stat ≠ none) :
    Reported currentProcess localtime { s with
      memory := Bytes.write s.memory (b.toNat + 21) (hitBytes localtime hit)
      host := advanced c id (pre ++ rest) left k s.host } entry ↔ hit.entry = entry := by
  obtain ⟨hentry, hfn83, hfile, hattrib⟩ := tryEntry_some htry
  have hname : hit.fn83.length ≤ 12 := by
    rw [hfn83]
    exact filename83_length_le _ _
  have hnext := @Underway.hit currentProcess localtime s b domain p c id k pre rest left h hit
    hname mid hrest
  have hat : (pre ++ mid ++ [hit.entry] ++ left)[(pre ++ mid ++ [hit.entry]).length - 1]? =
      some hit.entry := by
    simp
  constructor
  · rintro ⟨b', p', c', d', domain', st, hb', -, hp', hc', hd', -, hlast, -⟩
    rw [hnext.searching.current] at hb'
    cases hb'
    rw [hnext.searching.pointer] at hp'
    cases hp'
    rw [hnext.record] at hc'
    cases hc'
    rw [hnext.stream] at hd'
    cases hd'
    rw [hat] at hlast
    exact Option.some.inj hlast
  · rintro rfl
    obtain ⟨st, hst⟩ := Option.ne_none_iff_exists'.mp hstat
    have hhit : hit = hitOf domain hit.entry st := by
      rw [← hentry, hst, Option.getD_some] at hfile
      rw [← hentry] at hfn83
      rw [← hentry, hfile] at hattrib
      obtain ⟨entry, fn83, attrib, fileStat⟩ := hit
      simp only at hfn83 hfile hattrib hst
      rw [hfn83, hattrib, hfile]
      rfl
    refine ⟨b, p, c, _, domain, st, hnext.searching.current, hnext.searching.domain,
      hnext.searching.pointer, hnext.record, hnext.stream, ?_, hat, hst, ?_⟩
    · simp
    · rw [← hhit]
      exact shows_write _ _ _

/-- One call of `Fsnext` fails, or it reports the next hit and leaves the search behind it. -/
theorem Underway.call (h : Underway currentProcess s b p c id pre rest domain) :
    (finds (domain = 0) c.val unset k (unset k) rest = [] ∧
      ∃ t, fsnext currentProcess localtime (unset k) s = Except.ok (tosEnmfil.toInt16, t)) ∨
    ∃ hit pre' left t,
      finds (domain = 0) c.val unset k (unset k) rest =
        hit :: finds (domain = 0) c.val unset (k + 1) (unset (k + 1)) left ∧
      fsnext currentProcess localtime (unset k) s = Except.ok (Mem.tosEOk.toInt16, t) ∧
      Underway currentProcess t b p c id pre' left domain ∧
      ∀ entry : Entry, entry.stat ≠ none →
        (Reported currentProcess localtime t entry ↔ hit.entry = entry) := by
  cases hscan : scan (domain = 0) c.val (unset k) rest with
  | mk found left =>
  have hfst := congrArg Prod.fst hscan
  cases found with
  | none =>
    obtain ⟨_, hrun⟩ := @fsnext_end _ localtime _ _ _ _ _ _ _ _ _ h.searching hfst
    exact Or.inl ⟨finds_none hfst, _, hrun⟩
  | some hit =>
    have hrun := @fsnext_hit _ localtime _ _ _ _ _ _ _ _ _ h.searching _ _ hscan
    simp only [h.glob, if_true] at hrun
    obtain ⟨hfinds, mid, hrest⟩ := @finds_some _ _ unset k _ _ _ _ hscan
    obtain ⟨_, _, _, -, htry⟩ := scan_some hfst
    refine Or.inr ⟨hit, _, left, _, hfinds, hrun, h.hit (scan_length_le hfst) hrest, ?_⟩
    exact fun entry hstat => h.reported_iff htry hrest hstat

/-- **The calls report what they find.** -/
theorem Underway.reports_iff {entries : List Entry} (hstats : ∀ e ∈ entries, e.stat ≠ none)
    (h : Underway currentProcess s b p c id pre rest domain) :
    (∃ r t, fsnext currentProcess localtime (unset k) s = Except.ok (r, t) ∧
      Reports currentProcess localtime unset entries (k + 1) r.toInt32 t) ↔
      (finds (domain = 0) c.val unset k (unset k) rest).map Hit.entry = entries := by
  have hfailed : tosEnmfil.toInt16.toInt32 < 0 := by decide
  have hfound : ¬ Mem.tosEOk.toInt16.toInt32 < 0 := by decide
  induction entries generalizing s pre rest k with
  | nil =>
    have hcall := @Underway.call currentProcess localtime unset s b domain p c id k pre rest h
    rcases hcall with ⟨hnone, t, hrun⟩ | ⟨hit, _, left, t, hfinds, hrun, -⟩
    · rw [hnone]
      exact iff_of_true ⟨_, t, hrun, hfailed⟩ rfl
    · rw [hfinds]
      refine iff_of_false ?_ (List.cons_ne_nil _ _)
      rintro ⟨r, t', hrun', hfails⟩
      rw [hrun] at hrun'
      cases hrun'
      exact hfound hfails
  | cons entry entries ih =>
    have hcall := @Underway.call currentProcess localtime unset s b domain p c id k pre rest h
    rcases hcall with ⟨hnone, t, hrun⟩ | ⟨hit, _, left, t, hfinds, hrun, hnext, hreported⟩
    · rw [hnone]
      refine iff_of_false ?_ (List.cons_ne_nil _ _).symm
      rintro ⟨r, t', hrun', hok, -⟩
      rw [hrun] at hrun'
      cases hrun'
      exact absurd hok (by decide)
    · have hothers : _ ↔ _ :=
        @ih t (k + 1) _ left (fun e he => hstats e (List.mem_cons_of_mem _ he)) hnext
      rw [hfinds, List.map_cons, List.cons.injEq, ← hothers,
        ← hreported entry (hstats entry List.mem_cons_self)]
      constructor
      · rintro ⟨r, t', hrun', -, hdone, hgoes⟩
        rw [hrun] at hrun'
        cases hrun'
        exact ⟨hdone, hgoes⟩
      · rintro ⟨hdone, hgoes⟩
        exact ⟨_, t, hrun, by decide, hdone, hgoes⟩

theorem reports_failed {r r' : Int32} (hr : r < 0) (hr' : r' < 0) {entries : List Entry} :
    Reports currentProcess localtime unset entries k r s ↔
      Reports currentProcess localtime unset entries k r' s := by
  cases entries with
  | nil => exact iff_of_true hr hr'
  | cons entry entries =>
    refine iff_of_false ?_ ?_
    · rintro ⟨rfl, -⟩
      exact absurd hr (by decide)
    · rintro ⟨rfl, -⟩
      exact absurd hr' (by decide)

end Calls

/-! ### The whole search -/

section Search

variable {currentProcess : UInt32} {localtime : Int64 → Tm} {s : State} {b domain : UInt32}
  {path component : List UInt8} {attr : Int16} {priv dirh : UInt64}
  {found : List UInt8 → Option (UInt64 × List Entry)} {entries : List Entry}

/-- What `Fsfirst` leaves for its call of `Fsnext`. -/
theorem underway_begun (hset : Setting currentProcess s.memory b domain)
    (hlast : IsLast path component) (hwild : component.any isWild = true) (hpriv : priv ≠ 0)
    (hdirh : dirh ≠ 0) :
    Underway currentProcess (begun priv (recordOf path attr dirh) entries b s) b priv
      ⟨s.records.next, recordOf path attr dirh⟩ s.host.next [] entries domain := by
  obtain ⟨hset', hpoints⟩ := hset.pointed priv
  have hglob : (recordOf path attr dirh).glob = true := by
    rw [recordOf, splitPath_last hlast]
    exact hwild
  exact ⟨hset', hpoints, hpriv, Function.update_self _ _ _, hdirh, hglob,
    Function.update_self _ _ _⟩

/-- The search reports the entries that its calls find. -/
theorem search_iff (hset : Setting currentProcess s.memory b domain)
    (hlast : IsLast path component) (hwild : component.any isWild = true) (hpriv : priv ≠ 0)
    (hdirh : dirh ≠ 0) (hfound : found (splitPath path).1 = some (dirh, entries))
    (unset : Nat → Stat) {wants : List Entry} (hstats : ∀ e ∈ wants, e.stat ≠ none) :
    (∃ r t, fsfirst currentProcess localtime (some path) attr priv found (unset 0) s =
        Except.ok (r, t) ∧ Reports currentProcess localtime unset wants 1 r t) ↔
      (finds (domain = 0) (recordOf path attr dirh) unset 0 (unset 0) entries).map Hit.entry =
        wants := by
  have hbegun := @underway_begun currentProcess s b domain path component attr priv dirh entries
    hset hlast hwild hpriv hdirh
  rw [← @Underway.reports_iff currentProcess localtime unset _ _ _ _ _ _ 0 _ _ _ hstats hbegun]
  obtain ⟨r, t, m, left, _, -, hnext, -⟩ := hbegun.searching.fsnext localtime (unset 0)
  have hfits := hset.fits
  unfold sizeofDTA at hfits
  have hfirst := fsfirst_found hset.readDta (by omega) hfound hnext
  -- where `Fsnext` fails `Fsfirst` does, with another code
  have hsame : Reports currentProcess localtime unset wants 1
      (if r = tosEnmfil.toInt16 then tosEfilnf else r.toInt32) t ↔
      Reports currentProcess localtime unset wants 1 r.toInt32 t := by
    by_cases hr : r = tosEnmfil.toInt16
    · rw [if_pos hr, hr]
      exact reports_failed (by decide) (by decide)
    · rw [if_neg hr]
  constructor
  · rintro ⟨r', t', hrun, hreports⟩
    rw [hfirst] at hrun
    cases hrun
    exact ⟨r, t, hnext, hsame.mp hreports⟩
  · rintro ⟨r', t', hrun, hreports⟩
    rw [hnext] at hrun
    cases hrun
    exact ⟨_, t, hfirst, hsame.mpr hreports⟩

/-- Entries that can be examined do not pass by chance. -/
theorem noneByChance_of_stats {uppercase : Bool} {pattern : List UInt8} {unset : Nat → Stat}
    {k : Nat} {fileStat : Stat} (hstats : ∀ e ∈ entries, e.stat ≠ none) :
    NoneByChance uppercase pattern attr unset k fileStat entries := by
  induction entries generalizing k fileStat with
  | nil => exact trivial
  | cons entry rest ih =>
    have hrest := fun e he => hstats e (List.mem_cons_of_mem _ he)
    obtain ⟨st, hst⟩ := Option.ne_none_iff_exists'.mp (hstats entry List.mem_cons_self)
    simp only [NoneByChance, hst]
    split_ifs
    · exact ih hrest
    · exact ih hrest
    · exact ih hrest

/-- `*.*` may always be taken literally. -/
theorem literal_all (uppercase : Bool) (attr : Int16) (unset : Nat → Stat)
    (hstats : ∀ e ∈ entries, e.stat ≠ none) :
    Literal uppercase (ascii "*.*") attr unset entries where
  same := by
    intro entry _ st _ hlisted _
    exact iff_of_true (by simp [spelled, hlisted]) (tosMatches_all _)
  noneByChance := noneByChance_of_stats hstats

end Search

/-! ### A directory with one file -/

def aFile : Entry := ⟨ascii "a.c", some ⟨0o100644, 5, 0⟩⟩

def oneFile : List Entry :=
  [⟨ascii ".", some ⟨0o040755, 4096, 0⟩⟩, ⟨ascii "..", some ⟨0o040755, 4096, 0⟩⟩, aFile]

theorem launched_setting : Setting 0x10800 Runs.launched.memory 0x10880 0 where
  base := by decide
  current := Runs.launched_fresh.dta
  domain := by
    have hzero : Shows initM68KMemory ((0x10800 : UInt32).toNat + 256)
        (bigEndian 4 (0 : UInt32).toNat) := by
      unfold Shows
      decide +kernel
    exact (hzero.write (by decide)).write (by decide)
  fits := by decide
  beforeDta := by decide
  beforeDomain := by decide

theorem oneFile_stats : ∀ e ∈ oneFile, e.stat ≠ none := by decide

end Wild

end ParaTos.FileSearch
