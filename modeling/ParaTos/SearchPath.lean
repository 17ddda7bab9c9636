/-
  ParaTos/SearchPath.lean
  =======================
  **Where a search looks, and for what.**

  `Fsfirst` goes back through the path to the last `/`, puts a NUL there and opens what
  stands in front of it.  Of a path whose only `/` is its first character nothing is left
  there, and the directory with the empty name is none.

  What stands behind the `/` is the pattern.  Where nothing does, `Fsnext` takes that for
  the empty pattern, which `Fsfirst` also makes of `*.*` and which fits every name.
-/
import ParaTos.SearchStats

namespace ParaTos.FileSearch

open Bytes CString Filename Loader Memory Streams
open Wild (Setting isWild)

namespace Split

/-- The last component of a path, and the directory that it is in. -/
inductive Lies : List UInt8 → List UInt8 → List UInt8 → Prop where
  | here {component : List UInt8} (h : slash ∉ component) : Lies (ascii ".") component component
  | inRoot {component : List UInt8} (h : slash ∉ component) :
      Lies (ascii "/") component (slash :: component)
  | below {dir component : List UInt8} (hdir : dir ≠ []) (h : slash ∉ component) :
      Lies dir component (dir ++ slash :: component)

/-- What `Fsfirst` keeps of a component. -/
def kept (component : List UInt8) : List UInt8 :=
  if component = ascii "*.*" then [] else component

section Process

variable (currentProcess : UInt32) (localtime : Int64 → Tm)

/-- What `Fsfirst` does behind its loop, with a directory, a pattern and the flag. -/
def lookIn (dir pattern : List UInt8) (glob : Bool) (attr : Int16) (priv : UInt64)
    (found : List UInt8 → Option (UInt64 × List Entry)) (unset : Stat) (s : State) :
    Run (Int32 × State) := do
  let currentDta ← readBasepage currentProcess pDta s.memory
  match found dir with
  | none =>
    let records ← Pool.free priv (Pool.calloc priv ⟨0, attr, glob, pattern⟩ s.records)
    let memory ← writeMemory64 currentDta 0 s.memory
    return (tosEfilnf, { s with memory, records })
  | some (dirh, entries) =>
    let records := Pool.calloc priv ⟨dirh, attr, glob, pattern⟩ s.records
    let host := opendir dirh entries s.host
    let memory ← writeMemory64 currentDta priv s.memory
    let (retval, s) ← fsnext currentProcess localtime unset { memory, host, records }
    if retval = tosEnmfil.toInt16 then return (tosEfilnf, s)
    return (retval.toInt32, s)

end Process

/-- `Fsfirst` looks in the directory, for the component and nothing else; the flag says
    whether that has wildcards. -/
def LooksFor (path dir component : List UInt8) : Prop :=
  ∀ currentProcess localtime attr priv found unset s,
    fsfirst currentProcess localtime (some path) attr priv found unset s =
      lookIn currentProcess localtime dir (kept component) (component.any isWild) attr priv found
        unset s

/-- The names that fit what is kept of a component are the ones spelled like it, up to case
    and mangling, and all of them for `*.*`. -/
def FitsOnly (component : List UInt8) : Prop :=
  ∀ name fn83, matchesPattern (kept component) name fn83 = true ↔
    component = ascii "*.*" ∨ CaseEq component name ∨ CaseEq component fn83

/-! ### The two parts -/

section Parts

variable {path dir component : List UInt8}

theorem exists_lies (path : List UInt8) : ∃ dir component, Lies dir component path := by
  induction path using List.reverseRecOn with
  | nil => exact ⟨_, [], Lies.here (by simp)⟩
  | append_singleton path c ih =>
    by_cases hc : c = slash
    · subst hc
      cases path with
      | nil => exact ⟨_, [], Lies.inRoot (by simp)⟩
      | cons d path => exact ⟨_, [], Lies.below (List.cons_ne_nil d path) (by simp)⟩
    · have hmem : ∀ {l : List UInt8}, slash ∉ l → slash ∉ l ++ [c] := by
        intro l hl hmem
        rcases List.mem_append.mp hmem with hmem | hmem
        · exact hl hmem
        · exact hc (List.mem_singleton.mp hmem).symm
      obtain ⟨dir, component, hlies⟩ := ih
      cases hlies with
      | here h => exact ⟨_, _, Lies.here (hmem h)⟩
      | inRoot h => exact ⟨_, _, Lies.inRoot (hmem h)⟩
      | @below dir component hdir h =>
        refine ⟨dir, component ++ [c], ?_⟩
        rw [List.append_assoc, List.cons_append]
        exact Lies.below hdir (hmem h)

theorem Lies.noSlash (h : Lies dir component path) : slash ∉ component := by
  cases h with
  | here h => exact h
  | inRoot h => exact h
  | below hdir h => exact h

/-- `Fsfirst` finds the parts, but for the root. -/
theorem splitPath_lies (h : Lies dir component path) :
    splitPath path = (if path = slash :: component then [] else dir, kept component,
      component.any isWild) := by
  cases h with
  | here h =>
    have hne : path ≠ slash :: path := (List.cons_ne_self _ _).symm
    rw [if_neg hne]
    exact Wild.splitPath_here h
  | inRoot h =>
    rw [if_pos rfl]
    exact Wild.splitPath_below [] h
  | below hdir h =>
    have hne : dir ++ slash :: component ≠ slash :: component := by
      intro heq
      exact hdir (List.append_left_eq_self.mp heq)
    rw [if_neg hne]
    exact Wild.splitPath_below dir h

theorem fsfirst_eq_lookIn {currentProcess : UInt32} {localtime : Int64 → Tm} {attr : Int16}
    {priv : UInt64} {found : List UInt8 → Option (UInt64 × List Entry)} {unset : Stat} {s : State} :
    fsfirst currentProcess localtime (some path) attr priv found unset s =
      lookIn currentProcess localtime (splitPath path).1 (splitPath path).2.1 (splitPath path).2.2
        attr priv found unset s := rfl

end Parts

/-! ### The root -/

/-- What distinguishes a directory that is opened from one that is not. -/
theorem lookIn_opens {currentProcess : UInt32} {localtime : Int64 → Tm} {dir pattern : List UInt8}
    {glob : Bool} {attr : Int16} {priv dirh : UInt64}
    {found : List UInt8 → Option (UInt64 × List Entry)} {entries : List Entry} {unset : Stat}
    {s : State} {b domain : UInt32} (hset : Setting currentProcess s.memory b domain)
    (hpriv : priv ≠ 0) (hdirh : dirh ≠ 0) (hfound : found dir = some (dirh, entries)) :
    ∃ r t, lookIn currentProcess localtime dir pattern glob attr priv found unset s =
      Except.ok (r, t) ∧ t.host.next = s.host.next + 1 := by
  have hbegun := @Calls.ongoing_begun currentProcess s b domain priv entries hset hpriv
    ⟨dirh, attr, glob, pattern⟩ hdirh
  obtain ⟨r, t, m, left, k, -, hnext, -, ht⟩ := hbegun.searching.fsnext localtime unset
  have hnumber : t.host.next = s.host.next + 1 := by
    rcases ht with rfl | rfl <;> rfl
  have hfits := hset.fits
  unfold sizeofDTA at hfits
  have hcurrent := hset.readDta
  have hwrite := writeMemory64_ok priv s.memory (show b.toNat + 8 ≤ 0x1000000 by omega)
  unfold begun at hnext
  refine ⟨if r = tosEnmfil.toInt16 then tosEfilnf else r.toInt32, t, ?_, hnumber⟩
  simp only [lookIn, hcurrent, hfound, hwrite, hnext, Run.ok_bind]
  by_cases hr : r = tosEnmfil.toInt16
  · simp [hr]
  · simp [hr]

theorem lookIn_fails {currentProcess : UInt32} {localtime : Int64 → Tm} {dir pattern : List UInt8}
    {glob : Bool} {attr : Int16} {priv : UInt64}
    {found : List UInt8 → Option (UInt64 × List Entry)} {unset : Stat}
    {s : State} (hfound : found dir = none) {r : Int32} {t : State}
    (hrun : lookIn currentProcess localtime dir pattern glob attr priv found unset s =
      Except.ok (r, t)) : t.host = s.host := by
  obtain ⟨b, -, hrun⟩ := Run.bind_eq_ok.mp hrun
  simp only [hfound] at hrun
  obtain ⟨records, -, hrun⟩ := Run.bind_eq_ok.mp hrun
  obtain ⟨memory, -, hrun⟩ := Run.bind_eq_ok.mp hrun
  cases hrun
  rfl

/-- A host that can open the root, and nothing by an empty name. -/
def rootOnly (dir : List UInt8) : Option (UInt64 × List Entry) :=
  if dir = ascii "/" then some (0x7000, Wild.oneFile) else none

/-- The root is not searched. -/
theorem not_looksFor_root {component : List UInt8} (hslash : slash ∉ component) :
    ¬ LooksFor (slash :: component) (ascii "/") component := by
  intro h
  have hrun := h 0x10800 Runs.noTime 0 0x5000 rootOnly ⟨0, 0, 0⟩ Runs.launched
  obtain ⟨r, t, hopens, hnext⟩ := @lookIn_opens 0x10800 Runs.noTime (ascii "/") (kept component)
    (component.any isWild) 0 0x5000 0x7000 rootOnly Wild.oneFile ⟨0, 0, 0⟩ Runs.launched _ _
    Wild.launched_setting (by decide) (by decide) rfl
  have hsplit := splitPath_lies (Lies.inRoot hslash)
  rw [if_pos rfl] at hsplit
  rw [hopens, fsfirst_eq_lookIn, hsplit] at hrun
  have hhost := lookIn_fails rfl hrun
  rw [hhost] at hnext
  exact absurd hnext (Nat.succ_ne_self _).symm

/-! ### What fits -/

theorem fitsOnly_iff {component : List UInt8} : FitsOnly component ↔ component ≠ [] := by
  constructor
  · rintro h rfl
    have hfits := (h [slash] [slash]).mp rfl
    revert hfits
    decide
  · intro hne name fn83
    by_cases hall : component = ascii "*.*"
    · simp [kept, hall, matchesPattern]
    · have hempty : component.isEmpty = false := by simpa using hne
      simp [kept, hall, matchesPattern, hempty]

theorem Lies.getLast {path dir component : List UInt8} (h : Lies dir component path) :
    path.getLast?.any (· != slash) = true ↔ component ≠ [] := by
  have hends : ∀ front : List UInt8, slash ∉ component →
      ((front ++ component).getLast?.any (· != slash) = true ↔
        component ≠ [] ∨ front.getLast?.any (· != slash) = true) := by
    intro front hslash
    cases hlast : component.getLast? with
    | none => simp [List.getLast?_eq_none_iff.mp hlast]
    | some c =>
      have hmem : c ∈ component := List.mem_of_getLast? hlast
      have hne : component ≠ [] := List.ne_nil_of_mem hmem
      have hc : c ≠ slash := fun heq => hslash (heq ▸ hmem)
      simp [List.getLast?_append, hlast, hne, hc]
  cases h with
  | here h => simpa using hends [] h
  | inRoot h => simpa using hends [slash] h
  | @below dir component hdir h => simpa using hends (dir ++ [slash]) h

/-- **When `Fsfirst` looks where it should, and for what it should**: it finds the directory,
    the pattern and the flag of every path but one whose last `/` is its first character,
    and the pattern fits no other name unless nothing stands behind the last `/`. -/
theorem fsfirst_splits_iff (path : List UInt8) :
    ((∀ dir component, Lies dir component path → LooksFor path dir component) ↔
      ∀ component, slash ∉ component → path ≠ slash :: component) ∧
    ((∀ dir component, Lies dir component path → FitsOnly component) ↔
      path.getLast?.any (· != slash) = true) := by
  obtain ⟨dir, component, hlies⟩ := exists_lies path
  constructor
  · constructor
    · rintro hall component' hslash rfl
      exact not_looksFor_root hslash (hall _ _ (Lies.inRoot hslash))
    · intro hroot dir' component' hlies' currentProcess localtime attr priv found unset s
      rw [fsfirst_eq_lookIn, splitPath_lies hlies', if_neg (hroot _ hlies'.noSlash)]
  · constructor
    · intro hall
      exact hlies.getLast.mpr (fitsOnly_iff.mp (hall dir component hlies))
    · intro hend dir' component' hlies'
      exact fitsOnly_iff.mpr (hlies'.getLast.mp hend)

/-- A file in the root is not looked for there. -/
theorem root_not_searched :
    ¬ ∀ dir component, Lies dir component (ascii "/a") → LooksFor (ascii "/a") dir component := by
  intro hall
  have hslash : slash ∉ ascii "a" := by decide
  exact not_looksFor_root hslash (hall _ _ (Lies.inRoot hslash))

end Split

end ParaTos.FileSearch
