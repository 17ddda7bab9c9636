/-
  ParaTos/PathContract.lean
  =========================
  **What callers of `tos_path_to_unix` can rely on.**

  `Translation` and `Refusal` describe the two answers in terms of the path alone:
  its components, the slash in front and the one behind, and for each component
  what the host says about it under the components that are already resolved.
  `path_translated` says that the code always gives one of the two.

  `written_iff` is about the buffer alone: it is written to inside its bounds, and
  holds a string at the end, unless nothing is left of the path behind its drive.
-/
import ParaTos.PathResolve

namespace ParaTos.Path

open CString Filename

/-! ### The two answers -/

/-- The part of a result that `names` make up, each with its slash. -/
def front (start : List UInt8) (names : List (List UInt8)) : List UInt8 :=
  start ++ names.flatMap (· ++ [slash])

/-- `name` can stand for the component `comp` behind `pre`: it is the component itself,
    which exists there unless nothing follows it, or the component does not exist and
    `name` is an entry of the directory that matches it. -/
def StandsFor (fs : HostFiles) (uppercase : Bool) (pre comp name : List UInt8)
    (final : Prop) : Prop :=
  (name = comp ∧ (fs.lstat (pre ++ comp) = true ∨ final)) ∨
  (fs.lstat (pre ++ comp) = false ∧ ∃ entries, fs.opendir (parent pre) = some entries ∧
    name ∈ entries ∧ (CaseEq comp name ∨ CaseEq comp (filename83 uppercase name).1))

/-- `out` is a translation of `path`, component by component. -/
structure Translation (fs : HostFiles) (uppercase : Bool) (path out : List UInt8)
    (names : List (List UInt8)) : Prop where
  count : names.length = (components path).length
  name : ∀ n ∈ names, n ≠ [] ∧ slash ∉ n
  shape : out = lead path ++ [slash].intercalate names ++
    (if trailing path = true ∧ names ≠ [] then [slash] else [])
  absolute : out.head? = some slash ↔ path.head?.any pathSep = true
  each : ∀ i comp name, (components path)[i]? = some comp → names[i]? = some name →
    StandsFor fs uppercase (front (lead path) (names.take i)) comp name
      (i + 1 = (components path).length ∧ trailing path = false)

/-- Why a path has no translation: behind the first components, which have one, stands a
    component that does not exist, in a directory that cannot be opened, or in one
    without a matching entry and with a separator behind the component. -/
def Refusal (fs : HostFiles) (uppercase : Bool) (path : List UInt8) : Prop :=
  ∃ names comp, (components path)[names.length]? = some comp ∧
    (∀ i c name, (components path)[i]? = some c → names[i]? = some name →
      StandsFor fs uppercase (front (lead path) (names.take i)) c name False) ∧
    fs.lstat (front (lead path) names ++ comp) = false ∧
    (fs.opendir (parent (front (lead path) names)) = none ∨
      ∃ entries, fs.opendir (parent (front (lead path) names)) = some entries ∧
        (∀ e ∈ entries, ¬ CaseEq comp e ∧
          ¬ (comp.length ≤ 12 ∧ CaseEq comp (filename83 uppercase e).1)) ∧
        (names.length + 1 < (components path).length ∨ trailing path = true))

/-! ### From the components to the answers -/

section Answers

variable {fs : HostFiles} {uppercase : Bool}

theorem nameFor_standsFor {done comp name : List UInt8} (final : Prop)
    (h : nameFor fs uppercase done comp = some (some name)) :
    StandsFor fs uppercase done comp name final := by
  rw [nameFor] at h
  split at h
  · rename_i hstat
    cases h
    exact Or.inl ⟨rfl, Or.inl hstat⟩
  · rename_i hstat
    obtain ⟨entries, hdir, hscan⟩ := Option.map_eq_some_iff.mp h
    obtain ⟨hmem, hmatch⟩ := scanDir_some hscan
    refine Or.inr ⟨by simpa using hstat, entries, hdir, hmem, ?_⟩
    rcases hmatch with hmatch | hmatch
    · exact Or.inl hmatch
    · exact Or.inr hmatch.2

theorem nameFor_name {done comp name : List UInt8} (hcomp : comp ≠ [] ∧ slash ∉ comp)
    (h : nameFor fs uppercase done comp = some (some name)) : name ≠ [] ∧ slash ∉ name := by
  rw [nameFor] at h
  split at h
  · cases h
    exact hcomp
  · obtain ⟨entries, hdir, hscan⟩ := Option.map_eq_some_iff.mp h
    obtain ⟨hne, -, hslash⟩ := fs.names _ _ hdir name (scanDir_some hscan).1
    exact ⟨hne, hslash⟩

theorem nameFor_missing {done comp : List UInt8}
    (h : nameFor fs uppercase done comp = some none) :
    fs.lstat (done ++ comp) = false ∧ ∃ entries, fs.opendir (parent done) = some entries ∧
      ∀ e ∈ entries, ¬ CaseEq comp e ∧
        ¬ (comp.length ≤ 12 ∧ CaseEq comp (filename83 uppercase e).1) := by
  rw [nameFor] at h
  split at h
  · cases h
  · rename_i hstat
    obtain ⟨entries, hdir, hscan⟩ := Option.map_eq_some_iff.mp h
    exact ⟨by simpa using hstat, entries, hdir, scanDir_none.mp hscan⟩

theorem nameFor_unreadable {done comp : List UInt8} (h : nameFor fs uppercase done comp = none) :
    fs.lstat (done ++ comp) = false ∧ fs.opendir (parent done) = none := by
  rw [nameFor] at h
  split at h
  · cases h
  · rename_i hstat
    exact ⟨by simpa using hstat, Option.map_eq_none_iff.mp h⟩

theorem front_cons (done name : List UInt8) (names : List (List UInt8)) :
    front done (name :: names) = front (done ++ name ++ [slash]) names := by
  simp [front]

theorem intercalate_cons (name : List UInt8) {names : List (List UInt8)} (hne : names ≠ []) :
    [slash].intercalate (name :: names) = name ++ [slash] ++ [slash].intercalate names := by
  cases names with
  | nil => exact absurd rfl hne
  | cons n names => simp [List.intercalate]

/-- `names` stand for the components behind `done`, and make up what is behind it in `out`. -/
structure Named (fs : HostFiles) (uppercase slashed : Bool) (comps : List (List UInt8))
    (done out : List UInt8) (names : List (List UInt8)) : Prop where
  count : names.length = comps.length
  name : ∀ n ∈ names, n ≠ [] ∧ slash ∉ n
  shape : out = done ++ [slash].intercalate names ++
    (if slashed = true ∧ names ≠ [] then [slash] else [])
  each : ∀ i comp name, comps[i]? = some comp → names[i]? = some name →
    StandsFor fs uppercase (front done (names.take i)) comp name
      (i + 1 = comps.length ∧ slashed = false)

/-- The last component itself, or the entry that stands for it. -/
theorem named_last {done comp name : List UInt8} (hname : name ≠ [] ∧ slash ∉ name)
    (hstands : StandsFor fs uppercase done comp name True) :
    Named fs uppercase false [comp] done (done ++ name) [name] := by
  refine ⟨rfl, by simpa using hname, by simp [List.intercalate], ?_⟩
  intro i c n hc hn
  cases i with
  | zero =>
    cases hc
    cases hn
    simpa [front, StandsFor] using hstands
  | succ i => simp at hc

/-- One more component in front. -/
theorem Named.cons {slashed : Bool} {comps names : List (List UInt8)}
    {done out comp name : List UInt8}
    (h : Named fs uppercase slashed comps (done ++ name ++ [slash]) out names)
    (hname : name ≠ [] ∧ slash ∉ name) (hlast : comps = [] → slashed = true)
    (hstands : ∀ final, StandsFor fs uppercase done comp name final) :
    Named fs uppercase slashed (comp :: comps) done out (name :: names) := by
  obtain ⟨hlen, hnames, hout, heach⟩ := h
  refine ⟨by simp [hlen], ?_, ?_, ?_⟩
  · intro n hmem
    rcases List.mem_cons.mp hmem with rfl | hmem
    · exact hname
    · exact hnames n hmem
  · cases names with
    | nil =>
      have hslashed := hlast (List.eq_nil_of_length_eq_zero hlen.symm)
      simp [hout, hslashed, List.intercalate]
    | cons m names =>
      rw [hout, intercalate_cons name (by simp)]
      simp
  · intro i c n hc hn
    cases i with
    | zero =>
      cases hc
      cases hn
      simpa [front] using hstands _
    | succ i =>
      rw [List.take_succ_cons, front_cons]
      have h := heach i c n hc hn
      simpa using h

/-- What a list of components resolves to. -/
theorem resolve_some {slashed : Bool} {comps : List (List UInt8)} {done out : List UInt8}
    (hcomps : ∀ c ∈ comps, c ≠ [] ∧ slash ∉ c)
    (h : resolve fs uppercase done comps slashed = some out) :
    ∃ names, Named fs uppercase slashed comps done out names := by
  induction comps generalizing done out with
  | nil =>
    rw [resolve] at h
    cases h
    exact ⟨[], rfl, by simp, by simp [List.intercalate], by simp⟩
  | cons comp comps ih =>
    have hcomp := hcomps comp (by simp)
    have hrest : ∀ c ∈ comps, c ≠ [] ∧ slash ∉ c := fun c hc => hcomps c (by simp [hc])
    have hlastOf : (comps.isEmpty && !slashed) = true → comps = [] ∧ slashed = false := by
      intro hl
      simpa using hl
    rw [resolve] at h
    cases hname : nameFor fs uppercase done comp with
    | none => simp [hname] at h
    | some found =>
      cases found with
      | none =>
        simp only [hname] at h
        split at h
        · rename_i hl
          obtain ⟨rfl, rfl⟩ := hlastOf hl
          cases h
          exact ⟨[comp], named_last hcomp (Or.inl ⟨rfl, Or.inr trivial⟩)⟩
        · cases h
      | some name =>
        have hn := nameFor_name hcomp hname
        simp only [hname] at h
        split at h
        · rename_i hl
          obtain ⟨rfl, rfl⟩ := hlastOf hl
          cases h
          exact ⟨[name], named_last hn (nameFor_standsFor True hname)⟩
        · rename_i hl
          obtain ⟨names, hnames⟩ := ih hrest h
          refine ⟨name :: names, hnames.cons hn ?_ fun final => nameFor_standsFor final hname⟩
          intro hnil
          rw [hnil] at hl
          simpa using hl

/-- Why a list of components does not resolve. -/
theorem resolve_none {slashed : Bool} :
    ∀ {comps : List (List UInt8)} {done : List UInt8},
      resolve fs uppercase done comps slashed = none →
      ∃ (names : List (List UInt8)) (comp : List UInt8), comps[names.length]? = some comp ∧
        (∀ i c name, comps[i]? = some c → names[i]? = some name →
          StandsFor fs uppercase (front done (names.take i)) c name False) ∧
        fs.lstat (front done names ++ comp) = false ∧
        (fs.opendir (parent (front done names)) = none ∨
          ∃ entries, fs.opendir (parent (front done names)) = some entries ∧
            (∀ e ∈ entries, ¬ CaseEq comp e ∧
              ¬ (comp.length ≤ 12 ∧ CaseEq comp (filename83 uppercase e).1)) ∧
            (names.length + 1 < comps.length ∨ slashed = true)) := by
  intro comps
  induction comps with
  | nil =>
    intro done h
    cases h
  | cons comp comps ih =>
    intro done h
    rw [resolve] at h
    have hnil : front done [] = done := by simp [front]
    cases hname : nameFor fs uppercase done comp with
    | none =>
      obtain ⟨hstat, hdir⟩ := nameFor_unreadable hname
      refine ⟨[], comp, rfl, by simp, ?_, Or.inl ?_⟩
      · rwa [hnil]
      · rwa [hnil]
    | some found =>
      cases found with
      | none =>
        obtain ⟨hstat, entries, hdir, hnone⟩ := nameFor_missing hname
        simp only [hname] at h
        split at h
        · cases h
        · rename_i hl
          refine ⟨[], comp, rfl, by simp, ?_, Or.inr ⟨entries, ?_, hnone, ?_⟩⟩
          · rwa [hnil]
          · rwa [hnil]
          · cases comps with
            | nil => exact Or.inr (by simpa using hl)
            | cons c comps => exact Or.inl (by simp)
      | some name =>
        simp only [hname] at h
        split at h
        · cases h
        · obtain ⟨names, c, hc, heach, hstat, hwhy⟩ := ih h
          refine ⟨name :: names, c, by simpa using hc, ?_, ?_, ?_⟩
          · intro i d n hd hn
            cases i with
            | zero =>
              cases hd
              cases hn
              simpa [front] using nameFor_standsFor _ hname
            | succ i =>
              rw [List.take_succ_cons, front_cons]
              exact heach i d n hd hn
          · rwa [front_cons]
          · rw [front_cons]
            simpa using hwhy

end Answers

/-- A translation begins with a slash when the path does with a separator. -/
theorem absolute_iff {path out : List UInt8} {names : List (List UInt8)} (hne : path ≠ [])
    (hnames : ∀ n ∈ names, n ≠ [] ∧ slash ∉ n) (hlen : names.length = (components path).length)
    (hshape : out = lead path ++ [slash].intercalate names ++
      (if trailing path = true ∧ names ≠ [] then [slash] else [])) :
    out.head? = some slash ↔ path.head?.any pathSep = true := by
  obtain ⟨c, path, rfl⟩ := List.exists_cons_of_ne_nil hne
  by_cases hc : pathSep c = true
  · simp [hshape, lead, hc]
  · -- a relative path has a component, whose name begins the translation
    have hcomps := components_cons_ne_nil (by simpa using hc) path
    have hlead : lead (c :: path) = [] := by simp [lead, hc]
    cases names with
    | nil => exact absurd (List.eq_nil_of_length_eq_zero hlen.symm) hcomps
    | cons n names =>
      obtain ⟨hnne, hslash⟩ := hnames n (by simp)
      obtain ⟨d, n, rfl⟩ := List.exists_cons_of_ne_nil hnne
      have hhead : out.head? = some d := by
        rw [hshape, hlead]
        cases names with
        | nil => simp [List.intercalate]
        | cons m names => simp
      have hd : d ≠ slash := by
        rintro rfl
        exact hslash (by simp)
      simp [hhead, hd, hc]

/-! ### The contract -/

theorem nul_notMem_stripDrive {tosPath path : List UInt8} (hnul : 0 ∉ tosPath)
    (hstrip : stripDrive tosPath = some path) : 0 ∉ path := by
  rw [stripDrive] at hstrip
  split at hstrip
  · split at hstrip
    · cases hstrip
      exact fun h => hnul (List.mem_of_mem_drop h)
    · cases hstrip
  · cases hstrip
    exact hnul

/-- A path with a drive prefix other than `U:` is turned down; any other path, behind its
    prefix, is translated or refused. -/
theorem path_translated (fs : HostFiles) (uppercase : Bool) (garbage : Nat → UInt8)
    {tosPath : List UInt8} (hnul : 0 ∉ tosPath) (hsome : stripDrive tosPath ≠ some []) :
    ∃ res, tosPathToUnix fs uppercase garbage tosPath = Except.ok res ∧
      match stripDrive tosPath, res with
      | none, res => res = none
      | some path, none => Refusal fs uppercase path
      | some path, some block => ∃ out names, cstr block = Except.ok out ∧
          Translation fs uppercase path out names := by
  rw [tosPathToUnix]
  cases hstrip : stripDrive tosPath with
  | none => exact ⟨none, rfl, rfl⟩
  | some path =>
    have hne : path ≠ [] := by
      rintro rfl
      exact hsome hstrip
    have hpathnul := nul_notMem_stripDrive hnul hstrip
    have hcomps : ∀ c ∈ components path, c ≠ [] ∧ slash ∉ c := by
      intro c hc
      obtain ⟨hcne, hsep⟩ := mem_components hc
      exact ⟨hcne, fun h => absurd (hsep slash h).1 (by decide)⟩
    obtain ⟨res, hrun, hres⟩ := convert_resolves fs uppercase garbage hpathnul hne
    refine ⟨res, hrun, ?_⟩
    cases hout : resolve fs uppercase (lead path) (components path) (trailing path) with
    | none =>
      rw [hout] at hres
      rw [hres]
      exact resolve_none hout
    | some out =>
      rw [hout] at hres
      obtain ⟨block, rfl, hstr⟩ := hres
      obtain ⟨names, hlen, hnames, hshape, heach⟩ := resolve_some hcomps hout
      exact ⟨out, names, hstr, hlen, hnames, hshape,
        absolute_iff hne (by simpa [← hlen] using hnames) hlen hshape, heach⟩

/-- A directory with one file, whose name is not in capitals. -/
def oneFile : HostFiles where
  lstat path := path = ascii "Readme.txt"
  opendir dir := if dir = ascii "." then some [ascii "Readme.txt"] else none
  names := by
    intro dir entries hdir entry hentry
    split at hdir
    · cases hdir
      rw [List.mem_singleton.mp hentry]
      decide
    · cases hdir

/-- The path of that file as a TOS program gives it, with the drive. -/
theorem path_translated_capitals :
    ∃ res, tosPathToUnix oneFile true (fun _ => 0) (ascii "U:README.TXT") = Except.ok res ∧
      match stripDrive (ascii "U:README.TXT"), res with
      | none, res => res = none
      | some path, none => Refusal oneFile true path
      | some path, some block => ∃ out names, cstr block = Except.ok out ∧
          Translation oneFile true path out names :=
  path_translated oneFile true (fun _ => 0) (by decide) (by decide)

/-! ### The buffer -/

/-- Every write stays inside the buffer and every loop ends, and what is returned is
    `NULL`, or else a block with a string that owes nothing to what the block contained
    when it was new. -/
def Written (fs : HostFiles) (uppercase : Bool) (tosPath : List UInt8) : Prop :=
  ∃ out : Option (List UInt8), ∀ garbage, ∃ res,
    tosPathToUnix fs uppercase garbage tosPath = Except.ok res ∧
      res.map cstr = out.map Except.ok

/-- **Only a path of which nothing is left behind the drive gets a block that the function
    has not written to.** -/
theorem written_iff (fs : HostFiles) (uppercase : Bool) {tosPath : List UInt8}
    (hnul : 0 ∉ tosPath) : Written fs uppercase tosPath ↔ stripDrive tosPath ≠ some [] := by
  constructor
  · rintro ⟨out, hout⟩ hstrip
    obtain ⟨res, hrun, hstr⟩ := hout fun _ => 0
    -- `malloc(0)`, and the loop has nothing to do
    have hempty : tosPathToUnix fs uppercase (fun _ => 0) tosPath = Except.ok (some []) := by
      rw [tosPathToUnix, hstrip]
      rfl
    rw [hempty] at hrun
    cases hrun
    cases out with
    | none => cases hstr
    | some out => cases hstr
  · intro hsome
    cases hstrip : stripDrive tosPath with
    | none =>
      refine ⟨none, fun garbage => ⟨none, ?_, rfl⟩⟩
      rw [tosPathToUnix, hstrip]
    | some path =>
      have hne : path ≠ [] := by
        rintro rfl
        exact hsome hstrip
      refine ⟨resolve fs uppercase (lead path) (components path) (trailing path), ?_⟩
      intro garbage
      obtain ⟨res, hrun, hres⟩ :=
        convert_resolves fs uppercase garbage (nul_notMem_stripDrive hnul hstrip) hne
      refine ⟨res, ?_, ?_⟩
      · rw [tosPathToUnix, hstrip]
        exact hrun
      · cases hout : resolve fs uppercase (lead path) (components path) (trailing path) with
        | none =>
          rw [hout] at hres
          rw [hres]
          rfl
        | some out =>
          rw [hout] at hres
          obtain ⟨block, rfl, hstr⟩ := hres
          rw [Option.map_some, hstr]
          rfl

/-- The file of `oneFile`, in capitals again. -/
theorem written_iff_capitals :
    Written oneFile true (ascii "README.TXT") ↔ stripDrive (ascii "README.TXT") ≠ some [] :=
  written_iff oneFile true (by decide)

/-- The empty path gets a block of no bytes. -/
theorem empty_path_unwritten : ¬ Written oneFile true [] := by
  rintro ⟨out, hout⟩
  obtain ⟨res, hrun, hstr⟩ := hout fun _ => 0
  cases hrun
  cases out with
  | none => cases hstr
  | some out => cases hstr

end ParaTos.Path
