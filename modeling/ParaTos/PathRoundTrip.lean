/-
  ParaTos/PathRoundTrip.lean
  ==========================
  **Names that the guest was given find their files again.**

  `Dgetpath` and `Fsnext` hand 8.3 names to the guest, `tos_path_to_unix` takes
  them back.  In a directory whose entries have different 8.3 names the way back
  leads to the entry it started from, in either domain and in any order of the
  entries: whatever matches a short name, exactly, up to case or through its own
  8.3 name, has that 8.3 name itself (`nameFor_short`).

  A colon in the second place is the exception.  It makes a drive of what stands
  in front of it.
-/
import ParaTos.PathContract

namespace ParaTos.Path

open CString Filename

/-! ### Dgetpath -/

/-- The translation loop of `Dgetpath` (`gemdos/dir.c`). -/
def dgetpathLoop (uppercase : Bool) : Nat → List UInt8 → Run (List UInt8)
  | 0, _ => Except.error .diverges
  | _ + 1, [] => Except.ok []
  | rounds + 1, c :: s =>
    if c = slash then do
      let d ← dgetpathLoop uppercase rounds s
      return backslash :: d
    else do
      let (name, s) := filename83 uppercase (c :: s)
      let d ← dgetpathLoop uppercase rounds s
      return name ++ d

/-- The TOS path that `Dgetpath` makes of the current directory. -/
def dgetpath (uppercase : Bool) (unixPath : List UInt8) : Run (List UInt8) :=
  dgetpathLoop uppercase (unixPath.length + 1) unixPath

/-- The path `/c1/…/ck`. -/
def unixPath (comps : List (List UInt8)) : List UInt8 := comps.flatMap (slash :: ·)

/-- A path component that the guest can be told: none of its characters ends a name, and
    it is neither `.` nor `..`. -/
structure Component (n : List UInt8) : Prop where
  name : IsName n
  notDots : isDots n = false

theorem dgetpathLoop_spec (uppercase : Bool) :
    ∀ {comps : List (List UInt8)} (rounds : Nat), (∀ c ∈ comps, Component c) →
      (unixPath comps).length < rounds →
      dgetpathLoop uppercase rounds (unixPath comps) =
        Except.ok (comps.flatMap fun c => backslash :: (filename83 uppercase c).1) := by
  intro comps
  induction comps with
  | nil =>
    intro rounds _ hrounds
    obtain ⟨k, rfl⟩ : ∃ k, rounds = k + 1 := ⟨rounds - 1, by omega⟩
    rfl
  | cons c comps ih =>
    intro rounds hcomps hrounds
    have hc := hcomps c (by simp)
    have hshape : unixPath (c :: comps) = slash :: (c ++ unixPath comps) := by
      simp [unixPath]
    have hpos : 0 < c.length := List.length_pos_of_ne_nil hc.name.nonempty
    rw [hshape, List.length_cons, List.length_append] at hrounds
    obtain ⟨k, rfl⟩ : ∃ k, rounds = k + 2 := ⟨rounds - 2, by omega⟩
    have hrest : ∀ d ∈ (unixPath comps).head?, endOfName d = true := by
      intro d hd
      cases comps with
      | nil => cases hd
      | cons e comps =>
        cases hd
        rfl
    have hfn := filename83_append uppercase hc.name.inside hrest
    have hloop := ih k (fun d hd => hcomps d (by simp [hd])) (by omega)
    obtain ⟨d, s, hds⟩ := List.exists_cons_of_ne_nil hc.name.nonempty
    have hd : d ≠ slash := by
      rintro rfl
      have h := hc.name.inside slash (by simp [hds])
      exact absurd h (by decide)
    rw [hshape, dgetpathLoop, if_pos rfl]
    rw [hds, List.cons_append] at hfn ⊢
    rw [dgetpathLoop, if_neg hd, hfn]
    simp [hloop]

/-! ### The way back -/

/-- The entries of a directory have different 8.3 names, up to case. -/
def Distinct (entries : List (List UInt8)) : Prop :=
  ∀ e ∈ entries, ∀ e' ∈ entries,
    CaseEq (filename83 true e).1 (filename83 true e').1 → e = e'

/-- The directory that `pre` names can be read, its entries have different 8.3 names, and
    `n` is one of them.  `lstat` finds nothing there that `readdir` does not deliver. -/
structure Listed (fs : HostFiles) (pre n : List UInt8) : Prop where
  exists_entries : ∃ entries, fs.opendir (parent pre) = some entries ∧ n ∈ entries ∧
    Distinct entries ∧ ∀ m, IsName m → fs.lstat (pre ++ m) = true → m ∈ entries

/-- **An 8.3 name leads back to its entry.** -/
theorem nameFor_short {fs : HostFiles} {pre n : List UInt8} (uppercase uppercase' : Bool)
    (hl : Listed fs pre n) (hn : Component n) :
    nameFor fs uppercase' pre (filename83 uppercase n).1 = some (some n) := by
  obtain ⟨entries, hdir, hmem, hdistinct, hstat⟩ := hl.exists_entries
  obtain ⟨hshort, hname⟩ := short_filename83 uppercase hn.name hn.notDots
  -- an entry that equals the short name up to case is short, hence its own 8.3 name
  have hcase : ∀ e ∈ entries, CaseEq (filename83 uppercase n).1 e → e = n := by
    intro e he hce
    have heself := filename83_short true (hshort.caseEq hce.symm) (hname.caseEq hce.symm)
    apply hdistinct e he n hmem
    exact (heself.trans hce.symm).trans (caseEq_filename83 uppercase true n)
  have hmangled : ∀ e ∈ entries,
      CaseEq (filename83 uppercase n).1 (filename83 uppercase' e).1 → e = n := by
    intro e he hce
    apply hdistinct e he n hmem
    exact ((caseEq_filename83 true uppercase' e).trans hce.symm).trans
      (caseEq_filename83 uppercase true n)
  rw [nameFor]
  by_cases hfound : fs.lstat (pre ++ (filename83 uppercase n).1) = true
  · rw [if_pos hfound]
    have hself := hcase _ (hstat _ hname hfound) (CaseEq.refl _)
    rw [hself]
  · rw [if_neg hfound, hdir, Option.map_some]
    cases hscan : scanDir uppercase' (filename83 uppercase n).1
        (filename83 uppercase n).1.length entries with
    | none =>
      -- the entry itself matches
      have hnone := (scanDir_none.mp hscan n hmem).2
      exact absurd ⟨hshort.length_le, caseEq_filename83 uppercase uppercase' n⟩ hnone
    | some e =>
      obtain ⟨he, hmatch⟩ := scanDir_some hscan
      rcases hmatch with hmatch | ⟨-, hmatch⟩
      · rw [hcase e he hmatch]
      · rw [hmangled e he hmatch]

/-- Every component of a directory path is listed in the one in front of it. -/
def ListedPath (fs : HostFiles) : List UInt8 → List (List UInt8) → Prop
  | _, [] => True
  | pre, c :: comps => Component c ∧ Listed fs pre c ∧ ListedPath fs (pre ++ c ++ [slash]) comps

theorem resolve_short {fs : HostFiles} (uppercase uppercase' : Bool) :
    ∀ {comps : List (List UInt8)} {pre : List UInt8}, comps ≠ [] → ListedPath fs pre comps →
      resolve fs uppercase' pre (comps.map fun c => (filename83 uppercase c).1) false =
        some (pre ++ [slash].intercalate comps) := by
  intro comps
  induction comps with
  | nil =>
    intro pre hne _
    exact absurd rfl hne
  | cons c comps ih =>
    intro pre _ hpath
    obtain ⟨hc, hlisted, hrest⟩ := hpath
    rw [List.map_cons, resolve, nameFor_short uppercase uppercase' hlisted hc]
    cases comps with
    | nil => simp [List.intercalate]
    | cons d comps =>
      have hnext := ih (by simp) hrest
      simp only [List.map_cons, List.isEmpty_cons, Bool.false_and, Bool.false_eq_true, if_false]
        at hnext ⊢
      rw [hnext, intercalate_cons c (by simp)]
      simp

/-! ### The parts of a translated path -/

theorem tosPath_components (uppercase : Bool) {comps : List (List UInt8)}
    (hcomps : ∀ c ∈ comps, Component c) :
    components (comps.flatMap fun c => backslash :: (filename83 uppercase c).1) =
      comps.map fun c => (filename83 uppercase c).1 := by
  induction comps with
  | nil => exact components_nil
  | cons c comps ih =>
    have hc := hcomps c (by simp)
    have hname := (short_filename83 uppercase hc.name hc.notDots).2
    have hsep := hname.pathSep
    rw [List.flatMap_cons, List.cons_append, components_sep rfl, List.map_cons,
      ← ih (fun d hd => hcomps d (by simp [hd]))]
    cases comps with
    | nil => simp [components_name hname.nonempty hsep, components_nil]
    | cons d comps =>
      rw [List.flatMap_cons, List.cons_append,
        components_append hname.nonempty hsep rfl, components_sep rfl]

theorem tosPath_trailing (uppercase : Bool) {comps : List (List UInt8)} (hne : comps ≠ [])
    (hcomps : ∀ c ∈ comps, Component c) :
    trailing (comps.flatMap fun c => backslash :: (filename83 uppercase c).1) = false := by
  induction comps with
  | nil => exact absurd rfl hne
  | cons c comps ih =>
    rw [List.flatMap_cons]
    cases comps with
    | nil =>
      have hc := hcomps c (by simp)
      have hname := (short_filename83 uppercase hc.name hc.notDots).2
      rw [List.flatMap_nil, List.append_nil, trailing_cons hname.nonempty]
      exact trailing_name hname.pathSep
    | cons d comps =>
      rw [trailing_append (by simp)]
      exact ih (by simp) (fun e he => hcomps e (by simp [he]))

theorem unixPath_eq {comps : List (List UInt8)} (hne : comps ≠ []) :
    unixPath comps = [slash] ++ [slash].intercalate comps := by
  induction comps with
  | nil => exact absurd rfl hne
  | cons c comps ih =>
    cases comps with
    | nil => simp [unixPath, List.intercalate]
    | cons d comps =>
      have h := ih (by simp)
      simp only [unixPath, List.flatMap_cons] at h ⊢
      rw [h, intercalate_cons c (by simp)]
      simp

/-! ### Colons -/

theorem copyBase_colon (k : Nat) {i : Nat} {s : List UInt8} {needsHash : Bool}
    (h : (copyBase false k s needsHash).1[i]? = some colon) : s[i]? = some colon := by
  induction k generalizing i s needsHash with
  | zero => simp [copyBase] at h
  | succ k ih =>
    cases s with
    | nil =>
      cases needsHash with
      | false => simp [copyBase] at h
      | true =>
        have hmem := List.mem_of_getElem? h
        simp only [copyBase, if_true] at hmem
        exact absurd (List.eq_of_mem_replicate hmem) (by decide)
    | cons c s =>
      by_cases hc : c = dot
      · cases i with
        | zero =>
          simp only [copyBase, hc, if_true, List.getElem?_cons_zero] at h
          exact absurd (Option.some.inj h) (by decide)
        | succ i =>
          simp only [copyBase, hc, if_true, List.getElem?_cons_succ] at h ⊢
          exact ih h
      · cases i with
        | zero => simpa [copyBase, hc] using h
        | succ i =>
          simp only [copyBase, hc, if_false, List.getElem?_cons_succ] at h ⊢
          exact ih h

/-- A colon in one of the first two places of an 8.3 name stands there in the name. -/
theorem colon_filename83 {uppercase : Bool} {n : List UInt8} (hn : Component n) {i : Nat}
    (hi : i ≤ 1) (h : (filename83 uppercase n).1[i]? = some colon) : n[i]? = some colon := by
  have hlower : (shorten false n)[i]? = some colon := by
    rw [filename83_fold, filename83_name hn.name, hn.notDots, List.getElem?_map] at h
    obtain ⟨c, hc, hfold⟩ := Option.map_eq_some_iff.mp h
    have hcase : tolower c = colon := by
      rw [← tolower_fold uppercase, hfold]
      rfl
    rw [(tolower_eq_iff (by decide) (by decide)).mp hcase] at hc
    exact hc
  -- the hash stands behind the fourth character
  have hdest : ((copyBase false 8 (baseOf n) (tooLong n)).1 ++ copyExt false n)[i]? =
      some colon := by
    rw [shorten] at hlower
    simp only at hlower
    split at hlower
    · rw [addHash, List.getElem?_set_ne (by omega), List.getElem?_set_ne (by omega),
        List.getElem?_set_ne (by omega), List.getElem?_set_ne (by omega)] at hlower
      exact hlower
    · exact hlower
  have hbasePos : 0 < (copyBase false 8 (baseOf n) (tooLong n)).1.length :=
    List.length_pos_of_ne_nil (copyBase_nonempty (baseOf_name hn.name).nonempty _)
  by_cases hin : i < (copyBase false 8 (baseOf n) (tooLong n)).1.length
  · rw [List.getElem?_append_left hin] at hdest
    have hbase := copyBase_colon 8 hdest
    rw [baseOf] at hbase
    split at hbase
    · rw [List.getElem?_take] at hbase
      split at hbase
      · exact hbase
      · cases hbase
    · exact hbase
  · have hzero : i - (copyBase false 8 (baseOf n) (tooLong n)).1.length = 0 := by omega
    rw [List.getElem?_append_right (by omega), hzero] at hdest
    rcases copyExt_cases hn.name with hext | ⟨ext, hext, -⟩
    · rw [hext] at hdest
      cases hdest
    · rw [hext, List.getElem?_cons_zero] at hdest
      exact absurd (Option.some.inj hdest) (by decide)

/-! ### The round trips -/

theorem ListedPath.component {fs : HostFiles} :
    ∀ {comps : List (List UInt8)} {pre : List UInt8}, ListedPath fs pre comps →
      ∀ c ∈ comps, Component c := by
  intro comps
  induction comps with
  | nil => simp
  | cons d comps ih =>
    intro pre hpath c hc
    rcases List.mem_cons.mp hc with rfl | hc
    · exact hpath.1
    · exact ih hpath.2.2 c hc

/-- A path without a drive that resolves is translated to what it resolves to. -/
theorem tosPathToUnix_of_resolve {fs : HostFiles} {uppercase : Bool} (garbage : Nat → UInt8)
    {path out : List UInt8} (hnul : 0 ∉ path) (hne : path ≠ []) (hcolon : path[1]? ≠ some colon)
    (hout : resolve fs uppercase (lead path) (components path) (trailing path) = some out) :
    ∃ block, tosPathToUnix fs uppercase garbage path = Except.ok (some block) ∧
      cstr block = Except.ok out := by
  obtain ⟨res, hrun, hres⟩ := convert_resolves fs uppercase garbage hnul hne
  rw [hout] at hres
  obtain ⟨block, rfl, hstr⟩ := hres
  refine ⟨block, ?_, hstr⟩
  rw [tosPathToUnix, stripDrive, if_neg hcolon]
  exact hrun

/-- **Round trips**: a directory path that does not begin with a colon, and a name whose
    second character is none, come back as they were. -/
theorem names_round_trip (fs : HostFiles) (uppercase uppercase' : Bool) (garbage : Nat → UInt8) :
    (∀ comps, comps ≠ [] → ListedPath fs [slash] comps →
      (∀ first ∈ comps.head?, first[0]? ≠ some colon) →
      ∃ tosPath block, dgetpath uppercase (unixPath comps) = Except.ok tosPath ∧
        tosPathToUnix fs uppercase' garbage tosPath = Except.ok (some block) ∧
        cstr block = Except.ok (unixPath comps)) ∧
    ∀ n, Component n → Listed fs [] n → n[1]? ≠ some colon →
      ∃ block, tosPathToUnix fs uppercase' garbage (filename83 uppercase n).1 =
          Except.ok (some block) ∧ cstr block = Except.ok n := by
  constructor
  · intro comps hne hpath hcolon
    have hcomps : ∀ c ∈ comps, Component c := hpath.component
    have hget : dgetpath uppercase (unixPath comps) =
        Except.ok (comps.flatMap fun c => backslash :: (filename83 uppercase c).1) :=
      dgetpathLoop_spec uppercase _ hcomps (by omega)
    have hresolve := resolve_short uppercase uppercase' hne hpath
    rw [← unixPath_eq hne, ← tosPath_components uppercase hcomps] at hresolve
    obtain ⟨block, hrun, hstr⟩ : ∃ block, tosPathToUnix fs uppercase' garbage
        (comps.flatMap fun c => backslash :: (filename83 uppercase c).1) =
          Except.ok (some block) ∧ cstr block = Except.ok (unixPath comps) := by
      apply tosPathToUnix_of_resolve
      · intro hmem
        obtain ⟨c, hc, h0⟩ := List.mem_flatMap.mp hmem
        rcases List.mem_cons.mp h0 with h0 | h0
        · exact absurd h0 (by decide)
        · have hname := (short_filename83 uppercase (hcomps c hc).name (hcomps c hc).notDots).2
          exact absurd (hname.inside 0 h0) (by decide)
      · cases comps with
        | nil => exact absurd rfl hne
        | cons c comps => simp
      · cases comps with
        | nil => exact absurd rfl hne
        | cons c comps =>
          have hc := hcomps c (by simp)
          have hpos : 0 < (filename83 uppercase c).1.length :=
            List.length_pos_of_ne_nil (short_filename83 uppercase hc.name hc.notDots).2.nonempty
          rw [List.flatMap_cons, List.cons_append, List.getElem?_cons_succ,
            List.getElem?_append_left hpos]
          intro h
          exact hcolon c (by simp) (colon_filename83 hc (by decide) h)
      · rw [tosPath_trailing uppercase hne hcomps]
        have hlead : lead (comps.flatMap fun c => backslash :: (filename83 uppercase c).1) =
            [slash] := by
          cases comps with
          | nil => exact absurd rfl hne
          | cons c comps => rfl
        rw [hlead]
        exact hresolve
    exact ⟨_, block, hget, hrun, hstr⟩
  · intro n hn hlisted hcolon
    obtain ⟨hshort, hname⟩ := short_filename83 uppercase hn.name hn.notDots
    have hsep := hname.pathSep
    apply tosPathToUnix_of_resolve
    · intro h0
      exact absurd (hname.inside 0 h0) (by decide)
    · exact hname.nonempty
    · intro h
      exact hcolon (colon_filename83 hn (by decide) h)
    · have hlead : lead (filename83 uppercase n).1 = [] := by
        obtain ⟨c, s, hcs⟩ := List.exists_cons_of_ne_nil hname.nonempty
        have hc : pathSep c = false := hsep c (by simp [hcs])
        simp [lead, hcs, hc]
      rw [hlead, components_name hname.nonempty hsep, trailing_name hsep, resolve,
        nameFor_short uppercase uppercase' hlisted hn]
      rfl

/-! ### A file system -/

/-- Two files in the root, one of them a directory, and two in the current directory. -/
def sampleFiles : HostFiles where
  lstat path := decide (path ∈ [ascii "/:A", ascii "/Long directory",
    ascii "/Long directory/read me.html", ascii "A:B", ascii "read me.html"])
  opendir dir :=
    if dir = ascii "/" then some [ascii ":A", ascii "Long directory"]
    else if dir = ascii "/Long directory" then some [ascii "read me.html"]
    else if dir = ascii "." then some [ascii "A:B", ascii "read me.html"]
    else none
  names := by
    have hall : ∀ entry ∈ [ascii ":A", ascii "Long directory", ascii "read me.html", ascii "A:B"],
        entry ≠ [] ∧ 0 ∉ entry ∧ slash ∉ entry := by decide
    intro dir entries hdir entry hentry
    apply hall
    split at hdir
    · cases hdir
      revert entry
      decide
    · split at hdir
      · cases hdir
        revert entry
        decide
      · split at hdir
        · cases hdir
          revert entry
          decide
        · cases hdir

/-- A directory of the sample lists its entries. -/
theorem sampleFiles_listed {pre n : List UInt8} {entries : List (List UInt8)}
    (hdir : sampleFiles.opendir (parent pre) = some entries) (hn : n ∈ entries)
    (hdistinct : ∀ e ∈ entries, ∀ e' ∈ entries,
      CaseEq (filename83 true e).1 (filename83 true e').1 → e = e')
    (hstat : ∀ path ∈ [ascii "/:A", ascii "/Long directory",
      ascii "/Long directory/read me.html", ascii "A:B", ascii "read me.html"],
      path.take pre.length = pre → path.drop pre.length ∈ entries ∨
        (path.drop pre.length).any endOfName = true) :
    Listed sampleFiles pre n := by
  refine ⟨entries, hdir, hn, hdistinct, ?_⟩
  intro m hm hfound
  have hpath := of_decide_eq_true hfound
  have hm' := hstat (pre ++ m) hpath (List.take_left)
  rw [List.drop_left] at hm'
  rcases hm' with h | h
  · exact h
  · obtain ⟨c, hc, hend⟩ := List.any_eq_true.mp h
    rw [hm.inside c hc] at hend
    cases hend

/-- A path of two long names, and one long name, in either domain. -/
theorem names_round_trip_long :
    (∃ tosPath block,
      dgetpath true (unixPath [ascii "Long directory", ascii "read me.html"]) =
        Except.ok tosPath ∧
      tosPathToUnix sampleFiles false (fun _ => 0xff) tosPath = Except.ok (some block) ∧
      cstr block = Except.ok (unixPath [ascii "Long directory", ascii "read me.html"])) ∧
    ∃ block, tosPathToUnix sampleFiles false (fun _ => 0xff)
        (filename83 true (ascii "read me.html")).1 = Except.ok (some block) ∧
      cstr block = Except.ok (ascii "read me.html") := by
  obtain ⟨hpath, hname⟩ := names_round_trip sampleFiles true false (fun _ => 0xff)
  constructor
  · apply hpath _ (by decide +kernel) _ (by decide +kernel)
    refine ⟨⟨⟨by decide +kernel, by decide +kernel⟩, by decide +kernel⟩, ?_, ⟨⟨by decide +kernel, by decide +kernel⟩, by decide +kernel⟩, ?_,
      trivial⟩
    · exact sampleFiles_listed rfl (by decide +kernel) (by decide +kernel) (by decide +kernel)
    · exact sampleFiles_listed rfl (by decide +kernel) (by decide +kernel) (by decide +kernel)
  · apply hname _ ⟨⟨by decide +kernel, by decide +kernel⟩, by decide +kernel⟩ _ (by decide +kernel)
    exact sampleFiles_listed rfl (by decide +kernel) (by decide +kernel) (by decide +kernel)

/-- A directory path that begins with a colon, and a name with a colon in the second
    place, are taken for names on a drive that there is not. -/
theorem colon_lost :
    (ListedPath sampleFiles [slash] [ascii ":A"] ∧
      dgetpath true (unixPath [ascii ":A"]) = Except.ok (ascii "\\:A") ∧
      tosPathToUnix sampleFiles true (fun _ => 0) (ascii "\\:A") = Except.ok none) ∧
    Component (ascii "A:B") ∧ Listed sampleFiles [] (ascii "A:B") ∧
      (filename83 true (ascii "A:B")).1 = ascii "A:B" ∧
      tosPathToUnix sampleFiles true (fun _ => 0) (ascii "A:B") = Except.ok none := by
  refine ⟨⟨⟨⟨⟨by decide +kernel, by decide +kernel⟩, by decide +kernel⟩, ?_, trivial⟩, ?_, rfl⟩,
    ⟨⟨by decide +kernel, by decide +kernel⟩, by decide +kernel⟩, ?_, by decide +kernel, rfl⟩
  · exact sampleFiles_listed rfl (by decide +kernel) (by decide +kernel) (by decide +kernel)
  · decide +kernel
  · exact sampleFiles_listed rfl (by decide +kernel) (by decide +kernel) (by decide +kernel)

end ParaTos.Path
