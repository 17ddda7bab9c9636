/-
  ParaTos/PathResolve.lean
  ========================
  **What a TOS path resolves to.**

  `resolve` is `tos_path_to_unix` on lists of components, with no buffer: it goes
  through the components of the path and replaces one that does not exist by the
  name of a matching entry of the directory that the components in front of it
  name.  `convert_resolves` says that the code, with all its cutting and pasting
  in the buffer, computes this function, whatever the buffer contained before, and
  never stores outside of it.

  `path_translated` is the contract that callers of `tos_path_to_unix` can rely on.
-/
import ParaTos.Path

namespace ParaTos.Path

open CString Filename

/-! ### The parts of a path -/

/-- The components of a path: what stands between its separators. -/
def components (path : List UInt8) : List (List UInt8) :=
  (path.splitOnP pathSep).filter (· ≠ [])

/-- The path ends in a separator. -/
def trailing (path : List UInt8) : Bool := path.getLast?.any pathSep

theorem components_nil : components [] = [] := by simp [components]

theorem components_sep {c : UInt8} (hc : pathSep c = true) (path : List UInt8) :
    components (c :: path) = components path := by
  simp [components, List.splitOnP_cons_eq_if_modifyHead, hc]

theorem components_name {n : List UInt8} (hne : n ≠ []) (hn : ∀ c ∈ n, pathSep c = false) :
    components n = [n] := by
  simp [components, List.splitOnP_eq_singleton hn, hne]

theorem components_append {n : List UInt8} (hne : n ≠ []) (hn : ∀ c ∈ n, pathSep c = false)
    {c : UInt8} (hc : pathSep c = true) (path : List UInt8) :
    components (n ++ c :: path) = n :: components path := by
  simp [components, List.splitOnP_append_cons_of_forall_mem hn c hc, hne]

theorem components_cons_ne_nil {c : UInt8} (hc : pathSep c = false) (path : List UInt8) :
    components (c :: path) ≠ [] := by
  cases hsplit : path.splitOnP pathSep with
  | nil => exact absurd hsplit (List.splitOnP_ne_nil _ _)
  | cons n rest => simp [components, List.splitOnP_cons_eq_if_modifyHead, hc, hsplit]

/-- The components of a path are its characters other than the separators. -/
theorem mem_components {path comp : List UInt8} (h : comp ∈ components path) :
    comp ≠ [] ∧ ∀ c ∈ comp, pathSep c = false ∧ c ∈ path := by
  have hpieces : ∀ path : List UInt8, ∀ piece ∈ path.splitOnP pathSep, ∀ c ∈ piece,
      pathSep c = false ∧ c ∈ path := by
    intro path
    induction path with
    | nil => simp
    | cons d path ih =>
      intro piece hpiece c hc
      rw [List.splitOnP_cons_eq_if_modifyHead] at hpiece
      split at hpiece
      · rcases List.mem_cons.mp hpiece with rfl | hpiece
        · cases hc
        · obtain ⟨hsep, hmem⟩ := ih piece hpiece c hc
          exact ⟨hsep, List.mem_cons_of_mem d hmem⟩
      · rename_i hd
        cases hsplit : path.splitOnP pathSep with
        | nil => exact absurd hsplit (List.splitOnP_ne_nil _ _)
        | cons first rest =>
          rw [hsplit] at hpiece ih
          simp only [List.modifyHead_cons, List.mem_cons] at hpiece
          rcases hpiece with rfl | hpiece
          · rcases List.mem_cons.mp hc with rfl | hc
            · exact ⟨by simpa using hd, by simp⟩
            · obtain ⟨hsep, hmem⟩ := ih first (by simp) c hc
              exact ⟨hsep, List.mem_cons_of_mem d hmem⟩
          · obtain ⟨hsep, hmem⟩ := ih piece (by simp [hpiece]) c hc
            exact ⟨hsep, List.mem_cons_of_mem d hmem⟩
  obtain ⟨hmem, hne⟩ := List.mem_filter.mp h
  exact ⟨by simpa using hne, hpieces path comp hmem⟩

/-- A path without components consists of separators. -/
theorem trailing_of_components {path : List UInt8} (hne : path ≠ [])
    (h : components path = []) : trailing path = true := by
  induction path with
  | nil => exact absurd rfl hne
  | cons c path ih =>
    by_cases hc : pathSep c = true
    · rw [components_sep hc] at h
      cases path with
      | nil => simp [trailing, hc]
      | cons d path =>
        have htail := ih (by simp) h
        simpa [trailing] using htail
    · exact absurd h (components_cons_ne_nil (by simpa using hc) path)

theorem trailing_cons {c : UInt8} {path : List UInt8} (hne : path ≠ []) :
    trailing (c :: path) = trailing path := by
  cases path with
  | nil => exact absurd rfl hne
  | cons d path => simp [trailing]

theorem trailing_append {n path : List UInt8} (hne : path ≠ []) :
    trailing (n ++ path) = trailing path := by
  rw [trailing, trailing, List.getLast?_append_of_ne_nil _ hne]

theorem trailing_name {n : List UInt8} (hn : ∀ c ∈ n, pathSep c = false) :
    trailing n = false := by
  cases hl : n.getLast? with
  | none => simp [trailing, hl]
  | some c => simp [trailing, hl, hn c (List.mem_of_getLast? hl)]

/-! ### Resolving without a buffer -/

/-- The directory that a resolved front of a path names. -/
def parent (done : List UInt8) : List UInt8 :=
  if done = [] then [dot] else if done.length = 1 then [slash] else done.dropLast

/-- What a component behind `done` becomes: the inner `none` when nothing matches, the
    outer one when the directory cannot be read. -/
def nameFor (fs : HostFiles) (uppercase : Bool) (done comp : List UInt8) :
    Option (Option (List UInt8)) :=
  if fs.lstat (done ++ comp) then some (some comp)
  else (fs.opendir (parent done)).map (scanDir uppercase comp comp.length)

/-- The Unix path for a list of components. -/
def resolve (fs : HostFiles) (uppercase : Bool) :
    List UInt8 → List (List UInt8) → Bool → Option (List UInt8)
  | done, [], _ => some done
  | done, comp :: comps, slashed =>
    let last := comps.isEmpty && !slashed
    match nameFor fs uppercase done comp with
    | none => none
    | some (some name) =>
      if last then some (done ++ name)
      else resolve fs uppercase (done ++ name ++ [slash]) comps slashed
    | some none => if last then some (done ++ comp) else none

/-! ### The buffer -/

section Buffer

variable {garbage : Nat → UInt8}

theorem growTo_spec {need : Nat} :
    ∀ (rounds sz : Nat), 0 < sz → need ≤ rounds + sz →
      ∃ sz', growTo need (rounds + 1) sz = Except.ok sz' ∧ need ≤ sz' ∧ sz ≤ sz' := by
  intro rounds
  induction rounds with
  | zero =>
    intro sz hpos hle
    have hsz : ¬ sz < need := by omega
    exact ⟨sz, by simp [growTo, hsz], by omega, by omega⟩
  | succ rounds ih =>
    intro sz hpos hle
    by_cases hsz : sz < need
    · obtain ⟨sz', hgrow, hneed, hle'⟩ := ih (sz * 2) (by omega) (by omega)
      refine ⟨sz', ?_, hneed, by omega⟩
      rw [growTo, if_pos hsz]
      exact hgrow
    · exact ⟨sz, by simp [growTo, hsz], by omega, by omega⟩

/-- `append` writes the string and its NUL behind what it keeps, and stays inside. -/
theorem append_spec (a rest src : List UInt8) (len : Nat) (hpos : 0 < (a ++ rest).length) :
    ∃ tail, append garbage src a.length ⟨a ++ rest, len⟩ =
      Except.ok ⟨a ++ src ++ 0 :: tail, a.length + src.length⟩ := by
  obtain ⟨sz, hgrow, hneed, hle⟩ := @growTo_spec (a.length + src.length + 1)
    (a.length + src.length + 1) (a ++ rest).length hpos (by omega)
  -- the enlarged block, cut where the string and its NUL go
  have hroom : 0 + src.length < (rest ++ junk garbage (sz - (a ++ rest).length)).length := by
    simp only [List.length_append, length_junk] at hle ⊢
    omega
  obtain ⟨front, b, x, c, hcut, hfront, hb⟩ := exists_cut hroom
  rw [List.eq_nil_of_length_eq_zero hfront, List.nil_append] at hcut
  have hblock : a ++ rest ++ junk garbage (sz - (a ++ rest).length) = a ++ b ++ [x] ++ c := by
    rw [List.append_assoc, hcut]
    simp
  refine ⟨c, ?_⟩
  simp only [append, hgrow, Run.ok_bind, hblock]
  rw [← bind_assoc, overwrite_string a hb]
  rfl

/-- The resolved front of a path: nothing, or a string that ends in a slash. -/
structure Front (done : List UInt8) : Prop where
  nul : 0 ∉ done
  slash : done = [] ∨ ∃ pre, done = pre ++ [Filename.slash]

/-- The buffer in front of and behind the cut. -/
theorem setBefore_spec {done : List UInt8} (hdone : Front done) (c d : UInt8)
    (tail : List UInt8) :
    (done = [] ∧ setBefore done.length c (done ++ tail) = Except.ok tail) ∨
      ∃ pre, done = pre ++ [Filename.slash] ∧
        setBefore done.length c (pre ++ [d] ++ tail) = Except.ok (pre ++ [c] ++ tail) := by
  rcases hdone.slash with rfl | ⟨pre, rfl⟩
  · exact Or.inl ⟨rfl, rfl⟩
  · refine Or.inr ⟨pre, rfl, ?_⟩
    have hne : (pre ++ [Filename.slash]).length ≠ 0 := by simp
    have hlen : (pre ++ [Filename.slash]).length - 1 = pre.length := by simp
    rw [setBefore, if_neg hne, hlen]
    exact @overwrite_append pre [d] [c] rfl tail

theorem scanDir_some {uppercase : Bool} {comp name : List UInt8} {l : Nat} :
    ∀ {entries : List (List UInt8)}, scanDir uppercase comp l entries = some name →
      name ∈ entries ∧
        (CaseEq comp name ∨ l ≤ 12 ∧ CaseEq comp (filename83 uppercase name).1) := by
  intro entries
  induction entries with
  | nil =>
    intro h
    cases h
  | cons e entries ih =>
    intro h
    rw [scanDir] at h
    split at h
    · rename_i hmatch
      cases h
      exact ⟨by simp, Or.inl hmatch⟩
    · split at h
      · rename_i hmatch
        cases h
        exact ⟨by simp, Or.inr hmatch⟩
      · obtain ⟨hmem, hmatch⟩ := ih h
        exact ⟨by simp [hmem], hmatch⟩

theorem scanDir_none {uppercase : Bool} {comp : List UInt8} {l : Nat}
    {entries : List (List UInt8)} :
    scanDir uppercase comp l entries = none ↔ ∀ e ∈ entries,
      ¬ CaseEq comp e ∧ ¬ (l ≤ 12 ∧ CaseEq comp (filename83 uppercase e).1) := by
  induction entries with
  | nil => simp [scanDir]
  | cons e entries ih =>
    rw [scanDir]
    split
    · rename_i hmatch
      simp [hmatch]
    · split
      · rename_i hmatch
        simp [hmatch]
      · rename_i h₁ h₂
        rw [ih]
        simp only [List.mem_cons, forall_eq_or_imp]
        exact ⟨fun h => ⟨⟨h₁, h₂⟩, h⟩, fun h => h.2⟩

theorem nameFor_nul {fs : HostFiles} {uppercase : Bool} {done comp name : List UInt8}
    (hcomp : 0 ∉ comp) (h : nameFor fs uppercase done comp = some (some name)) : 0 ∉ name := by
  rw [nameFor] at h
  split at h
  · cases h
    exact hcomp
  · obtain ⟨entries, hdir, hscan⟩ := Option.map_eq_some_iff.mp h
    exact (fs.names _ _ hdir name (scanDir_some hscan).1).2.1

/-- The result holds the string, with a NUL behind it. -/
def Holding (s : List UInt8) (r : Result) : Prop :=
  r.len = s.length ∧ ∃ tail, r.block = s ++ 0 :: tail

/-- The cut buffer: the parent directory, a NUL, and the component. -/
theorem cut_component {done comp : List UInt8} (hdone : Front done) (hcomp : 0 ∉ comp)
    (tail : List UInt8) : ∃ cut,
      setBefore done.length 0 (done ++ comp ++ 0 :: tail) = Except.ok cut ∧
      cstr (cut.drop done.length) = Except.ok comp ∧
      curdirOf done.length cut = Except.ok (parent done) ∧
      setBefore done.length slash cut = Except.ok (done ++ comp ++ 0 :: tail) := by
  rcases hdone.slash with hnil | ⟨pre, hpre⟩
  · subst hnil
    exact ⟨comp ++ 0 :: tail, rfl, cstr_append hcomp tail, rfl, rfl⟩
  · have hprenul : 0 ∉ pre := by
      have h := hdone.nul
      rw [hpre] at h
      simpa using fun hmem => h (List.mem_append_left _ hmem)
    have hcutAt : ∀ c d, setBefore done.length c (pre ++ [d] ++ (comp ++ 0 :: tail)) =
        Except.ok (pre ++ [c] ++ (comp ++ 0 :: tail)) := by
      intro c d
      rcases setBefore_spec hdone c d (comp ++ 0 :: tail) with ⟨h, -⟩ | ⟨pre', h, hset⟩
      · rw [h] at hpre
        simp at hpre
      · obtain rfl : pre' = pre := by
          rw [hpre] at h
          simpa using h.symm
        exact hset
    have hdoneLen : done.length = pre.length + 1 := by simp [hpre]
    refine ⟨pre ++ [0] ++ (comp ++ 0 :: tail), ?_, ?_, ?_, ?_⟩
    · have h := hcutAt 0 slash
      rw [hpre] at h ⊢
      simpa using h
    · have hdrop : (pre ++ [0] ++ (comp ++ 0 :: tail)).drop done.length = comp ++ 0 :: tail := by
        have hlen0 : done.length = (pre ++ [(0 : UInt8)]).length := by simp [hdoneLen]
        rw [hlen0, List.drop_left]
      rw [hdrop]
      exact cstr_append hcomp tail
    · have hne : done ≠ [] := by simp [hpre]
      have hne' : done.length ≠ 0 := by simp [hpre]
      rw [curdirOf, if_neg hne', parent, if_neg hne]
      by_cases hone : done.length = 1
      · rw [if_pos hone, if_pos hone]
      · rw [if_neg hone, if_neg hone, hpre, List.dropLast_concat]
        have h := cstr_append hprenul (comp ++ 0 :: tail)
        simpa using h
    · rw [hcutAt slash 0, hpre]
      simp

/-- What `lookUp` does to the buffer. -/
theorem lookUp_spec (fs : HostFiles) (uppercase : Bool) {done comp : List UInt8} (last : Bool)
    (hdone : Front done) (hcomp : 0 ∉ comp) {r : Result} (hr : Holding (done ++ comp) r) :
    ∃ res, lookUp fs uppercase garbage done.length comp.length last r = Except.ok res ∧
      match nameFor fs uppercase done comp with
      | none => res = none
      | some (some name) => ∃ r', res = some r' ∧ Holding (done ++ name) r'
      | some none =>
        if last then ∃ r', res = some r' ∧ Holding (done ++ comp) r' else res = none := by
  obtain ⟨hlen, tail, hblock⟩ := hr
  have hnul : 0 ∉ done ++ comp := by simp [hdone.nul, hcomp]
  have hpath : cstr r.block = Except.ok (done ++ comp) := by
    rw [hblock]
    exact cstr_append hnul tail
  by_cases hstat : fs.lstat (done ++ comp) = true
  · refine ⟨some r, by simp [lookUp, hpath, hstat], ?_⟩
    simp only [nameFor, hstat, if_true]
    exact ⟨r, rfl, hlen, tail, hblock⟩
  obtain ⟨cut, hcut, hname, hdir, hpaste⟩ := cut_component hdone hcomp tail
  rw [← hblock] at hcut
  simp only [lookUp, hpath, Run.ok_bind, hstat, Bool.false_eq_true, if_false, hcut, hname, hdir,
    nameFor]
  cases fs.opendir (parent done) with
  | none => exact ⟨none, rfl, rfl⟩
  | some entries =>
    simp only [hpaste, Run.ok_bind, Option.map_some]
    cases scanDir uppercase comp comp.length entries with
    | none =>
      cases last with
      | true => exact ⟨_, rfl, ⟨_, rfl, hlen, tail, rfl⟩⟩
      | false => exact ⟨none, rfl, rfl⟩
    | some entry =>
      obtain ⟨tail', happ⟩ := @append_spec garbage done (comp ++ 0 :: tail) entry r.len (by
        simp only [List.length_append, List.length_cons]
        omega)
      rw [← List.append_assoc] at happ
      refine ⟨some ⟨done ++ entry ++ 0 :: tail', done.length + entry.length⟩, ?_, _, rfl, ?_, tail',
        rfl⟩
      · simp only [happ, Run.ok_bind]
        rfl
      · simp

/-- The front part of what is left of a path, up to the next separator. -/
theorem exists_name {path : List UInt8} (hnul : 0 ∉ path) (i : Nat) :
    ∃ n after, path.drop i = n ++ after ∧ nextPathSep path i = i + n.length ∧
      (∀ c ∈ n, pathSep c = false) ∧ ∀ c ∈ after.head?, pathSep c = true := by
  refine ⟨(path.drop i).takeWhile (!endOfName ·), (path.drop i).dropWhile (!endOfName ·),
    List.takeWhile_append_dropWhile.symm, rfl, ?_, ?_⟩
  · intro c hc
    have h := List.all_eq_true.mp (List.all_takeWhile) c hc
    simp only [endOfName, Bool.not_or, Bool.and_eq_true, Bool.not_eq_true'] at h
    exact h.2
  · intro c hc
    have hmem : c ∈ path := by
      have hsub := (List.dropWhile_sublist (!endOfName ·) (l := path.drop i)).subset
      exact List.mem_of_mem_drop (hsub (List.mem_of_mem_head? hc))
    have h := List.head?_dropWhile_not (!endOfName ·) (path.drop i)
    rw [hc] at h
    have hne : c ≠ 0 := by
      rintro rfl
      exact hnul hmem
    simpa [endOfName, hne] using h

/-- Only the end of a path decides whether it is trailing. -/
theorem resolve_trailing (fs : HostFiles) (uppercase : Bool) (done n : List UInt8) (c : UInt8)
    (after : List UInt8) :
    resolve fs uppercase done (components after) (trailing (n ++ c :: after)) =
      resolve fs uppercase done (components after) (trailing after) := by
  by_cases hafter : after = []
  · rw [hafter, components_nil, resolve, resolve]
  · rw [trailing_append (by simp), trailing_cons hafter]

/-- One round of the loop, at the component `n`. -/
theorem pathLoop_component {fs : HostFiles} {uppercase : Bool} {path n after : List UInt8}
    {rounds i : Nat} {r : Result} (hi : ¬ path.length ≤ i) (hdrop : path.drop i = n ++ after)
    (hne : n ≠ []) :
    pathLoop fs uppercase garbage path (rounds + 1) i (i + n.length) r =
      (append garbage n r.len r >>= fun r₁ =>
        lookUp fs uppercase garbage r.len n.length (decide (path.length ≤ i + n.length)) r₁ >>=
          fun res =>
            match res with
            | none => Except.ok none
            | some r₂ =>
              if path.length ≤ i + n.length then Except.ok (some r₂)
              else append garbage [slash] r₂.len r₂ >>=
                pathLoop fs uppercase garbage path rounds (i + n.length + 1)
                  (nextPathSep path (i + n.length + 1))) := by
  have hnpos : 0 < n.length := List.length_pos_of_ne_nil hne
  have hij : ¬ i = i + n.length := by omega
  have htake : (path.drop i).take n.length = n := by
    rw [hdrop, List.take_left]
  rw [pathLoop, if_neg hi, if_neg hij]
  simp only [Nat.add_sub_cancel_left, htake]
  congr 1
  funext r₁
  congr 1
  funext res
  cases res with
  | none => rfl
  | some r₂ =>
    by_cases hlast : path.length ≤ i + n.length
    · simp [hlast]
    · simp [hlast]

section Loop

variable (fs : HostFiles) (uppercase : Bool) {path done : List UInt8} {rounds i : Nat} {r : Result}

/-- The loop is at offset `i`: the resolved front stands in the buffer, and it is a string
    there if no component is left. -/
structure Stands (path : List UInt8) (i : Nat) (done : List UInt8) (r : Result) : Prop where
  front : Front done
  len : r.len = done.length
  block : ∃ rest, r.block = done ++ rest
  room : 0 < r.block.length
  ended : components (path.drop i) = [] → Holding done r

/-- The buffer holds the answer. -/
def Answers (answer : Option (List UInt8)) (res : Option Result) : Prop :=
  match answer with
  | none => res = none
  | some out => ∃ r', res = some r' ∧ Holding out r'

/-- From offset `i` on the loop makes of the path what `resolve` makes of its rest. -/
def Finishes (garbage : Nat → UInt8) (path : List UInt8) (rounds i : Nat) (done : List UInt8)
    (r : Result) : Prop :=
  ∃ res, pathLoop fs uppercase garbage path rounds i (nextPathSep path i) r = Except.ok res ∧
    Answers (resolve fs uppercase done (components (path.drop i)) (trailing (path.drop i))) res

theorem finishes_end (hi : path.length ≤ i) (hr : Stands path i done r) :
    Finishes fs uppercase garbage path (rounds + 1) i done r := by
  have hdrop : path.drop i = [] := List.drop_eq_nil_of_le hi
  have hnone : components (path.drop i) = [] := by rw [hdrop, components_nil]
  refine ⟨some r, by simp [pathLoop, hi], ?_⟩
  rw [hnone, resolve]
  exact ⟨r, rfl, hr.ended hnone⟩

/-- A separator where a component could begin is passed over. -/
theorem finishes_sep {c : UInt8} {after : List UInt8} (hc : pathSep c = true)
    (hi : ¬ path.length ≤ i) (hdrop : path.drop i = c :: after) (hnext : nextPathSep path i = i)
    (h : Finishes fs uppercase garbage path rounds (i + 1) done r) :
    Finishes fs uppercase garbage path (rounds + 1) i done r := by
  obtain ⟨res, hrun, hres⟩ := h
  have hdrop' : path.drop (i + 1) = after := by
    rw [← List.drop_drop, hdrop]
    rfl
  have htrail := resolve_trailing fs uppercase done [] c after
  rw [List.nil_append] at htrail
  refine ⟨res, ?_, ?_⟩
  · rw [pathLoop, if_neg hi, hnext, if_pos rfl]
    exact hrun
  · rw [hdrop, components_sep hc, htrail]
    rw [hdrop'] at hres
    exact hres

/-- The component goes behind the front, and `lookUp` follows. -/
theorem Stands.lookUp (hr : Stands path i done r) {n : List UInt8} (hnul : 0 ∉ n) (last : Bool) :
    ∃ r₁ res, append garbage n r.len r = Except.ok r₁ ∧
      Path.lookUp fs uppercase garbage r.len n.length last r₁ = Except.ok res ∧
      match nameFor fs uppercase done n with
      | none => res = none
      | some (some name) => ∃ r', res = some r' ∧ Holding (done ++ name) r'
      | some none =>
        if last then ∃ r', res = some r' ∧ Holding (done ++ n) r' else res = none := by
  obtain ⟨hfront, hlen, ⟨rest, hblock⟩, hroom, -⟩ := hr
  obtain ⟨block, len⟩ := r
  obtain rfl : block = done ++ rest := hblock
  obtain rfl : len = done.length := hlen
  obtain ⟨tail, happ⟩ := @append_spec garbage done rest n done.length hroom
  have hhold : Holding (done ++ n) ⟨done ++ n ++ 0 :: tail, done.length + n.length⟩ :=
    ⟨by simp, tail, rfl⟩
  obtain ⟨res, hlook, hres⟩ := @lookUp_spec garbage fs uppercase done n last hfront hnul _ hhold
  exact ⟨_, res, happ, hlook, hres⟩

/-- A slash goes behind a resolved component, and the loop goes on from there. -/
theorem stands_slashed {name : List UInt8} (hfront : Front done) (hname : 0 ∉ name)
    (hr : Holding (done ++ name) r) (path : List UInt8) (i : Nat) :
    ∃ r', append garbage [slash] r.len r = Except.ok r' ∧
      Stands path i (done ++ name ++ [slash]) r' := by
  obtain ⟨hlen, tail, hblock⟩ := hr
  obtain ⟨block, len⟩ := r
  obtain rfl : block = done ++ name ++ 0 :: tail := hblock
  obtain rfl : len = (done ++ name).length := hlen
  obtain ⟨tail', happ⟩ := @append_spec garbage (done ++ name) (0 :: tail) [slash]
    (done ++ name).length (by simp only [List.length_append, List.length_cons]; omega)
  have hslash : (0 : UInt8) ≠ slash := by decide
  refine ⟨_, happ, ⟨?_, Or.inr ⟨done ++ name, rfl⟩⟩, ?_, ⟨0 :: tail', rfl⟩, ?_, fun _ => ?_⟩
  · simp [hfront.nul, hname, hslash]
  · simp only [List.length_append]
  · simp only [List.length_append, List.length_cons]
    omega
  · exact ⟨by simp only [List.length_append], tail', rfl⟩

variable {n : List UInt8} (hnul : 0 ∉ n) (hne : n ≠ []) (hn : ∀ c ∈ n, pathSep c = false)
  (hi : ¬ path.length ≤ i) (hnext : nextPathSep path i = i + n.length)

include hnul hne hn hi hnext

/-- The last component, with nothing behind it. -/
theorem finishes_last (hdrop : path.drop i = n) (hr : Stands path i done r) :
    Finishes fs uppercase garbage path (rounds + 1) i done r := by
  have hlast : path.length ≤ i + n.length := by
    rw [← hdrop, List.length_drop]
    omega
  obtain ⟨r₁, res, happ, hlook, hres⟩ :=
    @Stands.lookUp garbage fs uppercase path done i r hr n hnul true
  have hloop := @pathLoop_component garbage fs uppercase path n [] rounds i r hi
    (by rw [hdrop, List.append_nil]) hne
  rw [Finishes, hnext, hloop, hdrop, components_name hne hn, trailing_name hn, resolve]
  simp only [happ, Run.ok_bind, hlook, hlast, decide_true, if_true] at hres ⊢
  cases hname : nameFor fs uppercase done n with
  | none =>
    rw [hname] at hres
    obtain rfl : res = none := hres
    exact ⟨none, rfl, rfl⟩
  | some found =>
    cases found with
    | none =>
      rw [hname] at hres
      obtain ⟨r', rfl, hr'⟩ := hres
      exact ⟨some r', rfl, r', rfl, hr'⟩
    | some name =>
      rw [hname] at hres
      obtain ⟨r', rfl, hr'⟩ := hres
      exact ⟨some r', rfl, r', rfl, hr'⟩

/-- A component with a separator behind it. -/
theorem finishes_component {c : UInt8} {after : List UInt8} (hc : pathSep c = true)
    (hdrop : path.drop i = n ++ c :: after) (hr : Stands path i done r)
    (hrest : ∀ done r, Stands path (i + n.length + 1) done r →
      Finishes fs uppercase garbage path rounds (i + n.length + 1) done r) :
    Finishes fs uppercase garbage path (rounds + 1) i done r := by
  have hdropJ : path.drop (i + n.length) = c :: after := by
    rw [← List.drop_drop, hdrop, List.drop_left]
  have hdrop' : path.drop (i + n.length + 1) = after := by
    rw [← List.drop_drop, hdropJ]
    rfl
  have hlast : ¬ path.length ≤ i + n.length := by
    intro h
    rw [List.drop_eq_nil_of_le h] at hdropJ
    cases hdropJ
  -- a separator at the end counts
  have hnotLast : ((components after).isEmpty && !trailing (n ++ c :: after)) = false := by
    cases hcomps : components after with
    | cons d ds => rfl
    | nil =>
      have htrail : trailing (n ++ c :: after) = true := by
        rw [trailing_append (by simp)]
        apply trailing_of_components (by simp)
        rw [components_sep hc, hcomps]
      simp [htrail]
  obtain ⟨r₁, res, happ, hlook, hres⟩ :=
    @Stands.lookUp garbage fs uppercase path done i r hr n hnul false
  rw [Finishes, hnext, pathLoop_component hi hdrop hne, hdrop, components_append hne hn hc, resolve]
  simp only [happ, Run.ok_bind, hlook, hlast, decide_false, Bool.false_eq_true, if_false,
    hnotLast] at hres ⊢
  cases hname : nameFor fs uppercase done n with
  | none =>
    rw [hname] at hres
    obtain rfl : res = none := hres
    exact ⟨none, rfl, rfl⟩
  | some found =>
    cases found with
    | none =>
      rw [hname] at hres
      obtain rfl : res = none := hres
      exact ⟨none, rfl, rfl⟩
    | some name =>
      rw [hname] at hres
      obtain ⟨r', rfl, hr'⟩ := hres
      obtain ⟨r'', hslash, hstands⟩ := @stands_slashed garbage done r' name hr.front
        (nameFor_nul hnul hname) hr' path (i + n.length + 1)
      obtain ⟨res, hrun, hres⟩ := hrest _ r'' hstands
      refine ⟨res, ?_, ?_⟩
      · simp only [hslash, Run.ok_bind]
        exact hrun
      · simp only [resolve_trailing]
        rw [hdrop'] at hres
        exact hres

end Loop

/-- The loop over the components computes `resolve`. -/
theorem pathLoop_spec (fs : HostFiles) (uppercase : Bool) {path : List UInt8} (hnul : 0 ∉ path) :
    ∀ (rounds i : Nat) (done : List UInt8) (r : Result), path.length ≤ i + rounds →
      Stands path i done r → Finishes fs uppercase garbage path (rounds + 1) i done r := by
  intro rounds
  induction rounds with
  | zero =>
    intro i done r hrounds hr
    exact finishes_end fs uppercase hrounds hr
  | succ rounds ih =>
    intro i done r hrounds hr
    by_cases hi : path.length ≤ i
    · exact finishes_end fs uppercase hi hr
    obtain ⟨n, after, hdrop, hnext, hn, hafter⟩ := exists_name hnul i
    have hnnul : 0 ∉ n := by
      intro h
      apply hnul
      apply List.mem_of_mem_drop
      rw [hdrop]
      exact List.mem_append_left _ h
    by_cases hne : n = []
    · subst hne
      rw [List.nil_append] at hdrop
      cases after with
      | nil => exact absurd (List.drop_eq_nil_iff.mp hdrop) hi
      | cons c after =>
        have hc : pathSep c = true := hafter c (by simp)
        have hr' : Stands path (i + 1) done r := by
          refine { hr with ended := fun h => hr.ended ?_ }
          rw [hdrop, components_sep hc, ← h, ← List.drop_drop, hdrop]
          rfl
        exact finishes_sep fs uppercase hc hi hdrop hnext (ih (i + 1) done r (by omega) hr')
    · cases after with
      | nil =>
        rw [List.append_nil] at hdrop
        exact finishes_last fs uppercase hnnul hne hn hi hnext hdrop hr
      | cons c after =>
        have hc : pathSep c = true := hafter c (by simp)
        refine finishes_component fs uppercase hnnul hne hn hi hnext hc hdrop hr ?_
        intro done r hr
        exact ih (i + n.length + 1) done r (by omega) hr

theorem resolve_nul {fs : HostFiles} {uppercase slashed : Bool} :
    ∀ {comps : List (List UInt8)} {done out : List UInt8}, 0 ∉ done → (∀ c ∈ comps, 0 ∉ c) →
      resolve fs uppercase done comps slashed = some out → 0 ∉ out := by
  intro comps
  induction comps with
  | nil =>
    intro done out hdone _ h
    rw [resolve] at h
    cases h
    exact hdone
  | cons comp comps ih =>
    intro done out hdone hcomps h
    have hcomp : 0 ∉ comp := hcomps comp (by simp)
    have hslash : (0 : UInt8) ≠ slash := by decide
    rw [resolve] at h
    cases hname : nameFor fs uppercase done comp with
    | none => simp [hname] at h
    | some found =>
      cases found with
      | none =>
        simp only [hname] at h
        split at h
        · cases h
          simp [hdone, hcomp]
        · cases h
      | some name =>
        have hname0 : 0 ∉ name := nameFor_nul hcomp hname
        simp only [hname] at h
        split at h
        · cases h
          simp [hdone, hname0]
        · apply ih _ _ h
          · simp [hdone, hname0, hslash]
          · exact fun c hc => hcomps c (by simp [hc])

end Buffer

/-! ### What the code computes -/

/-- The slash in front of an absolute path. -/
def lead (path : List UInt8) : List UInt8 := if path.head?.any pathSep then [slash] else []

/-- **The code computes `resolve`**, stays inside its buffer and returns a string. -/
theorem convert_resolves (fs : HostFiles) (uppercase : Bool) (garbage : Nat → UInt8)
    {path : List UInt8} (hnul : 0 ∉ path) (hne : path ≠ []) :
    ∃ res, convert fs uppercase garbage path = Except.ok res ∧
      match resolve fs uppercase (lead path) (components path) (trailing path) with
      | none => res = none
      | some out => ∃ block, res = some block ∧ cstr block = Except.ok out := by
  have hpos : 0 < path.length := List.length_pos_of_ne_nil hne
  have hjunk : (junk garbage (path.length * 2)).length = path.length * 2 := length_junk _ _
  obtain ⟨c, path', rfl⟩ := List.exists_cons_of_ne_nil hne
  -- the buffer when the loop begins
  have hfront : Front (lead (c :: path')) := by
    rw [lead]
    split
    · exact ⟨by decide, Or.inr ⟨[], rfl⟩⟩
    · exact ⟨by simp, Or.inl rfl⟩
  obtain ⟨r, hstart, hstands⟩ : ∃ r : Result, startResult garbage (c :: path') = Except.ok r ∧
      Stands (c :: path') 0 (lead (c :: path')) r := by
    by_cases hc : pathSep c = true
    · obtain ⟨tail, happ⟩ := @append_spec garbage [] (junk garbage ((c :: path').length * 2))
        [slash] 0 (by rw [List.nil_append]; omega)
      refine ⟨⟨[slash] ++ 0 :: tail, 1⟩, ?_, hfront, ?_, ?_, by simp, ?_⟩
      · simp only [startResult, List.head?_cons, Option.any_some, hc, if_true]
        exact happ
      · simp [lead, hc]
      · exact ⟨0 :: tail, by simp [lead, hc]⟩
      · intro _
        exact ⟨by simp [lead, hc], tail, by simp [lead, hc]⟩
    · refine ⟨⟨junk garbage ((c :: path').length * 2), 0⟩, ?_, hfront, ?_, ?_, ?_, ?_⟩
      · simp [startResult, hc]
      · simp [lead, hc]
      · exact ⟨_, by simp [lead, hc]; rfl⟩
      · simp only
        omega
      · intro h
        exact absurd h (components_cons_ne_nil (by simpa using hc) path')
  obtain ⟨res, hrun, hres⟩ := @pathLoop_spec garbage fs uppercase _ hnul (c :: path').length 0
    (lead (c :: path')) r (by omega) hstands
  have hcode : convert fs uppercase garbage (c :: path') = Except.ok (res.map Result.block) := by
    simp only [convert, hstart, Run.ok_bind, hrun]
    cases res with
    | none => rfl
    | some r' => rfl
  refine ⟨res.map Result.block, hcode, ?_⟩
  rw [List.drop_zero] at hres
  cases hout : resolve fs uppercase (lead (c :: path')) (components (c :: path'))
      (trailing (c :: path')) with
  | none =>
    rw [hout] at hres
    rw [hres]
    rfl
  | some out =>
    rw [hout] at hres
    obtain ⟨r', rfl, -, tail, hblock'⟩ := hres
    refine ⟨r'.block, rfl, ?_⟩
    rw [hblock']
    apply cstr_append
    apply resolve_nul hfront.nul _ hout
    intro comp hcomp h0
    exact hnul ((mem_components hcomp).2 0 h0).2

end ParaTos.Path
