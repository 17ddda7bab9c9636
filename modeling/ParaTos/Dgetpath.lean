/-
  ParaTos/Dgetpath.lean
  =====================
  **The loop of `Dgetpath` and its buffer** (`gemdos/dir.c`).

  `Dgetpath` translates the current directory into a buffer that is as long as the
  directory's own path.  An 8.3 name is mostly shorter than the name it is made from,
  but a name that has to be mangled gets all eight characters, and its extension
  behind them, however short it was: `inside_iff` says for which paths the buffer is
  large enough.

  The loop leaves it to `filename8_3` to move on.  A name ends there at a slash or a
  backslash, while the loop itself only passes over slashes: `advances_iff` says that
  it comes to its end exactly if the path has no backslash.
-/
import Mathlib.Algebra.GroupWithZero.Nat
import Mathlib.Data.List.TakeWhile
import Mathlib.Data.Nat.Init
import Mathlib.Logic.Function.Iterate
import ParaTos.PathRoundTrip

namespace ParaTos.Path

open CString Filename

/-! ### The source pointer -/

/-- Where the source pointer is after one round of the loop. -/
def nextSource (uppercase : Bool) : List UInt8 → List UInt8
  | [] => []
  | c :: s => if c = slash then s else (filename83 uppercase (c :: s)).2

/-- Where the path goes on behind a character that does not end a name. -/
theorem filename83_rest (uppercase : Bool) {c : UInt8} (hc : endOfName c = false)
    (s : List UInt8) : (filename83 uppercase (c :: s)).2 = s.dropWhile (!endOfName ·) := by
  simp [filename83, hc]

theorem not_endOfName {c : UInt8} (hnul : c ≠ 0) (hslash : c ≠ slash) (hback : c ≠ backslash) :
    endOfName c = false := by
  simp [endOfName, pathSep, hnul, hslash, hback]

theorem nextSource_suffix (uppercase : Bool) (s : List UInt8) : nextSource uppercase s <:+ s := by
  cases s with
  | nil => exact List.suffix_rfl
  | cons c s =>
    rw [nextSource]
    split
    · exact List.suffix_cons c s
    · exact List.dropWhile_suffix _

/-- Any other round gets on. -/
theorem nextSource_advances (uppercase : Bool) {c : UInt8} {s : List UInt8} (hnul : c ≠ 0)
    (hback : c ≠ backslash) : (nextSource uppercase (c :: s)).length < (c :: s).length := by
  rw [nextSource, List.length_cons]
  by_cases hslash : c = slash
  · rw [if_pos hslash]
    exact Nat.lt_succ_self _
  · rw [if_neg hslash, filename83_rest uppercase (not_endOfName hnul hslash hback)]
    exact Nat.lt_succ_of_le (List.dropWhile_suffix _).length_le

/-- The loop goes on from there. -/
theorem dgetpathLoop_next (uppercase : Bool) (rounds : Nat) {s : List UInt8} (hs : s ≠ []) :
    (∃ out, dgetpathLoop uppercase (rounds + 1) s = Except.ok out) ↔
      ∃ out, dgetpathLoop uppercase rounds (nextSource uppercase s) = Except.ok out := by
  obtain ⟨c, s, rfl⟩ := List.exists_cons_of_ne_nil hs
  rw [dgetpathLoop, nextSource]
  by_cases hslash : c = slash
  · rw [if_pos hslash, if_pos hslash]
    cases dgetpathLoop uppercase rounds s with
    | ok out => exact iff_of_true ⟨_, rfl⟩ ⟨_, rfl⟩
    | error e => simp
  · rw [if_neg hslash, if_neg hslash]
    dsimp only
    cases dgetpathLoop uppercase rounds (filename83 uppercase (c :: s)).2 with
    | ok out => exact iff_of_true ⟨_, rfl⟩ ⟨_, rfl⟩
    | error e => simp

/-- A backslash stays ahead of the source pointer. -/
theorem backslash_ahead (uppercase : Bool) {s : List UInt8} (hs : backslash ∈ s) :
    backslash ∈ nextSource uppercase s := by
  cases s with
  | nil => cases hs
  | cons c s =>
    rw [nextSource]
    by_cases hslash : c = slash
    · rw [if_pos hslash]
      rcases List.mem_cons.mp hs with hc | hs
      · rw [hslash] at hc
        exact absurd hc (by decide)
      · exact hs
    · -- what a name takes up has no backslash
      rw [if_neg hslash]
      have hsplit := List.takeWhile_append_dropWhile (p := (!endOfName ·)) (l := c :: s)
      rw [← hsplit, List.mem_append] at hs
      rcases hs with hname | hrest
      · have hend := List.mem_takeWhile_imp hname
        exact absurd hend (by decide)
      · exact hrest

theorem dgetpathLoop_diverges (uppercase : Bool) (rounds : Nat) {s : List UInt8}
    (hs : backslash ∈ s) : ¬ ∃ out, dgetpathLoop uppercase rounds s = Except.ok out := by
  induction rounds generalizing s with
  | zero =>
    rintro ⟨out, hout⟩
    cases hout
  | succ rounds ih =>
    rw [dgetpathLoop_next uppercase rounds (List.ne_nil_of_mem hs)]
    exact ih (backslash_ahead uppercase hs)

/-- Without a backslash every round gets on. -/
theorem iterate_advances (uppercase : Bool) {s : List UInt8} (hnul : 0 ∉ s)
    (hback : backslash ∉ s) (hs : s ≠ []) :
    (nextSource uppercase s).length < s.length := by
  obtain ⟨c, s, rfl⟩ := List.exists_cons_of_ne_nil hs
  apply nextSource_advances
  · rintro rfl
    exact hnul List.mem_cons_self
  · rintro rfl
    exact hback List.mem_cons_self

theorem iterate_suffix (uppercase : Bool) (k : Nat) (s : List UInt8) :
    (nextSource uppercase)^[k] s <:+ s := by
  induction k generalizing s with
  | zero => exact List.suffix_rfl
  | succ k ih =>
    rw [Function.iterate_succ_apply]
    exact (ih _).trans (nextSource_suffix uppercase s)

/-! ### How long the translation is -/

/-- Behind the first backslash the loop does not get. -/
def inFront (path : List UInt8) : List UInt8 := path.takeWhile (· != backslash)

/-- A name that has to be mangled: a part of it is too long, or it has another dot. -/
def mangled (name : List UInt8) : Bool :=
  !isDots name && (tooLong name || (baseOf name).contains dot)

/-- The eight characters that it gets then, and at most four for the extension. -/
def mangledLength (name : List UInt8) : Nat :=
  8 + min 4 (name.length - (baseOf name).length)

def shortLength (name : List UInt8) : Nat :=
  if mangled name then mangledLength name else name.length

/-- How long the translation of a path without a backslash is. -/
def translatedLength (path : List UInt8) : Nat :=
  path.count slash + ((components path).map shortLength).sum

section Lengths

theorem copyBase_flag (i : Nat) (s : List UInt8) (needsHash : Bool) :
    (copyBase false i s needsHash).2 = (needsHash || (s.take i).contains dot) := by
  induction i generalizing s needsHash with
  | zero => simp [copyBase]
  | succ i ih =>
    cases s with
    | nil => simp [copyBase]
    | cons c s =>
      by_cases hc : c = dot
      · simp [copyBase, hc, ih]
      · simp [copyBase, hc, ih, Ne.symm hc]

theorem copyBase_plainLength (i : Nat) (s : List UInt8)
    (hflag : (copyBase false i s false).2 = false) (hlen : s.length ≤ i) :
    (copyBase false i s false).1.length = s.length := by
  rw [copyBase_flag, Bool.false_or, List.take_of_length_le hlen] at hflag
  have hdot : dot ∉ s := by
    intro hmem
    rw [List.contains_iff_mem.mpr hmem] at hflag
    cases hflag
  rw [copyBase_self hlen hdot]

theorem baseOf_length_le (name : List UInt8) : (baseOf name).length ≤ name.length := by
  rw [baseOf]
  cases extDot name with
  | none => exact Nat.le_refl _
  | some d => exact List.length_take_le' d name

/-- The extension and its dot. -/
theorem copyExt_length (name : List UInt8) :
    (copyExt false name).length = min 4 (name.length - (baseOf name).length) := by
  rw [copyExt, baseOf]
  cases hext : extDot name with
  | none => simp
  | some d =>
    obtain ⟨base, ext, hl, hd, -, -⟩ := extDot_eq_some hext
    have hlen : name.length = d + (ext.length + 1) := by
      rw [hl, ← hd, List.length_append, List.length_cons]
    simp only [fold_false, List.map_id, List.length_cons, List.length_take, List.length_drop]
    omega

/-- A base that fits, and an extension that does. -/
theorem fits_of_not_tooLong {name : List UInt8} (h : tooLong name = false) :
    (baseOf name).length ≤ 8 ∧ name.length - (baseOf name).length ≤ 4 := by
  rw [tooLong, Bool.or_eq_false_iff] at h
  obtain ⟨-, h⟩ := h
  rw [baseOf]
  cases hext : extDot name with
  | none =>
    rw [hext] at h
    simp only [decide_eq_false_iff_not] at h
    simp only
    omega
  | some d =>
    obtain ⟨base, ext, hl, hd, -, -⟩ := extDot_eq_some hext
    have hlen : name.length = d + (ext.length + 1) := by
      rw [hl, ← hd, List.length_append, List.length_cons]
    rw [hext] at h
    simp only [decide_eq_false_iff_not] at h
    simp only [List.length_take]
    omega

theorem addHash_length (dest : List UInt8) (hash : UInt16) :
    (addHash dest hash).length = dest.length := by
  simp [addHash]

/-- The flag that calls for the hash. -/
theorem flag_mangled {name : List UInt8} (hdots : isDots name = false) :
    (copyBase false 8 (baseOf name) (tooLong name)).2 = mangled name := by
  rw [copyBase_flag, mangled, hdots, Bool.not_false, Bool.true_and]
  cases hlong : tooLong name with
  | true => rfl
  | false => rw [List.take_of_length_le (fits_of_not_tooLong hlong).1]

theorem shorten_length {name : List UInt8} (hdots : isDots name = false) :
    (shorten false name).length = shortLength name := by
  have hflag := flag_mangled hdots
  have hext := copyExt_length name
  rw [shortLength, mangledLength, ← hext]
  simp only [shorten]
  cases hmangled : mangled name with
  | true =>
    rw [hmangled] at hflag
    rw [if_pos hflag, addHash_length, List.length_append, (copyBase_length _ _ _).2 hflag]
    rfl
  | false =>
    have hlong : tooLong name = false := by
      rw [mangled, hdots, Bool.not_false, Bool.true_and, Bool.or_eq_false_iff] at hmangled
      exact hmangled.1
    obtain ⟨hbase, hfits⟩ := fits_of_not_tooLong hlong
    have hle := baseOf_length_le name
    rw [hmangled, hlong] at hflag
    rw [hlong, hflag, if_neg Bool.false_ne_true, if_neg Bool.false_ne_true, List.length_append,
      copyBase_plainLength 8 _ hflag hbase, hext]
    omega

theorem filename83_length (uppercase : Bool) {name : List UInt8}
    (hname : ∀ c ∈ name, endOfName c = false) :
    (filename83 uppercase name).1.length = shortLength name := by
  rw [filename83_fold, List.length_map, filename83]
  simp only [takeWhile_self hname]
  cases hdots : isDots name with
  | true =>
    have hmangled : mangled name = false := by
      rw [mangled, hdots]
      rfl
    rw [if_pos rfl, shortLength, hmangled]
    rfl
  | false =>
    rw [if_neg Bool.false_ne_true]
    exact shorten_length hdots

end Lengths

/-! ### How far the loop gets -/

/-- What the loop stores in all, apart from the last NUL. -/
def need (path : List UInt8) : Nat := translatedLength (inFront path)

theorem need_slash (s : List UInt8) : need (slash :: s) = need s + 1 := by
  have hfront : inFront (slash :: s) = slash :: inFront s := rfl
  rw [need, hfront, translatedLength, components_sep rfl, List.count_cons_self, need,
    translatedLength, Nat.add_right_comm]

theorem need_backslash (s : List UInt8) : need (backslash :: s) = 0 := by
  have hfront : inFront (backslash :: s) = [] := rfl
  rw [need, hfront, translatedLength, components_nil]
  rfl

/-- A name at the front of a path, and what goes on behind it. -/
theorem name_ahead {c : UInt8} {s : List UInt8} (hc : endOfName c = false) (hnul : 0 ∉ s) :
    ∃ name rest, c :: s = name ++ rest ∧ IsName name ∧
      ∀ d ∈ rest.head?, d = slash ∨ d = backslash := by
  refine ⟨(c :: s).takeWhile (!endOfName ·), (c :: s).dropWhile (!endOfName ·),
    List.takeWhile_append_dropWhile.symm, ⟨?_, ?_⟩, ?_⟩
  · simp [hc]
  · intro d hd
    simpa using List.mem_takeWhile_imp hd
  · intro d hd
    obtain ⟨rest, hrest⟩ : ∃ rest, (c :: s).dropWhile (!endOfName ·) = d :: rest :=
      List.head?_eq_some_iff.mp hd
    have hend : endOfName d = true := by
      have hnot := List.head?_dropWhile_not (!endOfName ·) (c :: s)
      rw [hrest] at hnot
      simpa using hnot
    have hmem : d ∈ c :: s := by
      apply (List.dropWhile_suffix (!endOfName ·)).subset
      rw [hrest]
      exact List.mem_cons_self
    have hd0 : d ≠ 0 := by
      rintro rfl
      rcases List.mem_cons.mp hmem with rfl | hmem
      · exact absurd hc (by decide)
      · exact hnul hmem
    simpa [endOfName, pathSep, hd0] using hend

theorem need_name {name rest : List UInt8} (hname : IsName name)
    (hrest : ∀ d ∈ rest.head?, d = slash ∨ d = backslash) :
    need (name ++ rest) = shortLength name + need rest := by
  have hplain : ∀ c ∈ name, (c != backslash) = true := by
    intro c hc
    have hin := hname.inside c hc
    rw [bne_iff_ne]
    rintro rfl
    exact absurd hin (by decide)
  have hslash : name.count slash = 0 := by
    apply List.count_eq_zero.mpr
    intro hmem
    exact absurd (hname.inside slash hmem) (by decide)
  have hfront : inFront (name ++ rest) = name ++ inFront rest :=
    List.takeWhile_append_of_pos hplain
  rw [need, hfront, need, translatedLength, translatedLength, List.count_append, hslash,
    Nat.zero_add]
  have halone : components name = [name] := components_name hname.nonempty hname.pathSep
  cases rest with
  | nil =>
    have hnil : inFront [] = [] := rfl
    rw [hnil, List.append_nil, halone, components_nil]
    simp
  | cons d rest =>
    rcases hrest d rfl with rfl | rfl
    · have hcons : inFront (slash :: rest) = slash :: inFront rest := rfl
      rw [hcons, components_append hname.nonempty hname.pathSep rfl, components_sep rfl,
        List.map_cons, List.sum_cons, Nat.add_left_comm]
    · have hnil : inFront (backslash :: rest) = [] := rfl
      rw [hnil, List.append_nil, halone, components_nil]
      simp

/-- Without a backslash the loop comes to its end. -/
theorem dgetpathLoop_length (uppercase : Bool) (rounds : Nat) :
    ∀ {s : List UInt8}, 0 ∉ s → backslash ∉ s → s.length < rounds →
      ∃ out, dgetpathLoop uppercase rounds s = Except.ok out ∧ out.length = need s := by
  induction rounds with
  | zero => exact fun _ _ hrounds => absurd hrounds (Nat.not_lt_zero _)
  | succ rounds ih =>
    intro s hnul hback hrounds
    cases s with
    | nil => exact ⟨[], rfl, rfl⟩
    | cons c s =>
      have hs0 : 0 ∉ s := fun h => hnul (List.mem_cons_of_mem c h)
      have hsb : backslash ∉ s := fun h => hback (List.mem_cons_of_mem c h)
      rw [List.length_cons] at hrounds
      rw [dgetpathLoop]
      by_cases hslash : c = slash
      · obtain ⟨out, hrun, hlen⟩ := ih hs0 hsb (Nat.lt_of_succ_lt_succ hrounds)
        rw [if_pos hslash, hrun, hslash, need_slash, ← hlen]
        exact ⟨_, rfl, rfl⟩
      · have hc0 : c ≠ 0 := fun h => hnul (h ▸ List.mem_cons_self)
        have hcb : c ≠ backslash := fun h => hback (h ▸ List.mem_cons_self)
        obtain ⟨name, rest, hsplit, hname, hrest⟩ :=
          name_ahead (not_endOfName hc0 hslash hcb) hs0
        have hfn : filename83 uppercase (c :: s) = ((filename83 uppercase name).1, rest) := by
          rw [hsplit]
          apply filename83_append uppercase hname.inside
          intro d hd
          rcases hrest d hd with rfl | rfl <;> rfl
        have hpos := List.length_pos_of_ne_nil hname.nonempty
        have hlengths := congrArg List.length hsplit
        rw [List.length_cons, List.length_append] at hlengths
        obtain ⟨out, hrun, hlen⟩ := @ih rest
          (fun h => hnul (by rw [hsplit]; exact List.mem_append_right _ h))
          (fun h => hback (by rw [hsplit]; exact List.mem_append_right _ h)) (by omega)
        rw [if_neg hslash, hfn]
        dsimp only
        rw [hrun, hsplit, need_name hname hrest, ← hlen,
          ← filename83_length uppercase hname.inside, ← List.length_append]
        exact ⟨_, rfl, rfl⟩

/-! ### The buffer -/

/-- The `~` and the three letters. -/
def hashBytes (hash : UInt16) : List UInt8 :=
  [tilde, hashLetter (hash >>> 10), hashLetter (hash >>> 5), hashLetter hash]

/-- `filename8_3(tmp + d, source)`, store by store: the characters and the NUL, and the hash
    over four of the characters.  It returns where the source goes on. -/
def writeName (uppercase : Bool) (source : List UInt8) (d : Nat) (tmp : List UInt8) :
    Run (List UInt8 × List UInt8) := do
  let name := source.takeWhile (!endOfName ·)
  let retval := source.dropWhile (!endOfName ·)
  let (dest, needsHash) :=
    if isDots name then (name, false)
    else
      let (base, needsHash) := copyBase uppercase 8 (baseOf name) (tooLong name)
      (base ++ copyExt uppercase name, needsHash)
  let tmp ← overwrite tmp d dest
  let tmp ← overwrite tmp (d + dest.length) [0]
  let hash := hashLoop 0xf00f name
  let tmp ← if needsHash then overwrite tmp (d + 4) (hashBytes hash) else Except.ok tmp
  return (tmp, retval)

/-- The loop of `Dgetpath`, which is to write at offset `d` of `tmp`. -/
def tmpLoop (uppercase : Bool) : Nat → List UInt8 → Nat → List UInt8 → Run (List UInt8)
  | 0, _, _, _ => Except.error .diverges
  | _ + 1, [], _, tmp => Except.ok tmp
  | rounds + 1, c :: s, d, tmp =>
    if c = slash then do
      let tmp ← overwrite tmp d [backslash]
      tmpLoop uppercase rounds s (d + 1) tmp
    else do
      let (tmp, s) ← writeName uppercase (c :: s) d tmp
      let written ← cstr (tmp.drop d)
      tmpLoop uppercase rounds s (d + written.length) tmp

/-- `tmp` has `strlen(unix_path)+1` bytes. -/
def dgetpathTmp (uppercase : Bool) (garbage : Nat → UInt8) (unixPath : List UInt8)
    (rounds : Nat) : Run (List UInt8) :=
  tmpLoop uppercase rounds unixPath 0 (junk garbage (unixPath.length + 1))

section Buffer

variable {uppercase : Bool}

/-- The characters before the hash. -/
theorem exists_dest (uppercase : Bool) {name : List UInt8}
    (hname : ∀ c ∈ name, endOfName c = false) :
    ∃ dest needsHash,
      (if isDots name then (name, false)
        else
          let (base, needsHash) := copyBase uppercase 8 (baseOf name) (tooLong name)
          (base ++ copyExt uppercase name, needsHash)) = (dest, needsHash) ∧
      dest.length = shortLength name ∧ (needsHash = true → 8 ≤ dest.length) ∧
      (filename83 uppercase name).1 =
        if needsHash then addHash dest (hashLoop 0xf00f name) else dest := by
  have hlen := filename83_length uppercase hname
  have hself := takeWhile_self hname
  cases hdots : isDots name with
  | true =>
    have hfn : (filename83 uppercase name).1 = name := by
      rw [filename83]
      simp only [hself, hdots, if_true]
    rw [hfn] at hlen
    exact ⟨name, false, by rw [if_pos rfl], hlen, fun h => absurd h Bool.false_ne_true, hfn⟩
  | false =>
    have hfn : (filename83 uppercase name).1 = shorten uppercase name := by
      rw [filename83]
      simp only [hself, hdots, Bool.false_eq_true, if_false]
    have hlength := @copyBase_length 8 (baseOf name) (tooLong name)
    have hfold := copyBase_fold uppercase 8 (baseOf name) (tooLong name)
    refine ⟨_, _, if_neg Bool.false_ne_true, ?_, ?_, ?_⟩
    · rw [← hlen, hfn, shorten]
      dsimp only
      split
      · rw [addHash_length]
      · rfl
    · intro hflag
      rw [hfold] at hflag ⊢
      rw [List.length_append, List.length_map, hlength.2 hflag]
      exact Nat.le_add_right 8 _
    · rw [hfn]
      rfl

/-- The hash goes over the second four characters. -/
theorem overwrite_hash (a : List UInt8) {dest : List UInt8} (hlen : 8 ≤ dest.length)
    (c : List UInt8) (hash : UInt16) :
    overwrite (a ++ dest ++ c) (a.length + 4) (hashBytes hash) =
      Except.ok (a ++ addHash dest hash ++ c) := by
  obtain ⟨c₀, c₁, c₂, c₃, c₄, c₅, c₆, c₇, ext, rfl⟩ : ∃ c₀ c₁ c₂ c₃ c₄ c₅ c₆ c₇ ext,
      dest = c₀ :: c₁ :: c₂ :: c₃ :: c₄ :: c₅ :: c₆ :: c₇ :: ext := by
    rcases dest with _ | ⟨c₀, _ | ⟨c₁, _ | ⟨c₂, _ | ⟨c₃, _ | ⟨c₄, _ | ⟨c₅, _ | ⟨c₆, _ | ⟨c₇, ext⟩⟩⟩⟩⟩⟩⟩⟩
    all_goals first
      | exact ⟨_, _, _, _, _, _, _, _, _, rfl⟩
      | simp at hlen
  have h := @overwrite_append (a ++ [c₀, c₁, c₂, c₃]) [c₄, c₅, c₆, c₇] (hashBytes hash) rfl
    (ext ++ c)
  rw [List.length_append] at h
  simpa [addHash, hashBytes] using h

theorem nul_notMem_filename83 (uppercase : Bool) {name : List UInt8}
    (hname : ∀ c ∈ name, endOfName c = false) : 0 ∉ (filename83 uppercase name).1 := by
  have hnul : ∀ {l : List UInt8}, (∀ c ∈ l, endOfName c = false) → 0 ∉ l :=
    fun h hmem => absurd (h 0 hmem) (by decide)
  by_cases hne : name = []
  · rw [hne]
    decide +revert
  · have hn : IsName name := ⟨hne, hname⟩
    cases hdots : isDots name with
    | true =>
      rw [filename83_name hn, hdots, if_pos rfl]
      exact hnul hname
    | false => exact hnul (short_filename83 uppercase hn hdots).2.inside

/-- A name is written where there is room for it, and with its NUL it replaces as many bytes. -/
theorem writeName_eq (uppercase : Bool) {name rest tmp : List UInt8} {d : Nat}
    (hname : ∀ c ∈ name, endOfName c = false) (hrest : ∀ c ∈ rest.head?, endOfName c = true)
    (hfits : d + shortLength name < tmp.length) :
    writeName uppercase (name ++ rest) d tmp =
      Except.ok (tmp.take d ++ (filename83 uppercase name).1 ++ 0 ::
        tmp.drop (d + (filename83 uppercase name).1.length + 1), rest) := by
  obtain ⟨htake, hdrop⟩ := takeWhile_name hname hrest
  obtain ⟨dest, needsHash, hdest, hlen, hroom, hshort⟩ := exists_dest uppercase hname
  have hout := filename83_length uppercase hname
  rw [← hlen] at hfits hout
  obtain ⟨a, b, x, c, rfl, rfl, hb⟩ := exists_cut hfits
  have hfront : (a ++ b ++ [x] ++ c).take a.length = a := by simp
  have hback : (a ++ b ++ [x] ++ c).drop (a.length + dest.length + 1) = c := by
    have hcut : (a ++ b ++ [x]).length = a.length + dest.length + 1 := by
      simp [hb, Nat.add_assoc]
    rw [← hcut, List.drop_left]
  have hstring := overwrite_string a hb x c
  rw [hout, hfront, hback, writeName]
  simp only [htake, hdrop, hdest]
  rw [← bind_assoc, hstring, Run.ok_bind, hshort]
  cases needsHash with
  | true =>
    rw [if_pos rfl, if_pos rfl, overwrite_hash a (hroom rfl)]
    rfl
  | false => rfl

theorem writeName_ok (uppercase : Bool) {name rest tmp : List UInt8} {d : Nat}
    (hname : ∀ c ∈ name, endOfName c = false) (hrest : ∀ c ∈ rest.head?, endOfName c = true)
    (hfits : d + shortLength name < tmp.length) :
    ∃ tmp', writeName uppercase (name ++ rest) d tmp = Except.ok (tmp', rest) ∧
      tmp'.length = tmp.length ∧ cstr (tmp'.drop d) = Except.ok (filename83 uppercase name).1 := by
  have hlen := filename83_length uppercase hname
  have hfront : (tmp.take d).length = d := by
    rw [List.length_take]
    omega
  refine ⟨_, writeName_eq uppercase hname hrest hfits, ?_, ?_⟩
  · simp only [List.length_append, List.length_cons, List.length_drop, hfront]
    omega
  · have hdrop := @List.drop_left _ (tmp.take d) ((filename83 uppercase name).1 ++
      0 :: tmp.drop (d + (filename83 uppercase name).1.length + 1))
    rw [hfront] at hdrop
    rw [List.append_assoc, hdrop]
    exact cstr_append (nul_notMem_filename83 uppercase hname) _

theorem writeName_overrun (uppercase : Bool) {name rest tmp : List UInt8} {d : Nat}
    (hname : ∀ c ∈ name, endOfName c = false) (hrest : ∀ c ∈ rest.head?, endOfName c = true)
    (hfits : ¬ d + shortLength name < tmp.length) :
    writeName uppercase (name ++ rest) d tmp = Except.error .overrun := by
  obtain ⟨htake, hdrop⟩ := takeWhile_name hname hrest
  obtain ⟨dest, needsHash, hdest, hlen, -, -⟩ := exists_dest uppercase hname
  rw [← hlen] at hfits
  rw [writeName]
  simp only [htake, hdrop, hdest]
  rw [← bind_assoc, overwrite_overrun hfits]
  rfl

theorem overwrite_length {block src block' : List UInt8} {o : Nat}
    (h : overwrite block o src = Except.ok block') : block'.length = block.length := by
  rw [overwrite] at h
  split at h
  · rename_i hfits
    cases h
    simp only [List.length_append, List.length_take, List.length_drop]
    omega
  · cases h

/-- One round of the loop on a name, which may be empty in front of a backslash. -/
theorem tmpLoop_name (uppercase : Bool) {c : UInt8} {s name rest tmp : List UInt8} {d : Nat}
    (hc : c ≠ slash) (hsplit : c :: s = name ++ rest) (hname : ∀ c ∈ name, endOfName c = false)
    (hrest : ∀ c ∈ rest.head?, endOfName c = true) (hfits : d + shortLength name < tmp.length) :
    ∃ tmp', tmp'.length = tmp.length ∧ ∀ rounds,
      tmpLoop uppercase (rounds + 1) (c :: s) d tmp =
        tmpLoop uppercase rounds rest (d + shortLength name) tmp' := by
  obtain ⟨tmp', hwrite, hlen, hstr⟩ := writeName_ok uppercase hname hrest hfits
  refine ⟨tmp', hlen, fun rounds => ?_⟩
  rw [tmpLoop, if_neg hc, hsplit, hwrite, Run.ok_bind]
  dsimp only
  rw [hstr, Run.ok_bind, filename83_length uppercase hname]

theorem tmpLoop_name_overrun (uppercase : Bool) (rounds : Nat) {c : UInt8}
    {s name rest tmp : List UInt8} {d : Nat} (hc : c ≠ slash) (hsplit : c :: s = name ++ rest)
    (hname : ∀ c ∈ name, endOfName c = false) (hrest : ∀ c ∈ rest.head?, endOfName c = true)
    (hfits : ¬ d + shortLength name < tmp.length) :
    tmpLoop uppercase (rounds + 1) (c :: s) d tmp = Except.error .overrun := by
  rw [tmpLoop, if_neg hc, hsplit, writeName_overrun uppercase hname hrest hfits]
  rfl

/-- What a path begins with, if it is not a slash: a name, or nothing in front of a
    backslash, where the loop stays. -/
theorem source_ahead {c : UInt8} {s : List UInt8} (hnul : 0 ∉ c :: s) (hc : c ≠ slash) :
    ∃ name rest, c :: s = name ++ rest ∧ (∀ d ∈ name, endOfName d = false) ∧
      (∀ d ∈ rest.head?, endOfName d = true) ∧ need (c :: s) = shortLength name + need rest ∧
      (c = backslash → name = []) ∧ (c ≠ backslash → rest.length < (c :: s).length) ∧
      (backslash ∈ c :: s → backslash ∈ rest) := by
  by_cases hback : c = backslash
  · subst hback
    refine ⟨[], backslash :: s, rfl, by simp, ?_, ?_, fun _ => rfl, fun h => absurd rfl h,
      fun h => h⟩
    · intro d hd
      cases hd
      rfl
    · have hzero : shortLength [] = 0 := by decide
      rw [hzero, Nat.zero_add]
  · have hc0 : c ≠ 0 := fun h => hnul (h ▸ List.mem_cons_self)
    obtain ⟨name, rest, hsplit, hname, hrest⟩ :=
      name_ahead (not_endOfName hc0 hc hback) fun h => hnul (List.mem_cons_of_mem c h)
    have hpos := List.length_pos_of_ne_nil hname.nonempty
    refine ⟨name, rest, hsplit, hname.inside, ?_, ?_, fun h => absurd h hback, ?_, ?_⟩
    · intro d hd
      rcases hrest d hd with rfl | rfl <;> rfl
    · rw [hsplit]
      exact need_name hname hrest
    · intro _
      rw [hsplit, List.length_append]
      omega
    · intro hmem
      rw [hsplit] at hmem
      rcases List.mem_append.mp hmem with hmem | hmem
      · exact absurd (hname.inside backslash hmem) (by decide)
      · exact hmem

/-- Where there is room for what the loop stores, it stays inside. -/
theorem tmpLoop_inside (uppercase : Bool) (rounds : Nat) {s tmp : List UInt8} {d : Nat}
    (hnul : 0 ∉ s) (hfits : d + need s < tmp.length) :
    tmpLoop uppercase rounds s d tmp ≠ Except.error .overrun := by
  induction rounds generalizing s d tmp with
  | zero =>
    intro h
    cases h
  | succ rounds ih =>
    cases s with
    | nil =>
      intro h
      cases h
    | cons c s =>
      by_cases hc : c = slash
      · subst hc
        rw [need_slash] at hfits
        have hroom : d + [backslash].length ≤ tmp.length := by
          rw [List.length_singleton]
          omega
        obtain ⟨tmp', hwrite⟩ : ∃ tmp', overwrite tmp d [backslash] = Except.ok tmp' :=
          ⟨_, if_pos hroom⟩
        rw [tmpLoop, if_pos rfl, hwrite, Run.ok_bind]
        apply ih fun h => hnul (List.mem_cons_of_mem _ h)
        rw [overwrite_length hwrite]
        omega
      · obtain ⟨name, rest, hsplit, hname, hrest, hneed, -⟩ := source_ahead hnul hc
        rw [hneed] at hfits
        have hroom : d + shortLength name < tmp.length := by omega
        obtain ⟨tmp', hlen, hrun⟩ := tmpLoop_name uppercase hc hsplit hname hrest hroom
        rw [hrun]
        apply ih
        · intro h
          rw [hsplit] at hnul
          exact hnul (List.mem_append_right name h)
        · omega

/-- Where there is none, and a backslash that the loop will stay at, it does not. -/
theorem tmpLoop_overruns (uppercase : Bool) {s tmp : List UInt8} {d : Nat} (hnul : 0 ∉ s)
    (hback : backslash ∈ s) (hfits : ¬ d + need s < tmp.length) :
    ∃ rounds, tmpLoop uppercase rounds s d tmp = Except.error .overrun := by
  induction hlen : s.length using Nat.strong_induction_on generalizing s d tmp with
  | _ len ih =>
  obtain ⟨c, t, rfl⟩ := List.exists_cons_of_ne_nil (List.ne_nil_of_mem hback)
  by_cases hc : c = slash
  · subst hc
    have hback' : backslash ∈ t := by
      rcases List.mem_cons.mp hback with h | h
      · exact absurd h (by decide)
      · exact h
    rw [need_slash] at hfits
    cases hwrite : overwrite tmp d [backslash] with
    | error e =>
      refine ⟨1, ?_⟩
      rw [tmpLoop, if_pos rfl, hwrite]
      rw [overwrite] at hwrite
      split at hwrite
      · cases hwrite
      · cases hwrite
        rfl
    | ok tmp' =>
      obtain ⟨rounds, hrun⟩ := @ih t.length (by rw [← hlen]; exact Nat.lt_succ_self _) t tmp' (d + 1)
        (fun h => hnul (List.mem_cons_of_mem _ h)) hback'
        (by rw [overwrite_length hwrite]; omega) rfl
      refine ⟨rounds + 1, ?_⟩
      rw [tmpLoop, if_pos rfl, hwrite]
      exact hrun
  · obtain ⟨name, rest, hsplit, hname, hrest, hneed, hstuck, hshorter, hahead⟩ :=
      source_ahead hnul hc
    by_cases hroom : d + shortLength name < tmp.length
    · -- the name fits, so that it is not the empty one in front of a backslash
      have hmoves : c ≠ backslash := by
        rintro rfl
        rw [hstuck rfl] at hroom
        rw [need_backslash] at hfits
        exact hfits hroom
      rw [hneed] at hfits
      have hnul' : 0 ∉ rest := by
        intro h
        rw [hsplit] at hnul
        exact hnul (List.mem_append_right name h)
      obtain ⟨tmp', hsize, hround⟩ := tmpLoop_name uppercase hc hsplit hname hrest hroom
      have hshort : rest.length < len := hlen ▸ hshorter hmoves
      have hfits' : ¬ d + shortLength name + need rest < tmp'.length := by
        rw [hsize]
        omega
      obtain ⟨rounds, hrun⟩ := ih _ hshort hnul' (hahead hback) hfits' rfl
      exact ⟨rounds + 1, (hround rounds).trans hrun⟩
    · exact ⟨1, tmpLoop_name_overrun uppercase 0 hc hsplit hname hrest hroom⟩

end Buffer

/-! ### When the buffer is large enough -/

/-- What `Dgetpath` writes stays inside its buffer, and so does the path that it builds,
    with a NUL behind it. -/
structure Inside (uppercase : Bool) (garbage : Nat → UInt8) (unixPath : List UInt8) :
    Prop where
  writes : ∀ rounds, dgetpathTmp uppercase garbage unixPath rounds ≠ Except.error .overrun
  path : ∀ tosPath, dgetpath uppercase unixPath = Except.ok tosPath →
    tosPath.length + 1 ≤ unixPath.length + 1

/-- The names that have to be mangled, as far as the loop gets. -/
def mangledNames (path : List UInt8) : List (List UInt8) :=
  (components (inFront path)).filter mangled

section Needs

/-- A path is its separators and what stands between them. -/
theorem components_length (path : List UInt8) :
    path.countP pathSep + ((components path).map List.length).sum = path.length := by
  have hpieces : ∀ pieces : List (List UInt8),
      ((pieces.filter (· ≠ [])).map List.length).sum = (pieces.map List.length).sum := by
    intro pieces
    induction pieces with
    | nil => rfl
    | cons piece pieces ih =>
      cases piece with
      | nil => simpa using ih
      | cons c piece => simpa using ih
  rw [components, hpieces]
  induction path with
  | nil => rfl
  | cons c path ih =>
    rw [List.splitOnP_cons_eq_if_modifyHead, List.length_cons]
    by_cases hc : pathSep c = true
    · rw [if_pos hc, List.countP_cons_of_pos hc, List.map_cons, List.sum_cons, List.length_nil]
      omega
    · rw [if_neg hc, List.countP_cons_of_neg hc]
      cases hsplit : path.splitOnP pathSep with
      | nil => exact absurd hsplit (List.splitOnP_ne_nil _ _)
      | cons first rest =>
        rw [hsplit, List.map_cons, List.sum_cons] at ih
        rw [List.modifyHead_cons, List.map_cons, List.sum_cons, List.length_cons]
        omega

/-- Only the mangled names change their length. -/
theorem shortLength_sum (names : List (List UInt8)) :
    (names.map shortLength).sum + ((names.filter mangled).map List.length).sum =
      (names.map List.length).sum + ((names.filter mangled).map mangledLength).sum := by
  induction names with
  | nil => rfl
  | cons name names ih =>
    cases hmangled : mangled name with
    | true =>
      rw [List.filter_cons_of_pos hmangled]
      simp only [List.map_cons, List.sum_cons, shortLength, hmangled, if_true]
      omega
    | false =>
      rw [List.filter_cons_of_neg (by rw [hmangled]; exact Bool.false_ne_true)]
      simp only [List.map_cons, List.sum_cons, shortLength, hmangled, Bool.false_eq_true,
        if_false]
      omega

theorem inFront_slashes (path : List UInt8) :
    (inFront path).countP pathSep = (inFront path).count slash := by
  rw [List.count]
  apply List.countP_congr
  intro c hc
  have hback := List.mem_takeWhile_imp hc
  rw [bne_iff_ne] at hback
  simp [pathSep, hback]

theorem inFront_length_le (path : List UInt8) : (inFront path).length ≤ path.length :=
  (List.takeWhile_prefix _).length_le

theorem need_le_iff (path : List UInt8) :
    need path ≤ path.length ↔
      ((mangledNames path).map mangledLength).sum ≤
        ((mangledNames path).map List.length).sum + (path.length - (inFront path).length) := by
  have hlength := components_length (inFront path)
  have hsum := shortLength_sum (components (inFront path))
  have hle := inFront_length_le path
  rw [inFront_slashes] at hlength
  rw [need, translatedLength, mangledNames]
  omega

end Needs

/-- **`Dgetpath` stays inside its buffer as long as the names that have to be mangled are
    together as long as the names that they become.** -/
theorem inside_iff (uppercase : Bool) (garbage : Nat → UInt8) {path : List UInt8}
    (hnul : 0 ∉ path) :
    Inside uppercase garbage path ↔
      ((mangledNames path).map mangledLength).sum ≤
        ((mangledNames path).map List.length).sum +
          (path.length - (inFront path).length) := by
  rw [← need_le_iff]
  have hsize : (junk garbage (path.length + 1)).length = path.length + 1 := length_junk _ _
  constructor
  · intro hinside
    apply Nat.not_lt.mp
    intro hlarge
    by_cases hback : backslash ∈ path
    · -- the loop has filled the buffer before it comes to the backslash
      obtain ⟨rounds, hrun⟩ := @tmpLoop_overruns uppercase path
        (junk garbage (path.length + 1)) 0 hnul hback (by rw [hsize]; omega)
      exact hinside.writes rounds hrun
    · obtain ⟨tosPath, hrun, hlen⟩ :=
        dgetpathLoop_length uppercase (path.length + 1) hnul hback (Nat.lt_succ_self _)
      have hfits := hinside.path tosPath hrun
      omega
  · intro hneed
    refine ⟨fun rounds => tmpLoop_inside uppercase rounds hnul (by rw [hsize]; omega), ?_⟩
    intro tosPath hrun
    have hback : backslash ∉ path :=
      fun hmem => dgetpathLoop_diverges uppercase (path.length + 1) hmem ⟨tosPath, hrun⟩
    obtain ⟨out, hout, hlen⟩ :=
      dgetpathLoop_length uppercase (path.length + 1) hnul hback (Nat.lt_succ_self _)
    have heq : tosPath = out := Except.ok.inj (hrun.symm.trans hout)
    rw [heq]
    omega

/-- `/Documents/a` -/
theorem inside_iff_documents :
    Inside true (fun _ => 0xcc)
        [47, 68, 111, 99, 117, 109, 101, 110, 116, 115, 47, 97] ↔
      ((mangledNames [47, 68, 111, 99, 117, 109, 101, 110, 116, 115, 47, 97]).map
          mangledLength).sum ≤
        ((mangledNames [47, 68, 111, 99, 117, 109, 101, 110, 116, 115, 47, 97]).map
          List.length).sum +
          (12 - (inFront [47, 68, 111, 99, 117, 109, 101, 110, 116, 115, 47, 97]).length) :=
  inside_iff true (fun _ => 0xcc) (by decide)

/-- The directory `/.a` is `\` and eight more characters, for which there are four bytes. -/
theorem hidden_directory_overruns :
    ¬ Inside true (fun _ => 0xcc) [47, 46, 97] := by
  intro h
  exact h.writes 2 (by decide)

/-! ### Whether the loop comes to its end -/

/-- The loop comes to its end, and every round takes the source pointer further. -/
structure Advances (uppercase : Bool) (path : List UInt8) : Prop where
  ends : ∃ rounds tosPath, dgetpathLoop uppercase rounds path = Except.ok tosPath
  moves : ∀ k, (nextSource uppercase)^[k] path ≠ [] →
    ((nextSource uppercase)^[k + 1] path).length < ((nextSource uppercase)^[k] path).length

/-- **The loop of `Dgetpath` comes to its end exactly if the path has no backslash.** -/
theorem advances_iff (uppercase : Bool) {path : List UInt8} (hnul : 0 ∉ path) :
    Advances uppercase path ↔ backslash ∉ path := by
  constructor
  · rintro ⟨⟨rounds, hends⟩, -⟩ hback
    exact dgetpathLoop_diverges uppercase rounds hback hends
  · intro hback
    obtain ⟨tosPath, hrun, -⟩ :=
      dgetpathLoop_length uppercase (path.length + 1) hnul hback (Nat.lt_succ_self _)
    refine ⟨⟨_, tosPath, hrun⟩, ?_⟩
    intro k hne
    have hsuffix := iterate_suffix uppercase k path
    rw [Function.iterate_succ_apply']
    exact iterate_advances uppercase (fun h => hnul (hsuffix.subset h))
      (fun h => hback (hsuffix.subset h)) hne

/-- `/home` -/
theorem advances_iff_home :
    Advances true [47, 104, 111, 109, 101] ↔ backslash ∉ [47, 104, 111, 109, 101] :=
  advances_iff true (by decide)

/-- In the directory `/a\b` the loop stays at the backslash. -/
theorem backslash_stuck : ¬ Advances true [47, 97, 92, 98] := by
  intro h
  exact absurd (h.moves 2 (by decide)) (by decide)

end ParaTos.Path
