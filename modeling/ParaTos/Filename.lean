/-
  ParaTos/Filename.lean
  =====================
  **8.3 file names** (`filename8_3` in `gemdos/path.c`).

  A Unix name is cut to eight characters, and three behind the last dot.  A name
  that does not fit, or has another dot in front, is mangled: the second half of
  its base becomes a `~` and a 15-bit hash of the whole name.

  `Short` says what an 8.3 name looks like.  Every name is given a short one
  (`short_filename83`), a short name is its own (`filename83_short`), and the
  domain of the process only decides the case (`filename83_fold`), so that names
  that differ in nothing but their case have 8.3 names that do not either.
-/
import ParaTos.CString

namespace ParaTos.Filename

open CString

abbrev dot : UInt8 := 0x2e
abbrev slash : UInt8 := 0x2f
abbrev backslash : UInt8 := 0x5c
abbrev underscore : UInt8 := 0x5f
abbrev tilde : UInt8 := 0x7e

/-- `PATH_SEP` and `END_OF_NAME` of `path.h`. -/
def pathSep (c : UInt8) : Bool := c == slash || c == backslash
def endOfName (c : UInt8) : Bool := c == 0 || pathSep c

/-! ### The translation -/

/-- `uppercase ? toupper(c) : c`. -/
def fold (uppercase : Bool) (c : UInt8) : UInt8 := if uppercase then toupper c else c

/-- The index of the last dot. -/
def lastDot : List UInt8 → Option Nat
  | [] => none
  | c :: rest =>
    match lastDot rest with
    | some i => some (i + 1)
    | none => if c = dot then some 0 else none

/-- Where the extension starts.  A last dot at the front of the name is no extension. -/
def extDot (name : List UInt8) : Option Nat :=
  match lastDot name with
  | some 0 => none
  | d => d

/-- The loop that copies the base, at most `i` more characters of it: dots become
    underscores and call for a hash, and a base that ends early makes room for one. -/
def copyBase (uppercase : Bool) : Nat → List UInt8 → Bool → List UInt8 × Bool
  | 0, _, needsHash => ([], needsHash)
  | i + 1, [], needsHash => (if needsHash then List.replicate (i + 1) tilde else [], needsHash)
  | i + 1, c :: s, needsHash =>
    if c = dot then
      let (d, needsHash) := copyBase uppercase i s true
      (underscore :: d, needsHash)
    else
      let (d, needsHash) := copyBase uppercase i s needsHash
      (fold uppercase c :: d, needsHash)

/-- A `char` as the `int` it is promoted to, of which the hash keeps 16 bits. -/
def charBits (c : UInt8) : UInt16 := c.toInt8.toInt16.toUInt16

/-- The hash of a name. -/
def hashLoop : UInt16 → List UInt8 → UInt16
  | hash, [] => hash
  | hash, [c] => (hash <<< 3) ^^^ (hash >>> 5) ^^^ charBits c
  | hash, c :: d :: s =>
    hashLoop ((hash <<< 3) ^^^ (hash >>> 5) ^^^ charBits c ^^^ (charBits d <<< 8)) (d :: s)

def hashAlphabet : List UInt8 := ascii "ABCDEFGHIJKLMNOPQRSTUVWXYZ012345"

/-- `hash_alphabet[bits & 0x1f]`. -/
def hashLetter (bits : UInt16) : UInt8 := hashAlphabet.getD (bits &&& 0x1f).toNat 0

/-- The `~` and the three letters that overwrite the second half of the base. -/
def addHash (dest : List UInt8) (hash : UInt16) : List UInt8 :=
  (((dest.set 4 tilde).set 5 (hashLetter (hash >>> 10))).set 6 (hashLetter (hash >>> 5))).set 7
    (hashLetter hash)

/-- Some part of the name does not fit within the 8.3 limits. -/
def tooLong (name : List UInt8) : Bool :=
  decide (name.length > 12) || match extDot name with
    | some d => decide (d > 8 ∨ name.length - d > 4)
    | none => decide (name.length > 8)

/-- The part of the name in front of the extension. -/
def baseOf (name : List UInt8) : List UInt8 :=
  match extDot name with
  | some d => name.take d
  | none => name

/-- The dot and the first three characters behind it. -/
def copyExt (uppercase : Bool) (name : List UInt8) : List UInt8 :=
  match extDot name with
  | some d => dot :: ((name.drop (d + 1)).take 3).map (fold uppercase)
  | none => []

/-- Base and extension, and the hash where one is needed. -/
def shorten (uppercase : Bool) (name : List UInt8) : List UInt8 :=
  let (dest, needsHash) := copyBase uppercase 8 (baseOf name) (tooLong name)
  let dest := dest ++ copyExt uppercase name
  if needsHash then addHash dest (hashLoop 0xf00f name) else dest

/-- `.` and `..`, which stay as they are. -/
def isDots (name : List UInt8) : Bool :=
  name[0]? == some dot && (name.length == 1 || name.length == 2 && name[1]? == some dot)

/-- `filename8_3`: what it writes to `dest`, and the rest of `source` that it returns. -/
def filename83 (uppercase : Bool) (source : List UInt8) : List UInt8 × List UInt8 :=
  let name := source.takeWhile (!endOfName ·)
  let retval := source.dropWhile (!endOfName ·)
  (if isDots name then name else shorten uppercase name, retval)

example : (filename83 true (ascii "readme.txt")).1 = ascii "README.TXT" := by decide +kernel
example : (filename83 true (ascii ".profile")).1.length = 8 := by decide +kernel
example : (filename83 true (ascii "a long name.text")).1 = ascii "A LO~ANU.TEX" := by decide +kernel

/-! ### Names -/

/-- A path component: not empty, and without a separator or NUL. -/
structure IsName (n : List UInt8) : Prop where
  nonempty : n ≠ []
  inside : ∀ c ∈ n, endOfName c = false

theorem IsName.pathSep {n : List UInt8} (hn : IsName n) : ∀ c ∈ n, pathSep c = false := by
  intro c hc
  have h := hn.inside c hc
  simp only [endOfName, Bool.or_eq_false_iff] at h
  exact h.2

/-- What an 8.3 name looks like. -/
inductive Short : List UInt8 → Prop where
  | plain {base : List UInt8} (hne : base ≠ []) (hlen : base.length ≤ 8) (hdot : dot ∉ base) :
      Short base
  | extended {base ext : List UInt8} (hne : base ≠ []) (hlen : base.length ≤ 8)
      (hdot : dot ∉ base) (hext : ext.length ≤ 3) (hextdot : dot ∉ ext) :
      Short (base ++ dot :: ext)

theorem takeWhile_name {n rest : List UInt8} (hn : ∀ c ∈ n, endOfName c = false)
    (hrest : ∀ c ∈ rest.head?, endOfName c = true) :
    (n ++ rest).takeWhile (!endOfName ·) = n ∧ (n ++ rest).dropWhile (!endOfName ·) = rest := by
  have hall : ∀ c ∈ n, (!endOfName c) = true := by
    intro c hc
    simp [hn c hc]
  rw [List.takeWhile_append_of_pos hall, List.dropWhile_append_of_pos hall]
  cases rest with
  | nil => simp
  | cons c rest =>
    have hc : endOfName c = true := hrest c (by simp)
    simp [hc]

theorem takeWhile_self {n : List UInt8} (hn : ∀ c ∈ n, endOfName c = false) :
    n.takeWhile (!endOfName ·) = n := by
  have h := (@takeWhile_name n [] hn (by simp)).1
  rwa [List.append_nil] at h

/-- The name ends at the first separator. -/
theorem filename83_append (uppercase : Bool) {n rest : List UInt8}
    (hn : ∀ c ∈ n, endOfName c = false) (hrest : ∀ c ∈ rest.head?, endOfName c = true) :
    filename83 uppercase (n ++ rest) = ((filename83 uppercase n).1, rest) := by
  obtain ⟨htake, hdrop⟩ := takeWhile_name hn hrest
  have hself := takeWhile_self hn
  simp only [filename83, htake, hdrop, hself]

/-! ### The last dot -/

theorem lastDot_eq_none {l : List UInt8} : lastDot l = none ↔ dot ∉ l := by
  induction l with
  | nil => simp [lastDot]
  | cons c l ih =>
    rw [lastDot]
    cases hl : lastDot l with
    | some i =>
      have hmem : dot ∈ l := by
        by_contra h
        rw [ih.mpr h] at hl
        cases hl
      simp [hmem]
    | none =>
      have hmem := ih.mp hl
      by_cases hc : c = dot
      · simp [hc]
      · simp [hc, hmem, Ne.symm hc]

theorem lastDot_append {base ext : List UInt8} (hext : dot ∉ ext) :
    lastDot (base ++ dot :: ext) = some base.length := by
  induction base with
  | nil => simp [lastDot, lastDot_eq_none.mpr hext]
  | cons c base ih => simp [lastDot, ih]

theorem lastDot_eq_some {l : List UInt8} {i : Nat} (h : lastDot l = some i) :
    ∃ base ext, l = base ++ dot :: ext ∧ base.length = i ∧ dot ∉ ext := by
  induction l generalizing i with
  | nil => simp [lastDot] at h
  | cons c l ih =>
    rw [lastDot] at h
    cases hl : lastDot l with
    | some j =>
      rw [hl] at h
      cases h
      obtain ⟨base, ext, rfl, rfl, hext⟩ := ih hl
      exact ⟨c :: base, ext, rfl, rfl, hext⟩
    | none =>
      rw [hl] at h
      by_cases hc : c = dot
      · rw [if_pos hc] at h
        cases h
        exact ⟨[], l, by rw [hc]; rfl, rfl, lastDot_eq_none.mp hl⟩
      · rw [if_neg hc] at h
        cases h

theorem extDot_eq_some {l : List UInt8} {d : Nat} (h : extDot l = some d) :
    ∃ base ext, l = base ++ dot :: ext ∧ base.length = d ∧ base ≠ [] ∧ dot ∉ ext := by
  rw [extDot] at h
  split at h
  · cases h
  · rename_i hzero
    obtain ⟨base, ext, hl, hd, hext⟩ := lastDot_eq_some h
    refine ⟨base, ext, hl, hd, ?_, hext⟩
    rintro rfl
    exact hzero (by rw [h, ← hd]; rfl)

theorem extDot_append {base ext : List UInt8} (hbase : base ≠ []) (hext : dot ∉ ext) :
    extDot (base ++ dot :: ext) = some base.length := by
  rw [extDot, lastDot_append hext]
  cases base with
  | nil => exact absurd rfl hbase
  | cons c base => rfl

theorem extDot_of_notMem {l : List UInt8} (h : dot ∉ l) : extDot l = none := by
  rw [extDot, lastDot_eq_none.mpr h]

/-! ### The case of the domain -/

@[simp] theorem fold_false : fold false = id := rfl

theorem tolower_fold (uppercase : Bool) (c : UInt8) : tolower (fold uppercase c) = tolower c := by
  cases uppercase with
  | false => rfl
  | true => exact tolower_toupper c

theorem caseEq_fold (uppercase : Bool) (s : List UInt8) : CaseEq (s.map (fold uppercase)) s := by
  rw [CaseEq, List.map_map]
  apply List.map_congr_left
  intro c _
  exact tolower_fold uppercase c

/-- What the translation adds to a name has no case. -/
theorem fold_hashLetter (uppercase : Bool) (bits : UInt16) :
    fold uppercase (hashLetter bits) = hashLetter bits := by
  have hall : ∀ c ∈ hashAlphabet, toupper c = c := by decide +kernel
  cases uppercase with
  | false => rfl
  | true =>
    rw [hashLetter, List.getD_eq_getElem?_getD]
    cases h : hashAlphabet[(bits &&& 0x1f).toNat]? with
    | none => rfl
    | some c => exact hall c (List.mem_of_getElem? h)

theorem copyBase_fold (uppercase : Bool) (i : Nat) (s : List UInt8) (needsHash : Bool) :
    copyBase uppercase i s needsHash =
      ((copyBase false i s needsHash).1.map (fold uppercase), (copyBase false i s needsHash).2) := by
  have htilde : fold uppercase tilde = tilde := by cases uppercase <;> rfl
  have hunderscore : fold uppercase underscore = underscore := by cases uppercase <;> rfl
  induction i generalizing s needsHash with
  | zero => rfl
  | succ i ih =>
    cases s with
    | nil =>
      cases needsHash with
      | false => rfl
      | true => simp [copyBase, htilde]
    | cons c s =>
      by_cases hc : c = dot
      · simp [copyBase, hc, ih s true, hunderscore]
      · simp [copyBase, hc, ih s needsHash]

theorem addHash_fold (uppercase : Bool) (d : List UInt8) (hash : UInt16) :
    (addHash d hash).map (fold uppercase) = addHash (d.map (fold uppercase)) hash := by
  have htilde : fold uppercase tilde = tilde := by cases uppercase <;> rfl
  simp only [addHash, List.map_set, fold_hashLetter, htilde]

theorem shorten_fold (uppercase : Bool) (name : List UInt8) :
    shorten uppercase name = (shorten false name).map (fold uppercase) := by
  have hdot : fold uppercase dot = dot := by cases uppercase <;> rfl
  have hext : copyExt uppercase name = (copyExt false name).map (fold uppercase) := by
    rw [copyExt, copyExt]
    cases extDot name with
    | none => rfl
    | some d => simp [hdot]
  have hbase := copyBase_fold uppercase 8 (baseOf name) (tooLong name)
  simp only [shorten, hbase, hext]
  cases (copyBase false 8 (baseOf name) (tooLong name)).2 with
  | false => simp
  | true => simp [addHash_fold]

theorem isDots_iff {name : List UInt8} : isDots name = true ↔ name = [dot] ∨ name = [dot, dot] := by
  match name with
  | [] => simp [isDots]
  | [c] => simp [isDots]
  | [c, d] => simp [isDots]
  | c :: d :: e :: name => simp [isDots]

/-- The domain decides the case of an 8.3 name, and nothing else. -/
theorem filename83_fold (uppercase : Bool) (s : List UInt8) :
    (filename83 uppercase s).1 = (filename83 false s).1.map (fold uppercase) := by
  simp only [filename83]
  by_cases hdots : isDots (s.takeWhile (!endOfName ·)) = true
  · rw [if_pos hdots, if_pos hdots]
    have hdot : fold uppercase dot = dot := by cases uppercase <;> rfl
    rcases isDots_iff.mp hdots with h | h
    · simp [h, hdot]
    · simp [h, hdot]
  · rw [if_neg hdots, if_neg hdots]
    exact shorten_fold uppercase _

theorem caseEq_filename83 (uppercase uppercase' : Bool) (s : List UInt8) :
    CaseEq (filename83 uppercase s).1 (filename83 uppercase' s).1 := by
  rw [filename83_fold uppercase, filename83_fold uppercase']
  exact (caseEq_fold uppercase _).trans (caseEq_fold uppercase' _).symm

/-! ### Every name is given a short one -/

theorem copyBase_length (i : Nat) (s : List UInt8) (needsHash : Bool) :
    (copyBase false i s needsHash).1.length ≤ i ∧
      ((copyBase false i s needsHash).2 = true → (copyBase false i s needsHash).1.length = i) := by
  induction i generalizing s needsHash with
  | zero => simp [copyBase]
  | succ i ih =>
    cases s with
    | nil =>
      cases needsHash with
      | false => simp [copyBase]
      | true => simp [copyBase]
    | cons c s =>
      by_cases hc : c = dot
      · simpa [copyBase, hc] using ih s true
      · simpa [copyBase, hc] using ih s needsHash

theorem copyBase_nonempty {i : Nat} {s : List UInt8} (hs : s ≠ []) (needsHash : Bool) :
    (copyBase false (i + 1) s needsHash).1 ≠ [] := by
  cases s with
  | nil => exact absurd rfl hs
  | cons c s =>
    by_cases hc : c = dot
    · simp [copyBase, hc]
    · simp [copyBase, hc]

/-- A character that can stand in the base of an 8.3 name. -/
def Plain (c : UInt8) : Prop := c ≠ dot ∧ endOfName c = false

theorem copyBase_plain (i : Nat) {s : List UInt8} (needsHash : Bool)
    (hs : ∀ c ∈ s, endOfName c = false) : ∀ c ∈ (copyBase false i s needsHash).1, Plain c := by
  have htilde : Plain tilde := ⟨by decide, by decide⟩
  have hunderscore : Plain underscore := ⟨by decide, by decide⟩
  induction i generalizing s needsHash with
  | zero => simp [copyBase]
  | succ i ih =>
    cases s with
    | nil =>
      intro c hc
      cases needsHash with
      | false => simp [copyBase] at hc
      | true =>
        rw [List.eq_of_mem_replicate hc]
        exact htilde
    | cons d s =>
      have hs' : ∀ c ∈ s, endOfName c = false := fun c hc => hs c (by simp [hc])
      intro c hc
      by_cases hd : d = dot
      · simp only [copyBase, hd, if_true, List.mem_cons] at hc
        rcases hc with rfl | hc
        · exact hunderscore
        · exact ih true hs' c hc
      · simp only [copyBase, hd, if_false, fold_false, id_eq, List.mem_cons] at hc
        rcases hc with rfl | hc
        · exact ⟨hd, hs c (by simp)⟩
        · exact ih needsHash hs' c hc

theorem plain_hashLetter (bits : UInt16) : Plain (hashLetter bits) := by
  have hall : ∀ c ∈ hashAlphabet, c ≠ dot ∧ endOfName c = false := by decide +kernel
  have hlt : (bits &&& 0x1f).toNat < hashAlphabet.length := by
    have hand : (bits &&& 0x1f).toNat = bits.toNat % 32 := by
      rw [UInt16.toNat_and]
      exact Nat.and_two_pow_sub_one_eq_mod bits.toNat 5
    have hlen : hashAlphabet.length = 32 := by decide +kernel
    rw [hand, hlen]
    exact Nat.mod_lt _ (by decide)
  rw [hashLetter, List.getD_eq_getElem?_getD, List.getElem?_eq_getElem hlt]
  exact hall _ (List.getElem_mem hlt)

/-- The hash goes into the base only. -/
theorem addHash_append {d : List UInt8} (hd : d.length = 8) (ext : List UInt8) (hash : UInt16) :
    ∃ base, addHash (d ++ ext) hash = base ++ ext ∧ base.length = 8 ∧
      ((∀ c ∈ d, Plain c) → ∀ c ∈ base, Plain c) := by
  refine ⟨addHash d hash, ?_, ?_, ?_⟩
  · simp only [addHash]
    rw [List.set_append_left, List.set_append_left, List.set_append_left, List.set_append_left]
    all_goals simp [hd]
  · simp [addHash, hd]
  · intro hplain c hc
    have htilde : Plain tilde := ⟨by decide, by decide⟩
    simp only [addHash] at hc
    rcases List.mem_or_eq_of_mem_set hc with hc | rfl
    · rcases List.mem_or_eq_of_mem_set hc with hc | rfl
      · rcases List.mem_or_eq_of_mem_set hc with hc | rfl
        · rcases List.mem_or_eq_of_mem_set hc with hc | rfl
          · exact hplain c hc
          · exact htilde
        · exact plain_hashLetter _
      · exact plain_hashLetter _
    · exact plain_hashLetter _

theorem baseOf_name {n : List UInt8} (hn : IsName n) : IsName (baseOf n) := by
  rw [baseOf]
  cases h : extDot n with
  | none => exact hn
  | some d =>
    obtain ⟨base, ext, hl, hd, hbase, -⟩ := extDot_eq_some h
    have htake : n.take d = base := by
      rw [hl, ← hd, List.take_left]
    simp only [htake]
    constructor
    · exact hbase
    · intro c hc
      apply hn.inside c
      rw [hl]
      exact List.mem_append_left _ hc

theorem copyExt_cases {n : List UInt8} (hn : IsName n) :
    copyExt false n = [] ∨ ∃ ext, copyExt false n = dot :: ext ∧ ext.length ≤ 3 ∧ dot ∉ ext ∧
      ∀ c ∈ ext, endOfName c = false := by
  rw [copyExt]
  cases h : extDot n with
  | none => exact Or.inl rfl
  | some d =>
    obtain ⟨base, ext, hl, hd, -, hext⟩ := extDot_eq_some h
    have hdrop : n.drop (d + 1) = ext := by
      rw [hl, ← hd, List.drop_append]
      simp
    refine Or.inr ⟨ext.take 3, by simp [hdrop], List.length_take_le _ _, ?_, ?_⟩
    · intro hmem
      exact hext (List.mem_of_mem_take hmem)
    · intro c hc
      apply hn.inside c
      rw [hl]
      simp [List.mem_of_mem_take hc]

/-- A base of plain characters, and an extension that fits, make a short name. -/
theorem short_append {base ext : List UInt8} (hne : base ≠ []) (hlen : base.length ≤ 8)
    (hplain : ∀ c ∈ base, Plain c) {n : List UInt8} (hn : IsName n)
    (hext : ext = copyExt false n) : Short (base ++ ext) ∧ IsName (base ++ ext) := by
  have hdot : dot ∉ base := fun h => (hplain dot h).1 rfl
  have hnonempty : base ++ ext ≠ [] := by simp [hne]
  rcases copyExt_cases hn with h | ⟨e, h, hle, hedot, hename⟩
  · rw [hext, h, List.append_nil]
    exact ⟨Short.plain hne hlen hdot, hne, fun c hc => (hplain c hc).2⟩
  · rw [hext, h] at hnonempty ⊢
    refine ⟨Short.extended hne hlen hdot hle hedot, hnonempty, ?_⟩
    intro c hc
    simp only [List.mem_append, List.mem_cons] at hc
    rcases hc with hc | rfl | hc
    · exact (hplain c hc).2
    · rfl
    · exact hename c hc

theorem short_shorten {n : List UInt8} (hn : IsName n) :
    Short (shorten false n) ∧ IsName (shorten false n) := by
  have hbase := baseOf_name hn
  obtain ⟨hle, hlen⟩ := copyBase_length 8 (baseOf n) (tooLong n)
  have hne := @copyBase_nonempty 7 _ hbase.nonempty (tooLong n)
  have hplain := copyBase_plain 8 (tooLong n) hbase.inside
  simp only [shorten]
  by_cases hflag : (copyBase false 8 (baseOf n) (tooLong n)).2 = true
  · rw [if_pos hflag]
    obtain ⟨base, hadd, hblen, hbplain⟩ :=
      addHash_append (hlen hflag) (copyExt false n) (hashLoop 0xf00f n)
    rw [hadd]
    apply short_append _ (Nat.le_of_eq hblen) (hbplain hplain) hn rfl
    rintro rfl
    simp at hblen
  · rw [if_neg hflag]
    exact short_append hne hle hplain hn rfl

/-! ### A short name is its own 8.3 name -/

theorem copyBase_self {i : Nat} {s : List UInt8} (hlen : s.length ≤ i) (hdot : dot ∉ s) :
    copyBase false i s false = (s, false) := by
  induction i generalizing s with
  | zero =>
    rw [List.eq_nil_of_length_eq_zero (Nat.le_zero.mp hlen)]
    rfl
  | succ i ih =>
    cases s with
    | nil => rfl
    | cons c s =>
      simp only [List.mem_cons, not_or] at hdot
      have hc : c ≠ dot := fun h => hdot.1 h.symm
      simp only [List.length_cons, Nat.add_le_add_iff_right] at hlen
      simp [copyBase, hc, ih hlen hdot.2]

/-- A short name is within the limits, and base and extension are all of it. -/
theorem Short.limits {s : List UInt8} (hs : Short s) :
    tooLong s = false ∧ dot ∉ baseOf s ∧ (baseOf s).length ≤ 8 ∧
      baseOf s ++ copyExt false s = s := by
  cases hs with
  | plain hne hlen hdot =>
    have hextDot := extDot_of_notMem hdot
    have hbase : baseOf s = s := by simp [baseOf, hextDot]
    have hext : copyExt false s = [] := by simp [copyExt, hextDot]
    rw [hbase, hext, List.append_nil]
    refine ⟨?_, hdot, hlen, rfl⟩
    simp only [tooLong, hextDot, Bool.or_eq_false_iff, decide_eq_false_iff_not]
    omega
  | @extended base ext hne hlen hdot hext hextdot =>
    have hextDot := extDot_append hne hextdot
    have hbase : baseOf (base ++ dot :: ext) = base := by simp [baseOf, hextDot]
    have hcopy : copyExt false (base ++ dot :: ext) = dot :: ext := by
      have hdrop : (base ++ dot :: ext).drop (base.length + 1) = ext := by
        rw [List.drop_append]
        simp
      simp only [copyExt, hextDot, hdrop, fold_false, List.map_id, List.take_of_length_le hext]
    rw [hbase, hcopy]
    refine ⟨?_, hdot, hlen, rfl⟩
    simp only [tooLong, hextDot, Bool.or_eq_false_iff, decide_eq_false_iff_not,
      List.length_append, List.length_cons]
    omega

theorem shorten_short {s : List UInt8} (hs : Short s) : shorten false s = s := by
  obtain ⟨hfits, hdot, hlen, happend⟩ := hs.limits
  simp [shorten, hfits, copyBase_self hlen hdot, happend]

theorem Short.not_dots {s : List UInt8} (hs : Short s) : isDots s = false := by
  have hhead : s[0]? ≠ some dot := by
    cases hs with
    | plain hne hlen hdot =>
      intro h
      exact hdot (List.mem_of_getElem? h)
    | @extended base ext hne hlen hdot hext hextdot =>
      intro h
      have hpos : 0 < base.length := List.length_pos_of_ne_nil hne
      rw [List.getElem?_append_left hpos] at h
      exact hdot (List.mem_of_getElem? h)
  simp [isDots, hhead]

/-! ### Short names and case -/

theorem endOfName_tolower (c : UInt8) : endOfName (tolower c) = endOfName c := by
  revert c
  apply forall_byte
  decide +kernel

theorem tolower_eq_dot {c : UInt8} : tolower c = dot ↔ c = dot :=
  tolower_eq_iff (by decide) (by decide)

theorem dot_mem_of_caseEq {a b : List UInt8} (h : CaseEq a b) : dot ∈ a ↔ dot ∈ b := by
  have hmem : ∀ l : List UInt8, dot ∈ l ↔ dot ∈ l.map tolower := by
    intro l
    simp [List.mem_map, tolower_eq_dot]
  rw [hmem a, hmem b, h]

theorem IsName.caseEq {a b : List UInt8} (hb : IsName b) (h : CaseEq a b) : IsName a := by
  constructor
  · rintro rfl
    have hlen := h.length_eq
    exact hb.nonempty (List.eq_nil_of_length_eq_zero hlen.symm)
  · intro c hc
    have hmem : tolower c ∈ b.map tolower := by
      rw [← h]
      exact List.mem_map_of_mem hc
    obtain ⟨d, hd, hdc⟩ := List.mem_map.mp hmem
    rw [← endOfName_tolower, ← hdc, endOfName_tolower]
    exact hb.inside d hd

theorem Short.caseEq {a b : List UInt8} (hb : Short b) (h : CaseEq a b) : Short a := by
  have hlen := h.length_eq
  cases hb with
  | plain hne hle hdot =>
    apply Short.plain
    · rintro rfl
      exact hne (List.eq_nil_of_length_eq_zero hlen.symm)
    · omega
    · rwa [dot_mem_of_caseEq h]
  | @extended base ext hne hle hdot hext hextdot =>
    rw [CaseEq, List.map_append, List.map_cons, List.map_eq_append_iff] at h
    obtain ⟨base', rest', rfl, hbase, hrest⟩ := h
    obtain ⟨c, ext', rfl, hc, hext'⟩ := List.map_eq_cons_iff.mp hrest
    obtain rfl : c = dot := tolower_eq_dot.mp hc
    have hblen := CaseEq.length_eq hbase
    have helen := CaseEq.length_eq hext'
    apply Short.extended
    · rintro rfl
      exact hne (List.eq_nil_of_length_eq_zero hblen.symm)
    · omega
    · rwa [dot_mem_of_caseEq hbase]
    · omega
    · rwa [dot_mem_of_caseEq hext']

/-! ### The 8.3 name of a component -/

theorem filename83_name {uppercase : Bool} {n : List UInt8} (hn : IsName n) :
    (filename83 uppercase n).1 = if isDots n then n else shorten uppercase n := by
  simp only [filename83, takeWhile_self hn.inside]

/-- **Every name is given a short one.** -/
theorem short_filename83 (uppercase : Bool) {n : List UInt8} (hn : IsName n)
    (hdots : isDots n = false) :
    Short (filename83 uppercase n).1 ∧ IsName (filename83 uppercase n).1 := by
  obtain ⟨hshort, hname⟩ := short_shorten hn
  rw [filename83_fold, filename83_name hn, hdots]
  exact ⟨hshort.caseEq (caseEq_fold uppercase _), hname.caseEq (caseEq_fold uppercase _)⟩

/-- **A short name is its own 8.3 name**, up to case. -/
theorem filename83_short (uppercase : Bool) {s : List UInt8} (hs : Short s) (hn : IsName s) :
    CaseEq (filename83 uppercase s).1 s := by
  have hself : (filename83 false s).1 = s := by
    rw [filename83_name hn, hs.not_dots]
    exact shorten_short hs
  rw [filename83_fold, hself]
  exact caseEq_fold uppercase s

theorem Short.length_le {s : List UInt8} (hs : Short s) : s.length ≤ 12 := by
  cases hs with
  | plain hne hlen hdot => omega
  | extended hne hlen hdot hext hextdot =>
    simp only [List.length_append, List.length_cons]
    omega

/-- Whatever it is given, `filename8_3` stores at most 12 characters and the NUL. -/
theorem filename83_length_le (uppercase : Bool) (s : List UInt8) :
    (filename83 uppercase s).1.length ≤ 12 := by
  simp only [filename83]
  generalize hn : s.takeWhile (!endOfName ·) = n
  by_cases hdots : isDots n = true
  · rw [if_pos hdots]
    rcases isDots_iff.mp hdots with rfl | rfl <;> decide
  · rw [if_neg hdots]
    by_cases hempty : n = []
    · subst hempty
      cases uppercase <;> decide
    · have hname : IsName n := by
        refine ⟨hempty, fun c hc => ?_⟩
        rw [← hn] at hc
        simpa using List.all_eq_true.mp List.all_takeWhile c hc
      have hshort := (short_filename83 uppercase hname (by simpa using hdots)).1
      rw [filename83_name hname, if_neg hdots] at hshort
      exact hshort.length_le

end ParaTos.Filename
