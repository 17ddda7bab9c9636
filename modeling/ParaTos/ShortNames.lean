/-
  ParaTos/ShortNames.lean
  =======================
  **What `filename8_3` leaves in its buffer** (`gemdos/path.c`).

  `path.h` asks for a buffer of 13 bytes.  `writeName_spec` says that no more of them are
  changed, whatever the name is, and what the name in the buffer looks like: the need for a
  hash is found before and during the loop that copies the base, but a base that gets one is
  eight characters long on every way out of the loop.

  A name in that shape calls for no hash and is its own 8.3 name once its letters have the
  case of the domain, so that translating it again changes nothing (`filename83_again`).
-/
import ParaTos.Dgetpath

namespace ParaTos.Path

open CString Filename

/-- `needsHash` when `filename8_3` returns. -/
def needsHash (uppercase : Bool) (name : List UInt8) : Bool :=
  !isDots name && (copyBase uppercase 8 (baseOf name) (tooLong name)).2

/-- A base, with an extension behind it or without. -/
inductive Extended (base : List UInt8) : List UInt8 → Prop where
  | plain : Extended base base
  | extended {ext : List UInt8} (hext : ext.length ≤ 3) (hdot : dot ∉ ext) :
      Extended base (base ++ dot :: ext)

/-- What the name that is made of another one looks like. -/
structure ShortNameOf (uppercase : Bool) (name out : List UInt8) : Prop where
  nul : 0 ∉ out
  length : out.length ≤ 12
  self : out = [dot] ↔ name = [dot]
  parent : out = [dot, dot] ↔ name = [dot, dot]
  short : isDots name = false → Short out
  hash : needsHash uppercase name = true → ∃ front, front.length = 4 ∧
    dot ∉ front ++ hashBytes (hashLoop 0xf00f name) ∧
    Extended (front ++ hashBytes (hashLoop 0xf00f name)) out

/-! ### The shape of the name -/

section Shape

variable {uppercase : Bool} {name : List UInt8}

theorem needsHash_fold (uppercase : Bool) (name : List UInt8) :
    needsHash uppercase name = mangled name := by
  rw [needsHash, copyBase_fold]
  cases hdots : isDots name with
  | true => simp [mangled, hdots]
  | false => simp [flag_mangled hdots]

theorem filename83_dots (hname : IsName name) (hdots : isDots name = true) :
    (filename83 uppercase name).1 = name := by
  rw [filename83_name hname, if_pos hdots]

/-- Neither `.` nor `..` is a short name. -/
theorem filename83_eq_dots (hname : IsName name) {dots : List UInt8} (h : isDots dots = true) :
    (filename83 uppercase name).1 = dots ↔ name = dots := by
  cases hdots : isDots name with
  | true => rw [filename83_dots hname hdots]
  | false =>
    have hshort := (short_filename83 uppercase hname hdots).1
    constructor
    · rintro rfl
      exact absurd h (by rw [hshort.not_dots]; decide)
    · rintro rfl
      exact absurd h (by rw [hdots]; decide)

theorem addHash_split {d : List UInt8} (hd : d.length = 8) (ext : List UInt8) (hash : UInt16) :
    addHash (d ++ ext) hash = d.take 4 ++ hashBytes hash ++ ext := by
  have h := @overwrite_hash [] (d ++ ext) (by rw [List.length_append]; omega) [] hash
  have hcut : d ++ ext = d.take 4 ++ d.drop 4 ++ ext := by rw [List.take_append_drop]
  have h' := @overwrite_append (d.take 4) (d.drop 4) (hashBytes hash) (by simp [hashBytes, hd]) ext
  rw [← hcut, List.length_take, hd] at h'
  simp only [List.nil_append, List.append_nil, List.length_nil, Nat.zero_add] at h
  exact Run.ok_inj.mp (h.symm.trans h')

theorem dot_notMem_hashBytes (hash : UInt16) : dot ∉ hashBytes hash := by
  have hletter : ∀ bits, dot ≠ hashLetter bits := fun bits h => (plain_hashLetter bits).1 h.symm
  have htilde : dot ≠ tilde := by decide
  simp [hashBytes, hletter, htilde]

theorem fold_hashBytes (uppercase : Bool) (hash : UInt16) :
    (hashBytes hash).map (fold uppercase) = hashBytes hash := by
  have htilde : fold uppercase tilde = tilde := by cases uppercase <;> rfl
  simp [hashBytes, fold_hashLetter, htilde]

theorem dot_notMem_fold {l : List UInt8} (uppercase : Bool) (h : dot ∉ l) :
    dot ∉ l.map (fold uppercase) := by
  rwa [dot_mem_of_caseEq (caseEq_fold uppercase l)]

/-- A name that is mangled has the hash at the end of a base of eight characters. -/
theorem filename83_mangled (hname : IsName name) (hflag : needsHash uppercase name = true) :
    ∃ front, front.length = 4 ∧ dot ∉ front ++ hashBytes (hashLoop 0xf00f name) ∧
      Extended (front ++ hashBytes (hashLoop 0xf00f name)) (filename83 uppercase name).1 := by
  have hdots : isDots name = false := by
    rw [needsHash, Bool.and_eq_true, Bool.not_eq_true'] at hflag
    exact hflag.1
  have hbase : (copyBase false 8 (baseOf name) (tooLong name)).2 = true := by
    rw [flag_mangled hdots, ← needsHash_fold uppercase, hflag]
  have hlen := (copyBase_length 8 (baseOf name) (tooLong name)).2 hbase
  have hplain := copyBase_plain 8 (tooLong name) (baseOf_name hname).inside
  generalize hd : (copyBase false 8 (baseOf name) (tooLong name)).1 = d at hlen hplain
  have hfront : dot ∉ d.take 4 := fun h => (hplain dot (List.mem_of_mem_take h)).1 rfl
  have hout : (filename83 uppercase name).1 = (d.take 4).map (fold uppercase) ++
      hashBytes (hashLoop 0xf00f name) ++ (copyExt false name).map (fold uppercase) := by
    rw [filename83_fold, filename83_name hname, hdots, if_neg Bool.false_ne_true, shorten]
    dsimp only
    rw [hbase, if_pos rfl, hd, addHash_split hlen, List.map_append, List.map_append,
      fold_hashBytes]
  refine ⟨(d.take 4).map (fold uppercase), ?_, ?_, ?_⟩
  · simp [hlen]
  · rw [List.mem_append, not_or]
    exact ⟨dot_notMem_fold uppercase hfront, dot_notMem_hashBytes _⟩
  · rw [hout]
    rcases copyExt_cases hname with hext | ⟨ext, hext, hle, hextdot, -⟩
    · rw [hext, List.map_nil, List.append_nil]
      exact Extended.plain
    · have hdot : fold uppercase dot = dot := by cases uppercase <;> rfl
      rw [hext, List.map_cons, hdot]
      exact Extended.extended (by rwa [List.length_map]) (dot_notMem_fold uppercase hextdot)

theorem shortNameOf_filename83 (uppercase : Bool) (hname : IsName name) :
    ShortNameOf uppercase name (filename83 uppercase name).1 where
  nul := nul_notMem_filename83 uppercase hname.inside
  length := filename83_length_le uppercase name
  self := filename83_eq_dots hname rfl
  parent := filename83_eq_dots hname rfl
  short := fun hdots => (short_filename83 uppercase hname hdots).1
  hash := filename83_mangled hname

end Shape

/-! ### The buffer -/

/-- `filename8_3` is given a component and 13 bytes to write it to.  It changes the bytes of the
    new name and of its NUL, and returns the end of the component. -/
theorem writeName_spec (uppercase : Bool) {name rest tmp : List UInt8} {d : Nat}
    (hname : IsName name) (hrest : ∀ c ∈ rest.head?, endOfName c = true)
    (hfits : d + 13 ≤ tmp.length) :
    ∃ out, writeName uppercase (name ++ rest) d tmp =
        Except.ok (tmp.take d ++ out ++ 0 :: tmp.drop (d + out.length + 1), rest) ∧
      ShortNameOf uppercase name out := by
  have hlen := filename83_length_le uppercase name
  rw [filename83_length uppercase hname.inside] at hlen
  exact ⟨_, writeName_eq uppercase hname.inside hrest (by omega),
    shortNameOf_filename83 uppercase hname⟩

/-- The name of a directory that is mangled, in front of another component. -/
theorem writeName_spec_conf : ∃ out, writeName true (ascii ".config" ++ ascii "/x") 1
      (List.replicate 20 0xff) =
      Except.ok ((List.replicate 20 0xff).take 1 ++ out ++
        0 :: (List.replicate 20 0xff).drop (1 + out.length + 1), ascii "/x") ∧
    ShortNameOf true (ascii ".config") out := by
  refine writeName_spec true ⟨by decide +kernel, by decide +kernel⟩ ?_ (by decide)
  rintro c ⟨rfl⟩
  rfl

/-! ### Translating a name again -/

/-- A short name calls for no hash. -/
theorem mangled_short {s : List UInt8} (hs : Short s) : mangled s = false := by
  obtain ⟨hfits, hdot, -, -⟩ := hs.limits
  rw [mangled, hfits, Bool.false_or, List.contains_eq_mem, decide_eq_false hdot, Bool.and_false]

theorem fold_fold (uppercase : Bool) (c : UInt8) :
    fold uppercase (fold uppercase c) = fold uppercase c := by
  cases uppercase with
  | false => rfl
  | true =>
    revert c
    apply forall_byte
    decide +kernel

/-- A short name in the case of the domain is its own 8.3 name. -/
theorem filename83_self {uppercase : Bool} {s : List UInt8} (hs : Short s) (hname : IsName s)
    (hcase : s.map (fold uppercase) = s) : filename83 uppercase s = (s, []) := by
  have hend : s.dropWhile (!endOfName ·) = [] := by
    have h := (@takeWhile_name s [] hname.inside (by simp)).2
    rwa [List.append_nil] at h
  have hself : (filename83 uppercase s).1 = s := by
    rw [filename83_fold, filename83_name hname, hs.not_dots, if_neg Bool.false_ne_true,
      shorten_short hs, hcase]
  exact Prod.ext hself hend

/-- The 8.3 name of an 8.3 name is that name, to its end, and no hash is put into it. -/
theorem filename83_again (uppercase : Bool) (source : List UInt8) :
    filename83 uppercase (filename83 uppercase source).1 =
        ((filename83 uppercase source).1, []) ∧
      needsHash uppercase (filename83 uppercase source).1 = false := by
  have hcut : (filename83 uppercase source).1 =
      (filename83 uppercase (source.takeWhile (!endOfName ·))).1 := by
    simp only [filename83, List.takeWhile_idem]
  rw [hcut, needsHash_fold]
  generalize hn : source.takeWhile (!endOfName ·) = name
  have hinside : ∀ c ∈ name, endOfName c = false := by
    intro c hc
    rw [← hn] at hc
    simpa using List.all_eq_true.mp List.all_takeWhile c hc
  rcases eq_or_ne name [] with rfl | hne
  · cases uppercase <;> exact ⟨by decide, by decide⟩
  have hname : IsName name := ⟨hne, hinside⟩
  cases hdots : isDots name with
  | true =>
    rw [filename83_dots hname hdots]
    rcases isDots_iff.mp hdots with rfl | rfl
    · cases uppercase <;> exact ⟨by decide, by decide⟩
    · cases uppercase <;> exact ⟨by decide, by decide⟩
  | false =>
    obtain ⟨hshort, hshortName⟩ := short_filename83 uppercase hname hdots
    have hcase : (filename83 uppercase name).1.map (fold uppercase) =
        (filename83 uppercase name).1 := by
      rw [filename83_fold, List.map_map]
      exact List.map_congr_left fun c _ => fold_fold uppercase c
    exact ⟨filename83_self hshort hshortName hcase, mangled_short hshort⟩

end ParaTos.Path
