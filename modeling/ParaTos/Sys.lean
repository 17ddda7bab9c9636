/-
  ParaTos/Sys.lean
  ================
  **`Ssystem`** (`gemdos/sys.c`), and what its mode `S_GETCOOKIE` makes of the jar.

  `ReadCookie` looks for a tag, or for the number of a slot, and its two searches do
  not agree on what they return.  `S_GETCOOKIE` passes on its result together with a
  variable that only a successful search has set.  `getCookie_iff` says for which
  arguments the two come to what a caller can use.
-/
import ParaTos.CookieJarRuns
import ParaTos.Errno

namespace ParaTos.Sys

open Bytes Memory CookieJar

/-! ### The call -/

def tosEinval : Int32 := -25
def tosEaccdn : Int32 := -36

/-- `_hz_200` -/
def hz200 : Int32 := 0x4ba

/-- The ticks that `S_GETLVAL` counts for `_hz_200`; `now` is what `gettimeofday` sets. -/
def ticks : Option (Int × Int) → Int32
  | none => 0
  | some (tvSec, tvUsec) => Int32.ofInt (tvSec * 200 + tvUsec / 5000)

/-- `S_GETCOOKIE`; `unset` is what the variable `value` contains before it is set. -/
def getCookie (unset : UInt32) (arg1 arg2 : Int32) (s : State) : Run (Int32 × State) := do
  let (found, value) ← readCookie arg1.toUInt32 s.memory
  if arg2 ≠ 0 then do
    let s ← s.store arg2.toUInt32 (value.getD unset)
    return (found, s)
  else return ((value.getD unset).toInt32, s)

/-- `Ssystem(mode, arg1, arg2)` -/
def ssystem (now : Option (Int × Int)) (unset : UInt32) (mode : UInt16) (arg1 arg2 : Int32)
    (s : State) : Run (Int32 × State) :=
  match mode.toNat with
  | 0xffff => Except.ok (0, s)
  | 0 => Except.ok (0x70544f53, s)
  | 1 => Except.ok (0, s)
  | 2 => Except.ok (0x61, s)
  | 3 => Except.ok (if arg1 = 0 then 0 else if arg1 = 2 then 0x0400 else tosEinval, s)
  | 6 => Except.ok (0x14, s)
  | 7 => Except.ok (0x3, s)
  | 8 => getCookie unset arg1 arg2 s
  | 9 => Except.ok (tosEaccdn, s)
  | 10 =>
    if arg1 = hz200 then Except.ok (ticks now, s)
    else do
      let value ← readMemory32 (arg1.toUInt32 &&& 0xffff) s.memory
      return (value.toInt32, s)
  | 11 => do
    let value ← readMemory16 (arg1.toUInt32 &&& 0xffff) s.memory
    return (value.toUInt32.toInt32, s)
  | 12 => do
    let value ← readMemory8 (arg1.toUInt32 &&& 0xffff) s.memory
    return (value.toUInt32.toInt32, s)
  | 13 | 14 | 15 | 16 => Except.ok (tosEaccdn, s)
  | _ => Except.ok (tosEnosys, s)

/-- `S_GETCOOKIE` -/
def sGetcookie : UInt16 := 8

theorem ssystem_getCookie (now : Option (Int × Int)) (unset : UInt32) (arg1 arg2 : Int32)
    (s : State) : ssystem now unset sGetcookie arg1 arg2 s = getCookie unset arg1 arg2 s := rfl

/-! ### The two lookups -/

/-- The argument is the number of a slot, and not a tag. -/
def IsSlot (key : UInt32) : Prop := 1 < key ∧ key ≤ 0xffff

instance (key : UInt32) : Decidable (IsSlot key) := inferInstanceAs (Decidable (_ ∧ _))

section Lookups

variable {m : Memory} {capacity : UInt32}

/-- The search for a slot looks at the slots in front of it, and gets as far as the
    terminator. -/
theorem indexLoop_spec (cookies : List Cookie) : ∀ (k : Nat) {a : UInt32},
    Shows m a.toNat (jarImage cookies capacity) →
    a.toNat + 8 * (cookies.length + 1) ≤ 0x1000000 → (∀ c ∈ cookies, c.1 ≠ 0) →
    indexLoop k a m =
      Except.ok (if k ≤ cookies.length then some (a + UInt32.ofNat (8 * k)) else none) := by
  induction cookies with
  | nil =>
    intro k a hjar hfit _
    cases k with
    | zero => simp [indexLoop]
    | succ k =>
      rw [jarImage_nil] at hjar
      obtain ⟨hkey, -⟩ := read_pair hjar hfit
      simp [indexLoop, hkey]
  | cons c cookies ih =>
    intro k a hjar hfit hne
    cases k with
    | zero => simp [indexLoop]
    | succ k =>
      rw [List.length_cons] at hfit
      obtain ⟨hpair, hrest⟩ := (shows_jar_cons (by omega)).mp hjar
      obtain ⟨hkey, -⟩ := read_pair hpair (by omega)
      have hnext : (a + 8).toNat = a.toNat + 8 := @toNat_advance a 8 (by omega)
      have hloop := @ih k (a + 8) hrest (by omega) fun d hd => hne d (List.mem_cons_of_mem c hd)
      rw [indexLoop, hkey, Run.ok_bind, if_neg (hne c List.mem_cons_self), hloop,
        advance_eight, List.length_cons]
      simp only [Nat.succ_le_succ_iff]

/-- The tag in a slot of the jar, whose terminator has the tag 0. -/
theorem read_slot {base : UInt32} {cookies : List Cookie} (h : Jar m base capacity cookies)
    {k : Nat} (hk : k ≤ cookies.length) :
    readMemory32 (base + UInt32.ofNat (8 * k)) m =
      Except.ok ((cookies[k]?.map Prod.fst).getD 0) := by
  have hfits := h.fits
  have haddr : (base + UInt32.ofNat (8 * k)).toNat = base.toNat + 8 * k := by
    apply toNat_advance
    omega
  have himage := h.image
  have hsplit := List.take_append_drop k cookies
  have htake : (cookies.take k).length = k := by
    rw [List.length_take]
    omega
  rw [← hsplit, jarImage_append, shows_append, length_flatMap_pair, htake, ← haddr] at himage
  obtain ⟨-, hrest⟩ := himage
  have hlen : (cookies.drop k).length = cookies.length - k := List.length_drop
  rw [← List.head?_drop]
  cases hdrop : cookies.drop k with
  | nil =>
    rw [hdrop, jarImage_nil] at hrest
    exact (read_pair hrest (by omega)).1
  | cons c rest =>
    rw [hdrop, List.length_cons] at hlen
    rw [hdrop, shows_jar_cons (by omega)] at hrest
    exact (read_pair hrest.1 (by omega)).1

end Lookups

variable {m : Memory} {base capacity key : UInt32} {cookies : List Cookie}

/-- A slot that is in use, or the one behind the last of them. -/
theorem readCookie_slot (h : Jar m base capacity cookies) (hkey : IsSlot key)
    (hle : key.toNat ≤ cookies.length) :
    readCookie key m =
      Except.ok (1, some ((cookies[key.toNat]?.map Prod.fst).getD 0)) := by
  rw [readCookie, h.readPointer, Run.ok_bind, if_pos (show 1 < key ∧ key ≤ 0xffff from hkey),
    indexLoop_spec cookies key.toNat h.image h.fits h.keys, if_pos hle]
  simp only [Run.ok_bind, read_slot h hle]
  rfl

theorem readCookie_slot_behind (h : Jar m base capacity cookies) (hkey : IsSlot key)
    (hlt : cookies.length < key.toNat) : readCookie key m = Except.ok (0, none) := by
  rw [readCookie, h.readPointer, Run.ok_bind, if_pos (show 1 < key ∧ key ≤ 0xffff from hkey),
    indexLoop_spec cookies key.toNat h.image h.fits h.keys, if_neg (Nat.not_le.mpr hlt)]
  rfl

theorem readCookie_tag {v : UInt32} (h : Jar m base capacity cookies) (hkey : ¬ IsSlot key)
    (hv : cookies.lookup key = some v) : readCookie key m = Except.ok (0, some v) := by
  rw [h.read hkey, hv]

theorem readCookie_tag_missing (h : Jar m base capacity cookies) (hkey : ¬ IsSlot key)
    (hnone : cookies.lookup key = none) : readCookie key m = Except.ok (-1, none) := by
  rw [h.read hkey, hnone]

/-! ### What a caller can use -/

/-- Both lookups succeed with the same code and fail with a negative one.  A lookup that
    succeeds has found a cookie: the value of the tag, or the tag in a slot.  One that
    fails leaves everything as it is, and what is returned then does not depend on a
    variable that was not set. -/
structure Usable (s : State) (cookies : List Cookie) (arg1 arg2 : Int32) : Prop where
  code : ∀ found value, readCookie arg1.toUInt32 s.memory = Except.ok (found, value) →
    found = Mem.tosEOk ∨ found < 0
  slot : ∀ value, IsSlot arg1.toUInt32 →
    readCookie arg1.toUInt32 s.memory = Except.ok (Mem.tosEOk, value) →
    ∃ c ∈ cookies, value = some c.1
  tag : ∀ value, ¬ IsSlot arg1.toUInt32 →
    readCookie arg1.toUInt32 s.memory = Except.ok (Mem.tosEOk, value) →
    ∃ v, cookies.lookup arg1.toUInt32 = some v ∧ value = some v
  failed : ∀ found value, readCookie arg1.toUInt32 s.memory = Except.ok (found, value) →
    found ≠ Mem.tosEOk →
    ∃ r, ∀ now unset, ssystem now unset sGetcookie arg1 arg2 s = Except.ok (r, s)

/-- A store is seen in the record of the stores. -/
theorem store_ne {s s' : State} {a v : UInt32} (h : s.store a v = Except.ok s') : s' ≠ s := by
  intro heq
  have hstores := State.store_stores h
  rw [heq] at hstores
  exact List.cons_ne_self _ _ hstores.symm

/-- What a search did not set is stored or returned. -/
theorem getCookie_none {s : State} {arg1 arg2 : Int32} {found : Int32}
    (hread : readCookie arg1.toUInt32 s.memory = Except.ok (found, none)) :
    ¬ ∃ r, ∀ now unset, ssystem now unset sGetcookie arg1 arg2 s = Except.ok (r, s) := by
  rintro ⟨r, hr⟩
  replace hr : ∀ unset, getCookie unset arg1 arg2 s = Except.ok (r, s) := by
    intro unset
    rw [← ssystem_getCookie none, hr]
  by_cases harg2 : arg2 = 0
  · have hrun : ∀ unset, getCookie unset arg1 arg2 s = Except.ok (unset.toInt32, s) := by
      intro unset
      rw [getCookie, hread, Run.ok_bind]
      simp [harg2]
    have hzero := (hrun 0).symm.trans (hr 0)
    have hone := (hrun 1).symm.trans (hr 1)
    have heq := hzero.trans hone.symm
    have hfst : (0 : UInt32).toInt32 = (1 : UInt32).toInt32 :=
      congrArg Prod.fst (Run.ok_inj.mp heq)
    exact absurd hfst (by decide)
  · have hrun := hr 0
    rw [getCookie, hread, Run.ok_bind] at hrun
    simp only [ne_eq, harg2, not_false_eq_true, if_true, Option.getD_none] at hrun
    obtain ⟨s', hstore, hrun⟩ := Run.bind_eq_ok.mp hrun
    cases hrun
    exact store_ne hstore rfl

theorem lookup_ne_none {cookies : List Cookie} {key : UInt32} :
    cookies.lookup key ≠ none ↔ ∃ c ∈ cookies, c.1 = key := by
  rw [ne_eq, List.lookup_eq_none_iff]
  constructor
  · intro h
    apply Classical.byContradiction
    intro hnot
    apply h
    intro c hc
    rw [bne_iff_ne]
    exact fun heq => hnot ⟨c, hc, heq.symm⟩
  · rintro ⟨c, hc, rfl⟩ h
    simpa using h c hc

/-- **`S_GETCOOKIE` can be used to look for a tag that is in the jar, and for nothing
    else.** -/
theorem getCookie_iff {s : State} {base capacity : UInt32} {cookies : List Cookie}
    (h : Jar s.memory base capacity cookies) (arg1 arg2 : Int32) :
    Usable s cookies arg1 arg2 ↔
      ¬ IsSlot arg1.toUInt32 ∧ ∃ c ∈ cookies, c.1 = arg1.toUInt32 := by
  rw [← lookup_ne_none]
  constructor
  · intro husable
    by_cases hslot : IsSlot arg1.toUInt32
    · rcases Nat.lt_or_ge cookies.length arg1.toUInt32.toNat with hlt | hle
      · -- no such slot, which is the code for success
        have hread := readCookie_slot_behind h hslot hlt
        obtain ⟨c, -, hvalue⟩ := husable.slot none hslot hread
        cases hvalue
      · have hread := readCookie_slot h hslot hle
        exact absurd (husable.code 1 _ hread) (by decide)
    · refine ⟨hslot, fun hnone => ?_⟩
      have hread := readCookie_tag_missing h hslot hnone
      exact getCookie_none hread (husable.failed (-1) none hread (by decide))
  · rintro ⟨hslot, hsome⟩
    obtain ⟨v, hv⟩ := Option.ne_none_iff_exists'.mp hsome
    have hread := readCookie_tag h hslot hv
    constructor
    · intro found value hrun
      cases hread.symm.trans hrun
      exact Or.inl rfl
    · intro value hkey
      exact absurd hkey hslot
    · intro value _ hrun
      cases hread.symm.trans hrun
      exact ⟨v, hv, rfl⟩
    · intro found value hrun hfound
      cases hread.symm.trans hrun
      exact absurd rfl hfound

/-- The jar as `InitCookieJar` fills it. -/
def initialJar : State where
  memory := write (write initM68KMemory pCookies.toNat (bigEndian 4 0x10000)) 0x10000
    (jarImage initialCookies 0x100)
  mem := Mem.initMemory
  stores := []

theorem initialJar_jar : Jar initialJar.memory 0x10000 0x100 initialCookies where
  pointer := by
    apply (shows_write _ _ _).write
    decide
  image := shows_write _ _ _
  fits := by decide
  keys := by
    intro c hc
    simp only [initialCookies, List.mem_cons, List.not_mem_nil, or_false] at hc
    rcases hc with rfl | rfl | rfl | rfl <;> decide

/-- The value of `_CPU`. -/
theorem getCookie_iff_cpu :
    Usable initialJar initialCookies 0x5f435055 0x20000 ↔
      ¬ IsSlot (0x5f435055 : Int32).toUInt32 ∧
        ∃ c ∈ initialCookies, c.1 = (0x5f435055 : Int32).toUInt32 :=
  getCookie_iff initialJar_jar 0x5f435055 0x20000

/-- The fourth slot is the terminator, and it is found, with the code 1. -/
theorem terminator_found : ¬ Usable initialJar initialCookies 4 0x20000 := by
  intro h
  have hslot : IsSlot (4 : Int32).toUInt32 := by decide
  have hread := readCookie_slot initialJar_jar hslot (by decide)
  exact absurd (h.code 1 _ hread) (by decide)

end ParaTos.Sys
