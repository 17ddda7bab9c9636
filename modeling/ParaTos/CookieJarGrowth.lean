/-
  ParaTos/CookieJarGrowth.lean
  ============================
  **A cookie jar that cannot grow.**

  `ResizeCookieJar` does not look at what `Malloc` returns.  Where there is no block of
  twice the size it copies the cookies to address 0, makes `_p_cookies` point there and
  releases the old jar.  `jar_lost` says that no call of `WriteCookie` that comes to this
  leaves the jar as a caller has to find it.
-/
import ParaTos.CookieJarRuns

namespace ParaTos.CookieJar

open Bytes Memory Words

/-! ### What is stored -/

section Stores

/-- The record of the stores only grows. -/
def Extends (s s' : State) : Prop := ∃ stores, s'.stores = stores ++ s.stores

theorem Extends.refl (s : State) : Extends s s := ⟨[], rfl⟩

theorem Extends.trans {s s' s'' : State} (h : Extends s s') (h' : Extends s' s'') :
    Extends s s'' := by
  obtain ⟨l, hl⟩ := h
  obtain ⟨l', hl'⟩ := h'
  exact ⟨l' ++ l, by rw [hl', hl, List.append_assoc]⟩

theorem Extends.store {s s' : State} {a v : UInt32} (h : s.store a v = Except.ok s') :
    Extends s s' := ⟨[a], State.store_stores h⟩

/-- A round stores the key first. -/
theorem copyCookies_round {oldJar newJar newSize slot : UInt32} {rounds : Nat} {s s' : State}
    (hrest : ∀ {slot s s'}, copyCookies oldJar newJar newSize rounds slot s = Except.ok s' →
      Extends s s')
    (h : copyCookies oldJar newJar newSize (rounds + 1) slot s = Except.ok s') :
    ∃ stores, s'.stores = stores ++ (newJar + slot * 8) :: s.stores := by
  obtain ⟨key, -, h⟩ := Run.bind_eq_ok.mp h
  obtain ⟨s₁, hkey, h⟩ := Run.bind_eq_ok.mp h
  have hbehind : Extends s₁ s' := by
    split at h
    · obtain ⟨value, -, h⟩ := Run.bind_eq_ok.mp h
      obtain ⟨s₂, hvalue, h⟩ := Run.bind_eq_ok.mp h
      exact (Extends.store hvalue).trans (hrest h)
    · exact Extends.store h
  obtain ⟨stores, hstores⟩ := hbehind
  exact ⟨stores, by rw [hstores, State.store_stores hkey]⟩

theorem copyCookies_extends {oldJar newJar newSize : UInt32} (rounds : Nat) :
    ∀ {slot : UInt32} {s s' : State},
      copyCookies oldJar newJar newSize rounds slot s = Except.ok s' → Extends s s' := by
  induction rounds with
  | zero =>
    intro slot s s' h
    cases h
    exact Extends.refl s
  | succ rounds ih =>
    intro slot s s' h
    obtain ⟨stores, hstores⟩ := copyCookies_round ih h
    exact ⟨stores ++ [newJar + slot * 8], by rw [hstores, List.append_assoc]; rfl⟩

/-- The first round stores a key at the start of the new jar. -/
theorem copyCookies_first {oldJar newJar newSize : UInt32} {rounds : Nat} (hpos : 0 < rounds)
    {s s' : State} (h : copyCookies oldJar newJar newSize rounds 0 s = Except.ok s') :
    ∃ stores, s'.stores = stores ++ newJar :: s.stores := by
  obtain ⟨rounds, rfl⟩ := Nat.exists_eq_succ_of_ne_zero (Nat.ne_of_gt hpos)
  have hfirst := copyCookies_round (copyCookies_extends rounds) h
  have hstart : newJar + 0 * 8 = newJar := by simp
  rwa [hstart] at hfirst

theorem resizeCookieJar_stores {currentSize newSize newJar : UInt32} {s s' : State}
    {mem : Mem.State} {r : UInt32} (hpos : 0 < currentSize.toNat)
    (hmalloc : Mem.malloc (newSize * 8).toInt32 s.mem = Except.ok (newJar, mem))
    (h : resizeCookieJar currentSize newSize s = Except.ok (r, s')) :
    ∃ stores, s'.stores = stores ++ newJar :: s.stores := by
  obtain ⟨oldJar, -, h⟩ := Run.bind_eq_ok.mp h
  rw [hmalloc, Run.ok_bind] at h
  obtain ⟨s₁, hcopy, h⟩ := Run.bind_eq_ok.mp h
  obtain ⟨s₂, hpointer, h⟩ := Run.bind_eq_ok.mp h
  obtain ⟨⟨status, mem'⟩, -, h⟩ := Run.bind_eq_ok.mp h
  cases h
  obtain ⟨stores, hstores⟩ := copyCookies_first hpos hcopy
  exact ⟨pCookies :: stores, by rw [State.store_stores hpointer, hstores]; rfl⟩

end Stores

/-! ### A jar that has to grow -/

/-- The search has looked at one pair at least. -/
theorem writeSearch_count {m : Memory} {key : UInt32} (rounds : Nat) :
    ∀ {address count : UInt32} {search : Search}, count.toNat + rounds < 2 ^ 32 →
      writeSearch key rounds address count m = Except.ok search →
      count.toNat < search.currentCount.toNat := by
  induction rounds with
  | zero =>
    intro address count search _ h
    cases h
  | succ rounds ih =>
    intro address count search hcount h
    have hone : (1 : UInt32).toNat = 1 := rfl
    have hnext : (count + 1).toNat = count.toNat + 1 := uint32_add (by omega)
    obtain ⟨current, -, h⟩ := Run.bind_eq_ok.mp h
    dsimp only at h
    split at h
    · obtain ⟨maxCount, -, h⟩ := Run.bind_eq_ok.mp h
      cases h
      exact Nat.lt_of_lt_of_eq (Nat.lt_succ_self _) hnext.symm
    · split at h
      · cases h
        exact Nat.lt_of_lt_of_eq (Nat.lt_succ_self _) hnext.symm
      · have hrest := ih (by omega) h
        omega

/-- `WriteCookie(key, …)` finds the jar at `base` full, and there is no block of twice the
    size. -/
structure GrowthFails (s : State) (key base : UInt32) (search : Search) : Prop where
  pointer : readMemory32 pCookies s.memory = Except.ok base
  searched : writeSearch key searchRounds base 0 s.memory = Except.ok search
  full : search.full = true
  malloc : ∃ mem, Mem.malloc (search.maxCount * 2 * 8).toInt32 s.mem = Except.ok (0, mem)

/-- Where the system variables end. -/
def lowMemory : Nat := 0x800

/-- The jar that was at `base` is as usable as before: its cookies are found, its block was
    not released, and neither it nor low memory was stored to. -/
structure JarKept (s s' : State) (base : UInt32) (search : Search) : Prop where
  cookies : ∀ key value, readCookie key s.memory = Except.ok (0, some value) →
    readCookie key s'.memory = Except.ok (0, some value)
  stores : ∃ stores, s'.stores = stores ++ s.stores ∧
    ∀ x ∈ stores, lowMemory ≤ x.toNat ∧
      (x.toNat + 4 ≤ base.toNat ∨ base.toNat + 8 * search.maxCount.toNat ≤ x.toNat)
  block : ∀ L, s.mem.lists = Except.ok L → ∃ L', s'.mem.lists = Except.ok L' ∧
    ∀ c ∈ L.used, c.2.start = base → c ∈ L'.used

section Growth

variable {s s' : State} {key value base : UInt32} {search : Search}

/-- Somewhere on the way there is a store to address 0. -/
theorem GrowthFails.stores_zero (h : GrowthFails s key base search)
    (hrun : writeCookie key value s = Except.ok s') :
    ∃ stores, s'.stores = stores ++ 0 :: s.stores := by
  obtain ⟨mem, hmalloc⟩ := h.malloc
  have hcount : 0 < search.currentCount.toNat := writeSearch_count searchRounds (by decide) h.searched
  rw [writeCookie, h.pointer, Run.ok_bind, h.searched, Run.ok_bind, makeRoom, if_pos h.full] at hrun
  obtain ⟨⟨address, maxCount, s₁⟩, hroom, hrun⟩ := Run.bind_eq_ok.mp hrun
  obtain ⟨⟨newBase, s₂⟩, hresize, hroom⟩ := Run.bind_eq_ok.mp hroom
  cases hroom
  obtain ⟨stores, hstores⟩ := resizeCookieJar_stores hcount hmalloc hresize
  -- the four stores behind it
  obtain ⟨s₃, hkey, hrun⟩ := Run.bind_eq_ok.mp hrun
  obtain ⟨s₄, hvalue, hrun⟩ := Run.bind_eq_ok.mp hrun
  have hrest : Extends s₄ s' := by
    split at hrun
    · cases hrun
      exact Extends.refl _
    · obtain ⟨s₅, hend, hrun⟩ := Run.bind_eq_ok.mp hrun
      exact (Extends.store hend).trans (Extends.store hrun)
  obtain ⟨more, hmore⟩ := ((Extends.store hkey).trans (Extends.store hvalue)).trans hrest
  exact ⟨more ++ stores, by rw [hmore, hstores, List.append_assoc]⟩

theorem GrowthFails.not_kept (h : GrowthFails s key base search)
    (hrun : writeCookie key value s = Except.ok s') : ¬ JarKept s s' base search := by
  intro hkept
  obtain ⟨stores, hstores, hplaces⟩ := hkept.stores
  obtain ⟨stores', hstores'⟩ := h.stores_zero hrun
  have hsame : stores ++ s.stores = (stores' ++ [0]) ++ s.stores := by
    rw [← hstores, hstores', List.append_assoc]
    rfl
  have hzero := hplaces 0 (by rw [List.append_cancel_right hsame]; simp)
  exact absurd hzero.1 (by decide)

end Growth

/-- **No call that has to let the jar grow, and cannot, leaves it usable.** -/
theorem jar_lost {s : State} {key base : UInt32} {search : Search} (value : UInt32)
    (h : GrowthFails s key base search) :
    ¬ ∃ s', writeCookie key value s = Except.ok s' ∧ JarKept s s' base search := by
  rintro ⟨s', hrun, hkept⟩
  exact h.not_kept hrun hkept

/-! ### The jar of `InitCookieJar`, filled up -/

/-- The cookies of `InitCookieJar`, and as many more as there is room for. -/
def fullCookies : List Cookie :=
  initialCookies ++ (List.range 251).map fun i => (UInt32.ofNat (0x41000000 + i), 0)

/-- These cookies at the start of the RAM. -/
def fullJar (mem : Mem.State) : State where
  memory := write (write initM68KMemory pCookies.toNat (bigEndian 4 0x10000)) 0x10000
    (jarImage fullCookies 0x100)
  mem := mem
  stores := []

theorem fullCookies_length : fullCookies.length = 255 := by
  simp [fullCookies, initialCookies]

theorem fullCookies_keys {c : Cookie} (hc : c ∈ fullCookies) : c.1 ≠ 0 ∧ c.1 ≠ 0x5a5a5a5a := by
  rcases List.mem_append.mp hc with hc | hc
  · simp only [initialCookies, List.mem_cons, List.not_mem_nil, or_false] at hc
    rcases hc with rfl | rfl | rfl | rfl <;> decide
  · obtain ⟨i, hi, rfl⟩ := List.mem_map.mp hc
    have hlt := List.mem_range.mp hi
    have hnat : (UInt32.ofNat (0x41000000 + i)).toNat = 0x41000000 + i :=
      UInt32.toNat_ofNat_of_lt' (by unfold UInt32.size; omega)
    have hkey : (0x5a5a5a5a : UInt32).toNat = 0x5a5a5a5a := rfl
    constructor <;> intro heq
    · rw [← UInt32.toNat_inj, hnat] at heq
      exact absurd heq (by simp)
    · rw [← UInt32.toNat_inj, hnat, hkey] at heq
      omega

theorem fullJar_jar (mem : Mem.State) :
    Jar (fullJar mem).memory 0x10000 0x100 fullCookies where
  pointer := by
    apply (shows_write _ _ _).write
    rw [bigEndian_length]
    exact Or.inl (by decide)
  image := shows_write _ _ _
  fits := by
    rw [fullCookies_length]
    decide
  keys := fun _ hc => (fullCookies_keys hc).1

theorem fullJar_growthFails : ∃ mem search,
    GrowthFails (fullJar mem) 0x5a5a5a5a 0x10000 search := by
  obtain ⟨-, mem, -, -, hnone⟩ := Mem.load_exhausts
  refine ⟨mem, ⟨false, 0x10000 + UInt32.ofNat (8 * fullCookies.length),
    UInt32.ofNat (fullCookies.length + 1), 0x100⟩, (fullJar_jar mem).readPointer, ?_, ?_, mem,
    hnone _⟩
  · rcases (fullJar_jar mem).search 0x5a5a5a5a with ⟨-, hend⟩ | ⟨pre, v, post, heq, -⟩
    · exact hend
    · have hmem : ((0x5a5a5a5a : UInt32), v) ∈ fullCookies := by
        rw [heq]
        exact List.mem_append_right pre List.mem_cons_self
      exact absurd rfl (fullCookies_keys hmem).2
  · rw [fullCookies_length]
    rfl

/-- Its last pair, in a guest that has all the memory. -/
theorem jar_lost_full : ∃ mem search,
    ¬ ∃ s', writeCookie 0x5a5a5a5a 7 (fullJar mem) = Except.ok s' ∧
      JarKept (fullJar mem) s' 0x10000 search := by
  obtain ⟨mem, search, h⟩ := fullJar_growthFails
  exact ⟨mem, search, jar_lost 7 h⟩

theorem full_jar_overwrites : ∃ mem search, GrowthFails (fullJar mem) 0x5a5a5a5a 0x10000 search ∧
    ¬ ∃ s', writeCookie 0x5a5a5a5a 7 (fullJar mem) = Except.ok s' ∧
      JarKept (fullJar mem) s' 0x10000 search := by
  obtain ⟨mem, search, h⟩ := fullJar_growthFails
  refine ⟨mem, search, h, ?_⟩
  rintro ⟨s', hrun, hkept⟩
  exact h.not_kept hrun hkept

end ParaTos.CookieJar
