/-
  ParaTos/CookieJarRuns.lean
  ==========================
  **The cookie jar is a finite map.**

  The jar is described by the list of its cookies, in the order of the memory.
  `JarHolds` is the invariant: the list stands at the address that `_p_cookies`
  holds, there is room for one more pair, and the block belongs to the jar.  A write
  replaces the value of a cookie or adds one at the end, after moving everything to a
  block of twice the size when the last pair is in use.

  The whole run is on the real `Malloc` and `Mfree`.  That they deliver blocks apart
  from each other is a consequence of the tiling of the arena; that `Malloc` succeeds
  is not, and is assumed of each write.
-/
import ParaTos.CookieJar
import ParaTos.MemCanonical

namespace ParaTos.CookieJar

open Bytes Memory Words

/-! ### The only block -/

/-- One block is in use, at `base`, of at least `size` bytes. -/
structure OnlyBlock (mem : Mem.State) (base : UInt32) (size : Int) : Prop where
  only : ∃ L c, Mem.Rep mem L ∧ Mem.Tiled (L.free ++ L.used) ∧ L.used = [c] ∧
    c.2.start = base ∧ size ≤ c.2.size.toInt

theorem OnlyBlock.inside {mem : Mem.State} {base : UInt32} {size : Int}
    (h : OnlyBlock mem base size) :
    0x10000 ≤ base.toNat ∧ base.toNat + size ≤ 0x1000000 := by
  obtain ⟨L, c, -, ht, hused, rfl, hsize⟩ := h.only
  have hin : Mem.Inside c := ht.inside (by simp [hused])
  exact ⟨hin.start, by have hfits := hin.fits; omega⟩

/-- A block of its own is allocated, and the one that was there before is released. -/
theorem OnlyBlock.move {mem mem₁ : Mem.State} {base a : UInt32} {size : Int} {n : Int32}
    (h : OnlyBlock mem base size) (hsize : 0 < size) (hn : Mem.AtLeastOne n)
    (hmalloc : Mem.malloc n mem = Except.ok (a, mem₁)) (ha : a ≠ 0) :
    ∃ mem₂, Mem.mfree base mem₁ = Except.ok (Mem.tosEOk, mem₂) ∧ OnlyBlock mem₂ a n.toInt ∧
      (a.toNat + n.toInt ≤ base.toNat ∨ base.toNat + size ≤ a.toNat) := by
  obtain ⟨L, c, hr, ht, hused, rfl, hc⟩ := h.only
  obtain ⟨L₁, d, hr₁, ht₁, hused₁, rfl, hd⟩ := Mem.malloc_used hr ht hn hmalloc ha
  rw [hused] at hused₁
  have hpos := hn.1
  have hshape : Mem.Tiled (L₁.free ++ d :: [c]) := hused₁ ▸ ht₁
  have hcpos : 0 < c.2.size.toInt := by omega
  have hdpos : 0 < d.2.size.toInt := by omega
  have hapart := hshape.used_apart List.mem_cons_self hdpos hcpos
  have hne := hshape.start_ne List.mem_cons_self hdpos hcpos
  simp only [Mem.span] at hapart
  obtain ⟨r, mem₂, L₂, hfree, hst, hr₂⟩ := Mem.mfree_spec hr₁ c.2.start
  have ht₂ := ht₁.step hst trivial
  obtain ⟨free₁, used₁⟩ := L₁
  simp only at hused₁
  refine ⟨mem₂, ?_, ?_, by omega⟩
  · generalize hblock : c.2.start = block at hst hfree
    cases hst with
    | freeUnknown hnone =>
      exact absurd hblock (hnone c (by simp [hused₁]))
    | free hpre hc hins => exact hfree
  · generalize hblock : c.2.start = block at hst
    cases hst with
    | freeUnknown hnone =>
      exact absurd hblock (hnone c (by simp [hused₁]))
    | @free pre post free free' e block hpre he hins =>
      refine ⟨_, d, hr₂, ht₂, ?_, rfl, hd⟩
      -- the released block is the second one
      cases pre with
      | nil =>
        simp only [List.nil_append, List.cons.injEq] at hused₁
        rw [hused₁.1, ← hblock] at he
        exact absurd he hne
      | cons p pre =>
        simp only [List.cons_append, List.cons.injEq] at hused₁
        obtain ⟨rfl, htail⟩ := hused₁
        have hlen := congrArg List.length htail
        simp only [List.length_append, List.length_cons, List.length_nil] at hlen
        have hpre : pre = [] := List.length_eq_zero_iff.mp (by omega)
        have hpost : post = [] := List.length_eq_zero_iff.mp (by omega)
        rw [hpre, hpost]
        rfl

/-! ### The cookies as a map -/

section Lookup

variable {cookies pre post : List Cookie} {key v value : UInt32}

theorem lookup_replace (hpre : ∀ c ∈ pre, c.1 ≠ key) :
    (fun k => (pre ++ (key, value) :: post).lookup k) =
      Function.update (fun k => (pre ++ (key, v) :: post).lookup k) key (some value) := by
  funext k
  by_cases hk : k = key
  · subst hk
    rw [Function.update_self]
    induction pre with
    | nil => simp
    | cons c pre ih =>
      have hne : (k == c.1) = false := beq_eq_false_iff_ne.mpr (Ne.symm (hpre c (by simp)))
      rw [List.cons_append, List.lookup_cons, hne]
      exact ih fun d hd => hpre d (by simp [hd])
  · rw [Function.update_of_ne hk]
    have hne : (k == key) = false := beq_eq_false_iff_ne.mpr hk
    simp [List.lookup_append, List.lookup_cons, hne]

theorem lookup_add (hcookies : ∀ c ∈ cookies, c.1 ≠ key) :
    (fun k => (cookies ++ [(key, value)]).lookup k) =
      Function.update (fun k => cookies.lookup k) key (some value) := by
  funext k
  by_cases hk : k = key
  · subst hk
    rw [Function.update_self]
    have hnone : cookies.lookup k = none := by
      rw [List.lookup_eq_none_iff]
      intro c hc
      simpa using Ne.symm (hcookies c hc)
    simp [List.lookup_append, hnone]
  · rw [Function.update_of_ne hk]
    have hne : (k == key) = false := beq_eq_false_iff_ne.mpr hk
    simp [List.lookup_append, List.lookup_cons, hne]

end Lookup

/-! ### A jar in the memory -/

/-- `_p_cookies` designates a jar with these cookies, which lies in the RAM. -/
structure Jar (m : Memory) (base capacity : UInt32) (cookies : List Cookie) : Prop where
  pointer : Shows m pCookies.toNat (bigEndian 4 base.toNat)
  image : Shows m base.toNat (jarImage cookies capacity)
  fits : base.toNat + 8 * (cookies.length + 1) ≤ 0x1000000
  keys : ∀ c ∈ cookies, c.1 ≠ 0

section Jars

variable {m : Memory} {base capacity key : UInt32} {cookies : List Cookie}

theorem Jar.readPointer (h : Jar m base capacity cookies) :
    readMemory32 pCookies m = Except.ok base := readMemory32_shows h.pointer (by decide)

/-- The search of `WriteCookie` and of `ReadCookie`. -/
theorem Jar.search (h : Jar m base capacity cookies) (key : UInt32) :
    ((∀ c ∈ cookies, c.1 ≠ key) ∧ writeSearch key searchRounds base 0 m = Except.ok
        ⟨false, base + UInt32.ofNat (8 * cookies.length), UInt32.ofNat (cookies.length + 1),
          capacity⟩) ∨
      ∃ pre v post, cookies = pre ++ (key, v) :: post ∧ (∀ c ∈ pre, c.1 ≠ key) ∧
        writeSearch key searchRounds base 0 m = Except.ok
          ⟨true, base + UInt32.ofNat (8 * pre.length), UInt32.ofNat (pre.length + 1), 0⟩ := by
  have hfits := h.fits
  have hrounds : cookies.length < searchRounds := by
    have hsearch : searchRounds = 2 ^ 29 := rfl
    omega
  have hspec := @writeSearch_spec m capacity key cookies base 0 searchRounds h.image
    (by omega) hrounds h.keys
  simpa only [UInt32.zero_add] using hspec

/-- `ReadCookie` finds what the list has, for every number that is a key. -/
theorem Jar.read (h : Jar m base capacity cookies) (hkey : ¬ (1 < key ∧ key ≤ 0xffff)) :
    readCookie key m = Except.ok
      (match cookies.lookup key with | some v => (0, some v) | none => (-1, none)) := by
  have hfits := h.fits
  rw [readCookie, h.readPointer, Run.ok_bind, if_neg hkey]
  rcases h.search key with ⟨hnone, hsearch⟩ | ⟨pre, v, post, rfl, hpre, hsearch⟩
  · have hlookup : cookies.lookup key = none := by
      rw [List.lookup_eq_none_iff]
      intro c hc
      simpa using Ne.symm (hnone c hc)
    rw [readSearch_eq searchRounds hsearch, hlookup]
    rfl
  · have hlookup : (pre ++ (key, v) :: post).lookup key = some v := by
      have hself := congrFun (@lookup_replace pre post key v v hpre) key
      rw [Function.update_self] at hself
      exact hself
    have himage := h.image
    rw [jarImage_append, shows_append, length_flatMap_pair] at himage
    have haddr : (base + UInt32.ofNat (8 * pre.length)).toNat = base.toNat + 8 * pre.length := by
      apply toNat_advance
      rw [List.length_append, List.length_cons] at hfits
      omega
    rw [List.length_append, List.length_cons] at hfits
    rw [← haddr, shows_jar_cons (by omega)] at himage
    have hvalue := (read_pair himage.2.1 (by omega)).2
    rw [readSearch_eq searchRounds hsearch, hlookup]
    simp only [if_pos, Run.ok_bind, hvalue]
    rfl

end Jars

/-! ### The invariant -/

/-- The cookies stand in the block at `base`, which has room for `capacity` pairs. -/
structure JarHolds (s : State) (base capacity : UInt32) (cookies : List Cookie) : Prop where
  pointer : Shows s.memory pCookies.toNat (bigEndian 4 base.toNat)
  image : Shows s.memory base.toNat (jarImage cookies capacity)
  room : cookies.length < capacity.toNat
  keys : ∀ c ∈ cookies, 0xffff < c.1.toNat
  block : OnlyBlock s.mem base (8 * capacity.toNat)

section Invariant

variable {s : State} {base capacity : UInt32} {cookies : List Cookie}

theorem JarHolds.fits (h : JarHolds s base capacity cookies) :
    0x10000 ≤ base.toNat ∧ base.toNat + 8 * capacity.toNat ≤ 0x1000000 ∧
      base.toNat + 8 * (cookies.length + 1) ≤ 0x1000000 := by
  have hin := h.block.inside
  have hroom := h.room
  omega

theorem JarHolds.ne_zero (h : JarHolds s base capacity cookies) : ∀ c ∈ cookies, c.1 ≠ 0 := by
  intro c hc heq
  have hkey := h.keys c hc
  rw [heq] at hkey
  exact absurd hkey (by decide)

theorem JarHolds.jar (h : JarHolds s base capacity cookies) :
    Jar s.memory base capacity cookies where
  pointer := h.pointer
  image := h.image
  fits := h.fits.2.2
  keys := h.ne_zero

theorem JarHolds.count (h : JarHolds s base capacity cookies) :
    (UInt32.ofNat (cookies.length + 1)).toNat = cookies.length + 1 := by
  have hfits := h.fits
  exact UInt32.toNat_ofNat_of_lt' (by unfold UInt32.size; omega)

/-- A search that came to the end finds the jar full when the last pair is in use. -/
theorem JarHolds.full_iff (h : JarHolds s base capacity cookies) (address : UInt32) :
    Search.full ⟨false, address, UInt32.ofNat (cookies.length + 1), capacity⟩ = true ↔
      cookies.length + 1 = capacity.toNat := by
  simp only [Search.full, Bool.not_false, Bool.true_and, beq_iff_eq, ← UInt32.toNat_inj, h.count]

end Invariant

/-! ### Writing -/

/-- The stores hit the jar of `capacity` pairs at `base`, or `_p_cookies`. -/
def StoresIn (base capacity : UInt32) (stores : List UInt32) : Prop :=
  ∀ x ∈ stores, x = pCookies ∨
    base.toNat ≤ x.toNat ∧ x.toNat + 4 ≤ base.toNat + 8 * capacity.toNat

theorem Within.storesIn {base capacity : UInt32} {stores : List UInt32}
    (h : Within base.toNat (8 * capacity.toNat) stores) : StoresIn base capacity stores :=
  fun x hx => Or.inr (h x hx)

theorem StoresIn.append {base capacity : UInt32} {l l' : List UInt32}
    (h : StoresIn base capacity l) (h' : StoresIn base capacity l') :
    StoresIn base capacity (l ++ l') := by
  intro x hx
  rcases List.mem_append.mp hx with hx | hx
  · exact h x hx
  · exact h' x hx

/-- When `WriteCookie` needs a new block, `Malloc` delivers one. -/
def MallocSucceeds (s : State) (c : Cookie) : Prop :=
  ∀ base search a mem, readMemory32 pCookies s.memory = Except.ok base →
    writeSearch c.1 searchRounds base 0 s.memory = Except.ok search → search.full = true →
    Mem.malloc (search.maxCount * 2 * 8).toInt32 s.mem = Except.ok (a, mem) → a ≠ 0

section Writing

variable {s : State} {base capacity key value : UInt32} {cookies pre post : List Cookie}

/-- The value of a cookie is replaced in place. -/
theorem JarHolds.replace {v : UInt32} (hkey : 0xffff < key.toNat)
    (h : JarHolds s base capacity (pre ++ (key, v) :: post)) (stores : List UInt32) :
    JarHolds
      ⟨write s.memory (base + UInt32.ofNat (8 * pre.length)).toNat (pair (key, value)), s.mem,
        stores⟩
      base capacity (pre ++ (key, value) :: post) := by
  obtain ⟨hlo, hend, hfits⟩ := h.fits
  have hroom := h.room
  rw [List.length_append, List.length_cons] at hroom hfits
  have haddr : (base + UInt32.ofNat (8 * pre.length)).toNat = base.toNat + 8 * pre.length :=
    toNat_advance (by omega)
  have hcookies : pCookies.toNat = 0x5a0 := rfl
  rw [haddr]
  constructor
  · apply h.pointer.write
    rw [bigEndian_length]
    omega
  · have himage := h.image
    rw [jarImage_append, jarImage_cons, shows_append, shows_append, length_flatMap_pair,
      length_pair] at himage ⊢
    refine ⟨himage.1.write (Or.inl ?_), shows_write _ _ _, himage.2.2.write (Or.inr ?_)⟩
    · rw [length_flatMap_pair]
    · rw [length_pair]
  · rw [List.length_append, List.length_cons]
    exact hroom
  · intro c hc
    simp only [List.mem_append, List.mem_cons] at hc
    rcases hc with hc | rfl | hc
    · exact h.keys c (by simp [hc])
    · exact hkey
    · exact h.keys c (by simp [hc])
  · exact h.block

/-- A cookie is added behind the last one, and the capacity moves on. -/
theorem JarHolds.add (hkey : 0xffff < key.toNat) (h : JarHolds s base capacity cookies)
    (hroom : cookies.length + 1 < capacity.toNat) (stores : List UInt32) :
    JarHolds
      ⟨write s.memory (base + UInt32.ofNat (8 * cookies.length)).toNat
          (jarImage [(key, value)] capacity), s.mem, stores⟩
      base capacity (cookies ++ [(key, value)]) := by
  obtain ⟨hlo, hend, hfits⟩ := h.fits
  have haddr : (base + UInt32.ofNat (8 * cookies.length)).toNat =
      base.toNat + 8 * cookies.length := toNat_advance (by omega)
  have hcookies : pCookies.toNat = 0x5a0 := rfl
  rw [haddr]
  constructor
  · apply h.pointer.write
    rw [bigEndian_length]
    omega
  · have himage := h.image
    rw [← List.append_nil cookies, jarImage_append, shows_append, length_flatMap_pair] at himage
    rw [jarImage_append, shows_append, length_flatMap_pair]
    refine ⟨himage.1.write (Or.inl ?_), shows_write _ _ _⟩
    rw [length_flatMap_pair]
  · rw [List.length_append]
    exact hroom
  · intro c hc
    rcases List.mem_append.mp hc with hc | hc
    · exact h.keys c hc
    · rw [List.mem_singleton.mp hc]
      exact hkey
  · exact h.block

/-- The number of bytes that `ResizeCookieJar` asks for. -/
theorem toInt_newSize {a : UInt32} (ha : a.toNat ≤ 2 ^ 21) :
    (a * 2).toNat = 2 * a.toNat ∧ (a * 2 * 8).toInt32.toInt = 16 * a.toNat := by
  have htwo : (a * 2).toNat = 2 * a.toNat := by
    have hmul := UInt32.toNat_mul a 2
    have h2 : (2 : UInt32).toNat = 2 := rfl
    rw [h2] at hmul
    omega
  have hsixteen : (a * 2 * 8).toNat = 16 * a.toNat := by
    have hmul := UInt32.toNat_mul (a * 2) 8
    have h8 : (8 : UInt32).toNat = 8 := rfl
    rw [h8] at hmul
    omega
  have hbits : (a * 2 * 8).toInt32.toInt = (a * 2 * 8).toBitVec.toInt := rfl
  refine ⟨htwo, ?_⟩
  rw [hbits, BitVec.toInt_eq_toNat_of_lt] <;> rw [UInt32.toNat_toBitVec, hsixteen] <;> omega

/-- The jar moves to a block of twice the size. -/
theorem JarHolds.resize (h : JarHolds s base capacity cookies)
    (hfull : cookies.length + 1 = capacity.toNat)
    (hmalloc : ∀ a mem, Mem.malloc (capacity * 2 * 8).toInt32 s.mem = Except.ok (a, mem) → a ≠ 0) :
    ∃ base' s' stores,
      resizeCookieJar (UInt32.ofNat (cookies.length + 1)) (capacity * 2) s =
        Except.ok (base', s') ∧
      JarHolds s' base' (capacity * 2) cookies ∧ s'.stores = stores ++ s.stores ∧
      StoresIn base' (capacity * 2) stores := by
  obtain ⟨hlo, hend, hfits⟩ := h.fits
  have hcookies : pCookies.toNat = 0x5a0 := rfl
  obtain ⟨hdouble, hbytes⟩ := @toInt_newSize capacity (by omega)
  obtain ⟨L, -, hr, -⟩ := h.block.only
  obtain ⟨a, mem₁, -, hrun, -⟩ := Mem.malloc_spec hr (capacity * 2 * 8).toInt32
  have hn : Mem.AtLeastOne (capacity * 2 * 8).toInt32 := by
    constructor <;> omega
  obtain ⟨mem₂, hfree, hblock, hapart⟩ := h.block.move (by omega) hn hrun (hmalloc a mem₁ hrun)
  rw [hbytes] at hblock hapart
  obtain ⟨halo, hahi⟩ := hblock.inside
  have hcount := h.count
  obtain ⟨stores, hcopy, hwithin⟩ := @copyCookies_spec base a (capacity * 2) capacity cookies 0
    base a ⟨s.memory, mem₁, s.stores⟩ (cookies.length + 1) (by simp) (by simp) h.image (by omega)
    (by omega) (by omega) (by omega) h.ne_zero
  refine ⟨a, ⟨write (write s.memory a.toNat (jarImage cookies (capacity * 2))) pCookies.toNat
    (bigEndian 4 a.toNat), mem₂, pCookies :: (stores ++ s.stores)⟩, pCookies :: stores, ?_, ?_,
    rfl, ?_⟩
  · rw [resizeCookieJar, h.jar.readPointer, Run.ok_bind, hrun, Run.ok_bind]
    dsimp only
    rw [hcount, hcopy, Run.ok_bind, store_ok a (by omega), Run.ok_bind]
    dsimp only
    rw [hfree]
    rfl
  · constructor
    · exact shows_write _ _ _
    · apply (shows_write s.memory a.toNat (jarImage cookies (capacity * 2))).write
      rw [bigEndian_length]
      omega
    · rw [hdouble]
      omega
    · exact h.keys
    · rw [hdouble]
      have height : 8 * ((2 * capacity.toNat : Nat) : Int) = 16 * capacity.toNat := by omega
      rw [height]
      exact hblock
  · intro x hx
    rcases List.mem_cons.mp hx with rfl | hx
    · exact Or.inl rfl
    · have hbounds := hwithin x hx
      right
      omega

/-- Behind `makeRoom` there is room for one more cookie. -/
theorem JarHolds.makeRoom (h : JarHolds s base capacity cookies) {search : Search}
    (hsearch : search = ⟨false, base + UInt32.ofNat (8 * cookies.length),
      UInt32.ofNat (cookies.length + 1), capacity⟩)
    (hmalloc : search.full = true → ∀ a mem,
      Mem.malloc (capacity * 2 * 8).toInt32 s.mem = Except.ok (a, mem) → a ≠ 0) :
    ∃ base' capacity' s' stores, CookieJar.makeRoom base search s =
        Except.ok (base' + UInt32.ofNat (8 * cookies.length), capacity', s') ∧
      JarHolds s' base' capacity' cookies ∧ cookies.length + 1 < capacity'.toNat ∧
      s'.stores = stores ++ s.stores ∧ StoresIn base' capacity' stores ∧
      (cookies.length + 1 < capacity.toNat → base' = base ∧ capacity' = capacity) := by
  have hfits := h.fits
  have hroom := h.room
  have hiff : search.full = true ↔ cookies.length + 1 = capacity.toNat := by
    rw [hsearch]
    exact h.full_iff _
  unfold CookieJar.makeRoom
  by_cases hfull : search.full = true
  · obtain ⟨base', s', stores, hresize, hjar, hstores, hin⟩ :=
      h.resize (hiff.mp hfull) (hmalloc hfull)
    have hdouble := (@toInt_newSize capacity (by omega)).1
    have hequal := hiff.mp hfull
    refine ⟨base', capacity * 2, s', stores, ?_, hjar, by omega, hstores, hin, by omega⟩
    rw [if_pos hfull, hsearch]
    dsimp only
    rw [hresize, Run.ok_bind]
    have hrebase : base + UInt32.ofNat (8 * cookies.length) + (base' - base) =
        base' + UInt32.ofNat (8 * cookies.length) := by grind
    dsimp only
    rw [hrebase]
    rfl
  · refine ⟨base, capacity, s, [], ?_, h, ?_, rfl, by simp [StoresIn], fun _ => ⟨rfl, rfl⟩⟩
    · rw [if_neg hfull, hsearch]
    · rw [hiff] at hfull
      omega

/-- **What `WriteCookie` does to the list of cookies.** -/
theorem JarHolds.writeCookie (h : JarHolds s base capacity cookies) (hkey : 0xffff < key.toNat)
    (hmalloc : MallocSucceeds s (key, value)) :
    ∃ base' capacity' cookies' s' stores, CookieJar.writeCookie key value s = Except.ok s' ∧
      JarHolds s' base' capacity' cookies' ∧ s'.stores = stores ++ s.stores ∧
      StoresIn base' capacity' stores ∧
      (fun k => cookies'.lookup k) =
        Function.update (fun k => cookies.lookup k) key (some value) ∧
      cookies'.length ≤ cookies.length + 1 ∧
      (cookies.length + 1 < capacity.toNat → base' = base ∧ capacity' = capacity) := by
  obtain ⟨hlo, hend, hfits⟩ := h.fits
  have hroom := h.room
  unfold CookieJar.writeCookie
  rw [h.jar.readPointer, Run.ok_bind]
  rcases h.jar.search key with ⟨hnone, hsearch⟩ | ⟨pre, v, post, rfl, hpre, hsearch⟩
  · obtain ⟨base', capacity', s₁, stores, hmake, hjar, hroom', hstores, hin, hsame⟩ :=
      h.makeRoom rfl fun hfull a mem hrun => hmalloc base _ a mem h.jar.readPointer hsearch hfull hrun
    obtain ⟨hlo', hend', hfits'⟩ := hjar.fits
    have haddr : (base' + UInt32.ofNat (8 * cookies.length)).toNat =
        base'.toNat + 8 * cookies.length := toNat_advance (by omega)
    have hadd := @JarHolds.add _ _ _ _ value _ hkey hjar hroom'
    generalize base' + UInt32.ofNat (8 * cookies.length) = a at hmake haddr hadd
    have ha8 : (a + 8).toNat = a.toNat + 8 := @toNat_advance a 8 (by omega)
    refine ⟨base', capacity', cookies ++ [(key, value)], _,
      [a + 8 + 4, a + 8, a + 4, a] ++ stores, ?_, hadd ([a + 8 + 4, a + 8, a + 4, a] ++ s₁.stores),
      ?_, ?_, lookup_add hnone, by simp, hsame⟩
    · rw [hsearch, Run.ok_bind, hmake, Run.ok_bind]
      dsimp only
      rw [store_pair_bind key value (by omega)]
      have htwelve : a + 12 = a + 8 + 4 := by rw [UInt32.add_assoc]; rfl
      rw [if_neg Bool.false_ne_true, htwelve, store_pair 0 capacity' (by omega)]
      dsimp only
      rw [ha8, ← length_pair (key, value), write_append, jarImage_cons, jarImage_nil]
      rfl
    · rw [hstores]
      rfl
    · apply StoresIn.append _ hin
      apply Within.storesIn
      have hfirst := @within_pair a 8 (by omega) (by omega)
      have hsecond := @within_pair (a + 8) 8 (by omega) (by omega)
      exact Within.append (l := [a + 8 + 4, a + 8]) (hsecond.mono (by omega) (by omega))
        (hfirst.mono (by omega) (by omega))
  · rw [List.length_append, List.length_cons] at hfits hroom
    have haddr : (base + UInt32.ofNat (8 * pre.length)).toNat = base.toNat + 8 * pre.length :=
      toNat_advance (by omega)
    have hreplace := @JarHolds.replace _ _ _ _ value _ _ _ hkey h
    generalize base + UInt32.ofNat (8 * pre.length) = a at hsearch haddr hreplace
    refine ⟨base, capacity, pre ++ (key, value) :: post, _, [a + 4, a], ?_,
      hreplace ([a + 4, a] ++ s.stores), ?_, ?_, lookup_replace hpre, by simp,
      fun _ => ⟨rfl, rfl⟩⟩
    · have hmake : CookieJar.makeRoom base ⟨true, a, UInt32.ofNat (pre.length + 1), 0⟩ s =
        Except.ok (a, 0, s) := rfl
      rw [hsearch, Run.ok_bind, hmake, Run.ok_bind]
      dsimp only
      rw [store_pair_bind key value (by omega), if_pos rfl]
      rfl
    · rfl
    · apply Within.storesIn
      exact (@within_pair a 8 (by omega) (by omega)).mono (by omega) (by omega)

end Writing

/-! ### Runs -/

/-- A call of `WriteCookie`, whose stores are recorded from its start. -/
def step (c : Cookie) (s : State) : Run (Unit × State) := do
  let s ← writeCookie c.1 c.2 { s with stores := [] }
  return ((), s)

/-- A map after one more write. -/
def put (f : UInt32 → Option UInt32) (c : Cookie) : UInt32 → Option UInt32 :=
  Function.update f c.1 (some c.2)

/-- The value that was last written for each key. -/
def written (cookies : List Cookie) : UInt32 → Option UInt32 := cookies.foldl put fun _ => none

/-- The cookies that `InitCookieJar` writes. -/
def initialCookies : List Cookie :=
  [(0x4d694e54, 0x200), (0x5f435055, 20), (0x5f465055, 0), (0x5f4d4348, 0x60000)]

/-- The jar that `_p_cookies` points to holds the map `f`, has its capacity behind its last
    cookie and room for one more pair, and lies in a block of its own.  The last call of
    `WriteCookie` stored nothing outside. -/
structure JarOf (s : State) (f : UInt32 → Option UInt32) (base capacity : UInt32)
    (cookies : List Cookie) : Prop where
  pointer : readMemory32 pCookies s.memory = Except.ok base
  slots : ∀ i, (h : i < cookies.length) → cookies[i].1 ≠ 0 ∧
    readMemory32 (base + UInt32.ofNat (8 * i)) s.memory = Except.ok cookies[i].1 ∧
    readMemory32 (base + UInt32.ofNat (8 * i) + 4) s.memory = Except.ok cookies[i].2
  terminator : readMemory32 (base + UInt32.ofNat (8 * cookies.length)) s.memory = Except.ok 0 ∧
    readMemory32 (base + UInt32.ofNat (8 * cookies.length) + 4) s.memory = Except.ok capacity
  room : cookies.length < capacity.toNat
  block : ∃ L, s.mem.lists = Except.ok L ∧
    ∃ c ∈ L.used, c.2.start = base ∧ 8 * (capacity.toNat : Int) ≤ c.2.size.toInt
  stores : StoresIn base capacity s.stores
  reads : ∀ key, ¬ (1 < key ∧ key ≤ 0xffff) → readCookie key s.memory = Except.ok
    (match f key with | some v => (0, some v) | none => (-1, none))

/-- The pair at place `i` of a jar. -/
theorem shows_jar_pair {m : Memory} {base capacity : UInt32} {cookies : List Cookie}
    (h : Shows m base.toNat (jarImage cookies capacity))
    (hfit : base.toNat + 8 * (cookies.length + 1) ≤ 0x1000000) {i : Nat} {c : Cookie}
    (hi : (cookies ++ [(0, capacity)])[i]? = some c) :
    readMemory32 (base + UInt32.ofNat (8 * i)) m = Except.ok c.1 ∧
      readMemory32 (base + UInt32.ofNat (8 * i) + 4) m = Except.ok c.2 := by
  obtain ⟨hlt, hget⟩ := List.getElem?_eq_some_iff.mp hi
  have hsplit : cookies ++ [(0, capacity)] = (cookies ++ [(0, capacity)]).take i ++
      c :: (cookies ++ [(0, capacity)]).drop (i + 1) := by
    rw [← hget, ← List.drop_eq_getElem_cons hlt, List.take_append_drop]
  have htake : ((cookies ++ [(0, capacity)]).take i).length = i := by
    rw [List.length_take]
    omega
  have hle : i ≤ cookies.length := by
    rw [List.length_append, List.length_singleton] at hlt
    omega
  have haddr : (base + UInt32.ofNat (8 * i)).toNat = base.toNat + 8 * i := toNat_advance (by omega)
  rw [jarImage, hsplit, List.flatMap_append, List.flatMap_cons, shows_append, shows_append,
    length_flatMap_pair, htake, ← haddr] at h
  exact read_pair h.2.1 (by omega)

theorem JarHolds.jarOf {s : State} {base capacity : UInt32} {cookies : List Cookie}
    (h : JarHolds s base capacity cookies) (hstores : StoresIn base capacity s.stores) :
    JarOf s (fun k : UInt32 => cookies.lookup k) base capacity cookies := by
  obtain ⟨hlo, hend, hfits⟩ := h.fits
  obtain ⟨L, c, hr, -, hused, hstart, hsize⟩ := h.block.only
  constructor
  · exact h.jar.readPointer
  · intro i hi
    refine ⟨h.ne_zero _ (List.getElem_mem hi), ?_⟩
    apply shows_jar_pair h.image hfits
    rw [List.getElem?_append_left hi, List.getElem?_eq_getElem hi]
  · apply shows_jar_pair h.image hfits (c := (0, capacity))
    simp
  · exact h.room
  · exact ⟨L, hr.read, c, by simp [hused], hstart, hsize⟩
  · exact hstores
  · exact fun key hkey => h.jar.read hkey

theorem step_jar {s : State} {base capacity : UInt32} {cookies : List Cookie} {c : Cookie}
    (h : JarHolds s base capacity cookies) (hkey : 0xffff < c.1.toNat)
    (hmalloc : MallocSucceeds s c) :
    ∃ base' capacity' cookies' s', step c s = Except.ok ((), s') ∧
      JarHolds s' base' capacity' cookies' ∧ StoresIn base' capacity' s'.stores ∧
      (fun k => cookies'.lookup k) =
        Function.update (fun k => cookies.lookup k) c.1 (some c.2) := by
  have h' : JarHolds { s with stores := [] } base capacity cookies :=
    ⟨h.pointer, h.image, h.room, h.keys, h.block⟩
  obtain ⟨base', capacity', cookies', s', stores, hrun, hjar, hstores, hin, hmap, -, -⟩ :=
    h'.writeCookie hkey hmalloc
  refine ⟨base', capacity', cookies', s', ?_, hjar, ?_, hmap⟩
  · rw [step, hrun]
    rfl
  · rw [hstores, List.append_nil]
    exact hin

/-- A run from a jar that holds the map `f`. -/
theorem run_jar (writes : List Cookie) :
    ∀ {s : State} {base capacity : UInt32} {cookies : List Cookie},
      JarHolds s base capacity cookies → StoresIn base capacity s.stores →
      (∀ c ∈ writes, 0xffff < c.1.toNat) → Machine.Meets step MallocSucceeds writes s →
      ∃ base' capacity' cookies' s', Machine.run step writes s = Except.ok s' ∧
        JarHolds s' base' capacity' cookies' ∧ StoresIn base' capacity' s'.stores ∧
        (fun k => cookies'.lookup k) = writes.foldl put (fun k => cookies.lookup k) := by
  induction writes with
  | nil =>
    intro s base capacity cookies h hstores _ _
    exact ⟨base, capacity, cookies, s, rfl, h, hstores, rfl⟩
  | cons c writes ih =>
    intro s base capacity cookies h _ hkeys hmalloc
    obtain ⟨base₁, capacity₁, cookies₁, s₁, hstep, h₁, hstores₁, hmap⟩ :=
      step_jar h (hkeys c (by simp)) hmalloc.1
    obtain ⟨base', capacity', cookies', s', hrun, h', hstores', hmap'⟩ :=
      ih h₁ hstores₁ (fun d hd => hkeys d (by simp [hd])) (hmalloc.2 () s₁ hstep)
    refine ⟨base', capacity', cookies', s', ?_, h', hstores', ?_⟩
    · rw [Machine.run, hstep]
      exact hrun
    · rw [hmap', hmap]
      rfl

/-- While there is room, `WriteCookie` does not call `Malloc`. -/
theorem JarHolds.succeeds {s : State} {base capacity : UInt32} {cookies : List Cookie}
    (h : JarHolds s base capacity cookies) (hroom : cookies.length + 1 < capacity.toNat)
    (c : Cookie) : MallocSucceeds s c := by
  intro base' search a mem hpointer hsearch hfull
  have hfits := h.fits
  rw [h.jar.readPointer] at hpointer
  cases hpointer
  rcases h.jar.search c.1 with ⟨-, hend⟩ | ⟨pre, v, post, -, -, hfound⟩
  · rw [hend] at hsearch
    cases hsearch
    exact absurd ((h.full_iff _).mp hfull) (Nat.ne_of_lt hroom)
  · rw [hfound] at hsearch
    cases hsearch
    cases hfull

/-- A cookie is written while there is room. -/
theorem JarHolds.writeCookie_room {s : State} {base capacity : UInt32} {cookies : List Cookie}
    (h : JarHolds s base capacity cookies) (hstores : StoresIn base capacity s.stores)
    (hroom : cookies.length + 1 < capacity.toNat) (c : Cookie) (hkey : 0xffff < c.1.toNat) :
    ∃ cookies' s', CookieJar.writeCookie c.1 c.2 s = Except.ok s' ∧
      JarHolds s' base capacity cookies' ∧ StoresIn base capacity s'.stores ∧
      (fun k => cookies'.lookup k) =
        Function.update (fun k => cookies.lookup k) c.1 (some c.2) ∧
      cookies'.length ≤ cookies.length + 1 := by
  obtain ⟨base', capacity', cookies', s', stores, hrun, hjar, hnew, hin, hmap, hlen, hsame⟩ :=
    h.writeCookie hkey (h.succeeds hroom c)
  obtain ⟨rfl, rfl⟩ := hsame hroom
  refine ⟨cookies', s', hrun, hjar, ?_, hmap, hlen⟩
  rw [hnew]
  exact hin.append hstores

/-- The empty jar that `InitCookieJar` sets up before it writes. -/
theorem emptyJar (m : Memory) : ∃ s₁, JarHolds s₁ 0x10000 0x100 [] ∧
    StoresIn 0x10000 0x100 s₁.stores ∧
    initCookieJar ⟨m, Mem.initMemory, []⟩ = (do
      let s ← writeCookie 0x4d694e54 0x200 s₁
      let s ← writeCookie 0x5f435055 20 s
      let s ← writeCookie 0x5f465055 0 s
      writeCookie 0x5f4d4348 0x60000 s) := by
  obtain ⟨mem, hboot, hr⟩ := Mem.boot_rep
  have hbase : (0x10000 : UInt32).toNat = 0x10000 := rfl
  have hcookies : pCookies.toNat = 0x5a0 := rfl
  refine ⟨⟨write (write m pCookies.toNat (bigEndian 4 0x10000)) 0x10000 (pair (0, 0x100)), mem,
    [0x10000 + 4, 0x10000, pCookies]⟩, ?_, ?_, ?_⟩
  · constructor
    · apply (shows_write m pCookies.toNat (bigEndian 4 0x10000)).write
      rw [bigEndian_length]
      omega
    · rw [jarImage_nil]
      exact shows_write _ _ _
    · decide
    · simp
    · exact ⟨_, (.node 0, ⟨0x10000, 0x800⟩), hr, Mem.bootLists_tiled, rfl, rfl, by decide⟩
  · intro x hx
    simp only [List.mem_cons, List.not_mem_nil, or_false] at hx
    rcases hx with rfl | rfl | rfl
    · exact Or.inr (by decide)
    · exact Or.inr (by decide)
    · exact Or.inl rfl
  · rw [initCookieJar, hboot, Run.ok_bind]
    dsimp only
    rw [store_ok 0x10000 (by omega), Run.ok_bind, store_pair_bind 0 0x100 (by omega)]
    rfl

/-- `InitCookieJar` returns, and leaves a jar with its four cookies. -/
theorem initCookieJar_holds (m : Memory) : ∃ s₀ cookies,
    initCookieJar ⟨m, Mem.initMemory, []⟩ = Except.ok s₀ ∧
      JarHolds s₀ 0x10000 0x100 cookies ∧ StoresIn 0x10000 0x100 s₀.stores ∧
      (fun k => cookies.lookup k) = written initialCookies ∧ cookies.length ≤ 4 := by
  have hcapacity : (0x100 : UInt32).toNat = 256 := rfl
  obtain ⟨s₁, h₁, hin₁, hinit⟩ := emptyJar m
  obtain ⟨cookies₂, s₂, hrun₂, h₂, hin₂, hmap₂, hlen₂⟩ :=
    h₁.writeCookie_room hin₁ (by decide) (0x4d694e54, 0x200) (by decide)
  rw [List.length_nil] at hlen₂
  obtain ⟨cookies₃, s₃, hrun₃, h₃, hin₃, hmap₃, hlen₃⟩ :=
    h₂.writeCookie_room hin₂ (by omega) (0x5f435055, 20) (by decide)
  obtain ⟨cookies₄, s₄, hrun₄, h₄, hin₄, hmap₄, hlen₄⟩ :=
    h₃.writeCookie_room hin₃ (by omega) (0x5f465055, 0) (by decide)
  obtain ⟨cookies₅, s₅, hrun₅, h₅, hin₅, hmap₅, hlen₅⟩ :=
    h₄.writeCookie_room hin₄ (by omega) (0x5f4d4348, 0x60000) (by decide)
  refine ⟨s₅, cookies₅, ?_, h₅, hin₅, ?_, by omega⟩
  · rw [hinit, hrun₂, Run.ok_bind, hrun₃, Run.ok_bind, hrun₄, Run.ok_bind, hrun₅]
  · rw [hmap₅, hmap₄, hmap₃, hmap₂]
    rfl

/-- **The jar refines a finite map**, through any number of resizes. -/
theorem jar_refines_map {m : Memory} {s₀ : State}
    (hinit : initCookieJar ⟨m, Mem.initMemory, []⟩ = Except.ok s₀) (writes : List Cookie)
    (hkeys : ∀ c ∈ writes, 0xffff < c.1) (hmalloc : Machine.Meets step MallocSucceeds writes s₀) :
    ∃ s base capacity cookies, Machine.run step writes s₀ = Except.ok s ∧
      JarOf s (written (initialCookies ++ writes)) base capacity cookies := by
  obtain ⟨s₀', cookies₀, hinit', h₀, hin₀, hmap₀, -⟩ := initCookieJar_holds m
  rw [hinit] at hinit'
  cases hinit'
  obtain ⟨base, capacity, cookies, s, hrun, h, hin, hmap⟩ :=
    run_jar writes h₀ hin₀ (fun c hc => UInt32.lt_iff_toNat_lt.mp (hkeys c hc)) hmalloc
  have hwritten : (fun k : UInt32 => cookies.lookup k) = written (initialCookies ++ writes) := by
    rw [hmap, hmap₀, written, written, List.foldl_append]
  refine ⟨s, base, capacity, cookies, hrun, ?_⟩
  rw [← hwritten]
  exact h.jarOf hin

/-- One more cookie, in fresh memory. -/
theorem jar_refines_map_fresh : ∃ s₀ s base capacity cookies,
    initCookieJar ⟨initM68KMemory, Mem.initMemory, []⟩ = Except.ok s₀ ∧
    Machine.run step [(0x12345678, 7)] s₀ = Except.ok s ∧
      JarOf s (written (initialCookies ++ [(0x12345678, 7)])) base capacity cookies := by
  obtain ⟨s₀, cookies₀, hinit, h₀, -, -, hlen⟩ := initCookieJar_holds initM68KMemory
  have hcapacity : (0x100 : UInt32).toNat = 256 := rfl
  have hmeets : Machine.Meets step MallocSucceeds [(0x12345678, 7)] s₀ :=
    ⟨h₀.succeeds (by omega) _, fun _ _ _ => trivial⟩
  have hkey : ∀ c ∈ [((0x12345678 : UInt32), (7 : UInt32))], 0xffff < c.1 := by
    intro c hc
    rw [List.mem_singleton.mp hc]
    decide
  obtain ⟨s, base, capacity, cookies, hrun, hjar⟩ :=
    jar_refines_map hinit [(0x12345678, 7)] hkey hmeets
  exact ⟨s₀, s, base, capacity, cookies, hinit, hrun, hjar⟩

end ParaTos.CookieJar
