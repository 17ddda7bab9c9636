/-
  ParaTos/CookieJar.lean
  ======================
  **The cookie jar** (`gemdos/cookiejar.c`).

  The jar is a block of pairs of longwords, a key and a value each, in the emulated
  memory.  The pair behind the last cookie has the key 0, and its value is how many
  pairs the block has room for.

  The functions are translated with their stores recorded, so that one can say where
  they store and not only what is different afterwards.  A search that comes to no
  end goes round the address space; after `2^29` steps of eight bytes it is back
  where it started and never returns.
-/
import ParaTos.Memory

namespace ParaTos.CookieJar

open Bytes Memory

/-- `_p_cookies` -/
def pCookies : UInt32 := 0x5a0

/-- The memory, the state of `Malloc`, and the addresses that were stored to, the last
    one first. -/
structure State where
  memory : Memory
  mem : Mem.State
  stores : List UInt32

/-- `m68k_write_memory_32(address, value)` -/
def State.store (address value : UInt32) (s : State) : Run State := do
  let memory ← writeMemory32 address value s.memory
  return { s with memory, stores := address :: s.stores }

/-! ### Resizing -/

/-- The loop of `ResizeCookieJar`, with the rounds that are left. -/
def copyCookies (oldJar newJar newSize : UInt32) : Nat → UInt32 → State → Run State
  | 0, _, s => Except.ok s
  | rounds + 1, slot, s => do
    let key ← readMemory32 (oldJar + slot * 8) s.memory
    let s ← s.store (newJar + slot * 8) key
    if key ≠ 0 then do
      let value ← readMemory32 (oldJar + slot * 8 + 4) s.memory
      let s ← s.store (newJar + slot * 8 + 4) value
      copyCookies oldJar newJar newSize rounds (slot + 1) s
    else s.store (newJar + slot * 8 + 4) newSize

/-- `ResizeCookieJar(currentSize, newSize)` -/
def resizeCookieJar (currentSize newSize : UInt32) (s : State) : Run (UInt32 × State) := do
  let oldJar ← readMemory32 pCookies s.memory
  let (newJar, mem) ← Mem.malloc (newSize * 8).toInt32 s.mem
  let s ← copyCookies oldJar newJar newSize currentSize.toNat 0 { s with mem }
  let s ← s.store pCookies newJar
  let (_, mem) ← Mem.mfree oldJar s.mem
  return (newJar, { s with mem })

/-! ### Writing -/

def searchRounds : Nat := 2 ^ 29

/-- How the search of `WriteCookie` leaves its loop. -/
structure Search where
  found : Bool
  address : UInt32
  currentCount : UInt32
  maxCount : UInt32
deriving DecidableEq, Repr

/-- The loop of `WriteCookie`. -/
def writeSearch (key : UInt32) : Nat → UInt32 → UInt32 → Memory → Run Search
  | 0, _, _, _ => Except.error .diverges
  | rounds + 1, address, currentCount, m => do
    let current ← readMemory32 address m
    let currentCount := currentCount + 1
    if current = 0 then do
      let maxCount ← readMemory32 (address + 4) m
      return ⟨false, address, currentCount, maxCount⟩
    else if current = key then return ⟨true, address, currentCount, 0⟩
    else writeSearch key rounds (address + 8) currentCount m

/-- A new cookie, and no room for it. -/
def Search.full (search : Search) : Bool :=
  !search.found && search.currentCount == search.maxCount

/-- What `WriteCookie` does when the jar is full: where to go on, and the new
    `maxCount`. -/
def makeRoom (base : UInt32) (search : Search) (s : State) : Run (UInt32 × UInt32 × State) :=
  if search.full then do
    let maxCount := search.maxCount * 2
    let (newBase, s) ← resizeCookieJar search.currentCount maxCount s
    return (search.address + (newBase - base), maxCount, s)
  else Except.ok (search.address, search.maxCount, s)

/-- `WriteCookie(key, value)` -/
def writeCookie (key value : UInt32) (s : State) : Run State := do
  let base ← readMemory32 pCookies s.memory
  let search ← writeSearch key searchRounds base 0 s.memory
  let (address, maxCount, s) ← makeRoom base search s
  let s ← s.store address key
  let s ← s.store (address + 4) value
  if search.found then return s
  let s ← s.store (address + 8) 0
  s.store (address + 12) maxCount

/-! ### Reading -/

/-- The loop of `ReadCookie` for the number of a cookie; `none` when the jar ends first. -/
def indexLoop : Nat → UInt32 → Memory → Run (Option UInt32)
  | 0, address, _ => Except.ok (some address)
  | rounds + 1, address, m => do
    let current ← readMemory32 address m
    if current = 0 then return none
    indexLoop rounds (address + 8) m

/-- The loop of `ReadCookie` for a key: the address of the cookie. -/
def readSearch (key : UInt32) : Nat → UInt32 → Memory → Run (Option UInt32)
  | 0, _, _ => Except.error .diverges
  | rounds + 1, address, m => do
    let current ← readMemory32 address m
    if current = 0 then return none
    else if current = key then return some address
    else readSearch key rounds (address + 8) m

/-- `ReadCookie(key, &value)`: the result, and the value if it was set. -/
def readCookie (key : UInt32) (m : Memory) : Run (Int32 × Option UInt32) := do
  let address ← readMemory32 pCookies m
  if 1 < key ∧ key ≤ 0xffff then
    match ← indexLoop key.toNat address m with
    | none => return (0, none)
    | some address => do
      let value ← readMemory32 address m
      return (1, some value)
  else
    match ← readSearch key searchRounds address m with
    | none => return (-1, none)
    | some address => do
      let value ← readMemory32 (address + 4) m
      return (0, some value)

/-! ### The start -/

/-- `InitCookieJar()` -/
def initCookieJar (s : State) : Run State := do
  let (base, mem) ← Mem.malloc 0x800 s.mem
  let s ← State.store pCookies base { s with mem }
  let s ← s.store base 0
  let s ← s.store (base + 4) 0x100
  let s ← writeCookie 0x4d694e54 0x200 s
  let s ← writeCookie 0x5f435055 20 s
  let s ← writeCookie 0x5f465055 0 s
  writeCookie 0x5f4d4348 0x60000 s

/-! ### What stands in a jar -/

/-- A key and its value. -/
abbrev Cookie := UInt32 × UInt32

/-- The eight bytes of a cookie. -/
def pair (c : Cookie) : List UInt8 := bigEndian 4 c.1.toNat ++ bigEndian 4 c.2.toNat

/-- The bytes of a jar: the cookies, and the pair that holds the capacity. -/
def jarImage (cookies : List Cookie) (capacity : UInt32) : List UInt8 :=
  (cookies ++ [(0, capacity)]).flatMap pair

@[simp] theorem length_pair (c : Cookie) : (pair c).length = 8 := by
  simp [pair]

theorem jarImage_nil (capacity : UInt32) : jarImage [] capacity = pair (0, capacity) := by
  simp [jarImage]

theorem jarImage_cons (c : Cookie) (cookies : List Cookie) (capacity : UInt32) :
    jarImage (c :: cookies) capacity = pair c ++ jarImage cookies capacity := by
  simp [jarImage]

theorem jarImage_append (cookies cookies' : List Cookie) (capacity : UInt32) :
    jarImage (cookies ++ cookies') capacity =
      cookies.flatMap pair ++ jarImage cookies' capacity := by
  simp [jarImage]

theorem length_flatMap_pair (cookies : List Cookie) :
    (cookies.flatMap pair).length = 8 * cookies.length := by
  induction cookies with
  | nil => rfl
  | cons c cookies ih =>
    rw [List.flatMap_cons, List.length_append, length_pair, ih, List.length_cons]
    omega

@[simp] theorem length_jarImage (cookies : List Cookie) (capacity : UInt32) :
    (jarImage cookies capacity).length = 8 * (cookies.length + 1) := by
  rw [jarImage, length_flatMap_pair, List.length_append]
  rfl

section Reading

variable {m : Memory} {a capacity : UInt32} {cookies : List Cookie} {c : Cookie}

/-- The two longwords of a pair. -/
theorem read_pair (h : Shows m a.toNat (pair c)) (hfit : a.toNat + 8 ≤ 0x1000000) :
    readMemory32 a m = Except.ok c.1 ∧ readMemory32 (a + 4) m = Except.ok c.2 := by
  obtain ⟨hkey, hvalue⟩ := shows_append.mp h
  have hnext : (a + 4).toNat = a.toNat + 4 := @toNat_advance a 4 (by omega)
  rw [bigEndian_length, ← hnext] at hvalue
  exact ⟨readMemory32_shows hkey (by omega), readMemory32_shows hvalue (by omega)⟩

/-- The first cookie of a jar, and the jar behind it. -/
theorem shows_jar_cons (hfit : a.toNat + 8 ≤ 0x1000000) :
    Shows m a.toNat (jarImage (c :: cookies) capacity) ↔
      Shows m a.toNat (pair c) ∧ Shows m (a + 8).toNat (jarImage cookies capacity) := by
  have hnext : (a + 8).toNat = a.toNat + 8 := @toNat_advance a 8 hfit
  rw [jarImage_cons, shows_append, length_pair, hnext]

/-- Eight bytes further on. -/
theorem advance_eight (a : UInt32) (n : Nat) :
    a + 8 + UInt32.ofNat (8 * n) = a + UInt32.ofNat (8 * (n + 1)) := by
  have hsum : 8 * (n + 1) = 8 + 8 * n := by omega
  rw [hsum, ← advance_advance]
  rfl

theorem advance_one (a : UInt32) (n : Nat) :
    a + 1 + UInt32.ofNat n = a + UInt32.ofNat (n + 1) := by
  rw [Nat.add_comm n 1, ← advance_advance]
  rfl

/-- `WriteCookie` finds the cookie with the key, or the end of the jar. -/
theorem writeSearch_spec {key : UInt32} (cookies : List Cookie) :
    ∀ {a count : UInt32} (rounds : Nat), Shows m a.toNat (jarImage cookies capacity) →
      a.toNat + 8 * (cookies.length + 1) ≤ 0x1000000 → cookies.length < rounds →
      (∀ c ∈ cookies, c.1 ≠ 0) →
      ((∀ c ∈ cookies, c.1 ≠ key) ∧ writeSearch key rounds a count m = Except.ok
        ⟨false, a + UInt32.ofNat (8 * cookies.length),
          count + UInt32.ofNat (cookies.length + 1), capacity⟩) ∨
      ∃ pre v post, cookies = pre ++ (key, v) :: post ∧ (∀ c ∈ pre, c.1 ≠ key) ∧
        writeSearch key rounds a count m = Except.ok
          ⟨true, a + UInt32.ofNat (8 * pre.length), count + UInt32.ofNat (pre.length + 1), 0⟩ := by
  induction cookies with
  | nil =>
    intro a count rounds hjar hfit hrounds _
    obtain ⟨k, rfl⟩ : ∃ k, rounds = k + 1 := ⟨rounds - 1, by omega⟩
    rw [jarImage_nil] at hjar
    obtain ⟨hkey, hvalue⟩ := read_pair hjar hfit
    refine Or.inl ⟨by simp, ?_⟩
    simp [writeSearch, hkey, hvalue]
  | cons c cookies ih =>
    intro a count rounds hjar hfit hrounds hne
    obtain ⟨k, rfl⟩ : ∃ k, rounds = k + 1 := ⟨rounds - 1, by omega⟩
    rw [List.length_cons] at hfit hrounds
    obtain ⟨hpair, hrest⟩ := (shows_jar_cons (by omega)).mp hjar
    obtain ⟨hkey, -⟩ := read_pair hpair (by omega)
    have hzero : c.1 ≠ 0 := hne c (by simp)
    by_cases heq : c.1 = key
    · refine Or.inr ⟨[], c.2, cookies, by rw [← heq]; rfl, by simp, ?_⟩
      rw [writeSearch, hkey, Run.ok_bind]
      dsimp only
      rw [if_neg hzero, if_pos heq]
      simp
    · have hstep : writeSearch key (k + 1) a count m =
          writeSearch key k (a + 8) (count + 1) m := by
        rw [writeSearch, hkey, Run.ok_bind]
        dsimp only
        rw [if_neg hzero, if_neg heq]
      have hnext : (a + 8).toNat = a.toNat + 8 := @toNat_advance a 8 (by omega)
      rw [hstep]
      rcases @ih (a + 8) (count + 1) k hrest (by omega) (by omega)
        (fun d hd => hne d (by simp [hd])) with ⟨hnone, hsearch⟩ | ⟨pre, v, post, rfl, hpre, hsearch⟩
      · refine Or.inl ⟨List.forall_mem_cons.mpr ⟨heq, hnone⟩, ?_⟩
        rw [hsearch, advance_eight, advance_one, List.length_cons]
      · refine Or.inr ⟨c :: pre, v, post, rfl, List.forall_mem_cons.mpr ⟨heq, hpre⟩, ?_⟩
        rw [hsearch, advance_eight, advance_one, List.length_cons]

/-- `ReadCookie` searches like `WriteCookie`. -/
theorem readSearch_eq {key : UInt32} (rounds : Nat) :
    ∀ {a count : UInt32} {search : Search},
      writeSearch key rounds a count m = Except.ok search →
      readSearch key rounds a m =
        Except.ok (if search.found then some search.address else none) := by
  induction rounds with
  | zero =>
    intro a count search h
    cases h
  | succ rounds ih =>
    intro a count search h
    obtain ⟨current, hcurrent, h⟩ := Run.bind_eq_ok.mp h
    rw [readSearch, hcurrent, Run.ok_bind]
    dsimp only at h
    split at h
    · rename_i hzero
      obtain ⟨maxCount, -, h⟩ := Run.bind_eq_ok.mp h
      cases h
      rw [if_pos hzero]
      rfl
    · rename_i hzero
      rw [if_neg hzero]
      split at h
      · rename_i heq
        cases h
        rw [if_pos heq]
        rfl
      · rename_i hne
        rw [if_neg hne]
        exact ih h

end Reading

/-! ### Stores -/

section Stores

theorem store_ok {s : State} {a : UInt32} (value : UInt32) (hfit : a.toNat + 4 ≤ 0x1000000) :
    s.store a value = Except.ok { s with
      memory := write s.memory a.toNat (bigEndian 4 value.toNat), stores := a :: s.stores } := by
  rw [State.store, writeMemory32_ok value s.memory hfit]
  rfl

theorem State.store_stores {s s' : State} {a v : UInt32} (h : s.store a v = Except.ok s') :
    s'.stores = a :: s.stores := by
  obtain ⟨memory, -, h⟩ := Run.bind_eq_ok.mp h
  cases h
  rfl

/-- A key and a value, stored one after the other. -/
theorem store_pair {s : State} {a : UInt32} (key value : UInt32)
    (hfit : a.toNat + 8 ≤ 0x1000000) :
    (s.store a key >>= fun s => s.store (a + 4) value) = Except.ok { s with
      memory := write s.memory a.toNat (pair (key, value))
      stores := (a + 4) :: a :: s.stores } := by
  have hnext : (a + 4).toNat = a.toNat + (bigEndian 4 key.toNat).length := by
    rw [bigEndian_length]
    exact @toNat_advance a 4 (by omega)
  rw [store_ok key (by omega), Run.ok_bind, store_ok value (by rw [hnext, bigEndian_length]; omega),
    hnext, write_append]
  rfl

theorem store_pair_bind {s : State} {a : UInt32} (key value : UInt32)
    (hfit : a.toNat + 8 ≤ 0x1000000) {α : Type} (f : State → Run α) :
    (s.store a key >>= fun s => s.store (a + 4) value >>= f) = f { s with
      memory := write s.memory a.toNat (pair (key, value))
      stores := (a + 4) :: a :: s.stores } := by
  rw [← bind_assoc, store_pair key value hfit, Run.ok_bind]

/-- The addresses lie in the `n` bytes from `a` on. -/
def Within (a n : Nat) (stores : List UInt32) : Prop :=
  ∀ x ∈ stores, a ≤ x.toNat ∧ x.toNat + 4 ≤ a + n

theorem within_pair {a : UInt32} {n : Nat} (hfit : a.toNat + 8 ≤ 0x1000000) (hn : 8 ≤ n) :
    Within a.toNat n [a + 4, a] := by
  have hnext : (a + 4).toNat = a.toNat + 4 := @toNat_advance a 4 (by omega)
  intro x hx
  simp only [List.mem_cons, List.not_mem_nil, or_false] at hx
  rcases hx with rfl | rfl <;> omega

theorem Within.append {a n : Nat} {l l' : List UInt32} (h : Within a n l) (h' : Within a n l') :
    Within a n (l ++ l') := by
  intro x hx
  rcases List.mem_append.mp hx with hx | hx
  · exact h x hx
  · exact h' x hx

theorem Within.mono {a n b k : Nat} {l : List UInt32} (h : Within a n l) (hlo : b ≤ a)
    (hhi : a + n ≤ b + k) : Within b k l := by
  intro x hx
  have hbounds := h x hx
  omega

/-- `ResizeCookieJar` copies the cookies, and ends the new jar with the new size. -/
theorem copyCookies_spec {oldJar newJar newSize capacity : UInt32} (cookies : List Cookie) :
    ∀ {slot a b : UInt32} {s : State} (rounds : Nat),
      oldJar + slot * 8 = a → newJar + slot * 8 = b →
      Shows s.memory a.toNat (jarImage cookies capacity) →
      a.toNat + 8 * (cookies.length + 1) ≤ 0x1000000 →
      b.toNat + 8 * (cookies.length + 1) ≤ 0x1000000 →
      a.toNat + 8 * (cookies.length + 1) ≤ b.toNat ∨
        b.toNat + 8 * (cookies.length + 1) ≤ a.toNat →
      cookies.length < rounds → (∀ c ∈ cookies, c.1 ≠ 0) →
      ∃ stores, copyCookies oldJar newJar newSize rounds slot s = Except.ok { s with
          memory := write s.memory b.toNat (jarImage cookies newSize)
          stores := stores ++ s.stores } ∧
        Within b.toNat (8 * (cookies.length + 1)) stores := by
  induction cookies with
  | nil =>
    intro slot a b s rounds ha hb hjar hold hnew hapart hrounds _
    obtain ⟨k, rfl⟩ : ∃ k, rounds = k + 1 := ⟨rounds - 1, by omega⟩
    rw [jarImage_nil] at hjar
    rw [List.length_nil] at hold hnew
    obtain ⟨hkey, -⟩ := read_pair hjar (by omega)
    refine ⟨[b + 4, b], ?_, within_pair (by omega) (by simp)⟩
    rw [copyCookies, ha, hb, hkey, Run.ok_bind]
    have hpair := @store_pair s b 0 newSize (by omega)
    rw [jarImage_nil]
    exact hpair
  | cons c cookies ih =>
    intro slot a b s rounds ha hb hjar hold hnew hapart hrounds hne
    obtain ⟨k, rfl⟩ : ∃ k, rounds = k + 1 := ⟨rounds - 1, by omega⟩
    rw [List.length_cons] at hold hnew hapart hrounds
    obtain ⟨hpair, hrest⟩ := (shows_jar_cons (by omega)).mp hjar
    obtain ⟨hkey, -⟩ := read_pair hpair (by omega)
    have hstored := store_ok (s := s) c.1 (show b.toNat + 4 ≤ 0x1000000 by omega)
    -- the value is read behind the store of the key
    have hvalue : readMemory32 (a + 4)
        (write s.memory b.toNat (bigEndian 4 c.1.toNat)) = Except.ok c.2 := by
      refine (@read_pair _ a c ?_ (by omega)).2
      apply hpair.write
      rw [length_pair, bigEndian_length]
      omega
    have hboth := @store_pair s b c.1 c.2 (by omega)
    rw [hstored, Run.ok_bind] at hboth
    have hzero : c.1 ≠ 0 := hne c (by simp)
    have hnextOld : oldJar + (slot + 1) * 8 = a + 8 := by
      rw [← ha, UInt32.add_mul, ← UInt32.add_assoc]
      rfl
    have hnextNew : newJar + (slot + 1) * 8 = b + 8 := by
      rw [← hb, UInt32.add_mul, ← UInt32.add_assoc]
      rfl
    have ha8 : (a + 8).toNat = a.toNat + 8 := @toNat_advance a 8 (by omega)
    have hb8 : (b + 8).toNat = b.toNat + 8 := @toNat_advance b 8 (by omega)
    have hkept : Shows (write s.memory b.toNat (pair c)) (a + 8).toNat
        (jarImage cookies capacity) := by
      apply hrest.write
      rw [length_jarImage, length_pair]
      omega
    obtain ⟨stores, hcopy, hwithin⟩ := ih (s := ⟨write s.memory b.toNat (pair c), s.mem,
      (b + 4) :: b :: s.stores⟩) k hnextOld hnextNew hkept (by omega) (by omega) (by omega)
      (by omega) (fun d hd => hne d (by simp [hd]))
    refine ⟨stores ++ [b + 4, b], ?_, ?_⟩
    · rw [copyCookies, ha, hb, hkey, Run.ok_bind, hstored, Run.ok_bind]
      dsimp only
      rw [if_pos hzero, hvalue, Run.ok_bind, hboth, Run.ok_bind, hcopy]
      have hwrite : write (write s.memory b.toNat (pair c)) (b + 8).toNat
          (jarImage cookies newSize) = write s.memory b.toNat (jarImage (c :: cookies) newSize) := by
        rw [hb8, jarImage_cons, ← write_append, length_pair]
      rw [hwrite, List.append_assoc]
      rfl
    · apply Within.append
      · exact hwithin.mono (by omega) (by rw [List.length_cons]; omega)
      · exact within_pair (by omega) (by rw [List.length_cons]; omega)

end Stores

end ParaTos.CookieJar
