/-
  ParaTos/MemSearch.lean
  ======================
  **The next-fit search of `Malloc` looks at every free block once.**

  The loop of `Malloc` starts behind the rover, wraps around through the header at
  the end of the list, and ends at the rover.  `mallocScan` is that loop with a
  record of the nodes it looks at; `mallocScan_scan` says that the record is all it
  adds.  A search that gives up has looked at the blocks behind the rover, then at
  those in front of it, then at the rover's own, which is the free list rotated.

  With the sizes of a tiled arena, which are not negative, it follows what
  `Malloc` answers in every state that a well-behaved program can reach
  (`next_fit`).
-/
import ParaTos.MemTiling

namespace ParaTos.Mem

open LinkedList Words Tiling

/-! ### The loop with a record -/

/-- The loop of `Malloc`, and the nodes that its rounds look at. -/
def mallocScan (s : State) (size : Int32) :
    Nat → Ptr → Option Ptr → UInt32 → Run (Scan × List Ptr)
  | 0, _, _, _ => Except.error .diverges
  | rounds + 1, prev, current, max => do
    let (prev, current) ← wrapAround s.heap prev current
    let block ← load s.heap (some current)
    if size = -1 then
      let max := if max < block.val.size.toUInt32 then block.val.size.toUInt32 else max
      if some current = s.rover then return (.exhausted max, [current])
      let (scan, looked) ← mallocScan s size rounds current block.next max
      return (scan, current :: looked)
    else if size ≤ block.val.size then
      return (.found prev current, [current])
    else
      if some current = s.rover then return (.exhausted max, [current])
      let (scan, looked) ← mallocScan s size rounds current block.next max
      return (scan, current :: looked)

/-- The record changes nothing. -/
theorem mallocScan_scan (s : State) (size : Int32) :
    ∀ (rounds : Nat) (prev : Ptr) (current : Option Ptr) (max : UInt32),
      mallocLoop s size rounds prev current max =
        (mallocScan s size rounds prev current max >>= fun r => Except.ok r.1) := by
  intro rounds
  induction rounds with
  | zero =>
    intro prev current max
    rfl
  | succ rounds ih =>
    intro prev current max
    cases hwrap : wrapAround s.heap prev current with
    | error e => simp [mallocLoop, mallocScan, hwrap]
    | ok pc =>
      obtain ⟨prev', current'⟩ := pc
      cases hload : load s.heap (some current') with
      | error e => simp [mallocLoop, mallocScan, hwrap, hload]
      | ok block =>
        simp only [mallocLoop, mallocScan, hwrap, hload, Run.ok_bind, Run.pure_eq_ok]
        split
        · split
          · rfl
          · rw [ih]
            cases mallocScan s size rounds current' block.next _ <;> rfl
        · split
          · rfl
          · split
            · rfl
            · rw [ih]
              cases mallocScan s size rounds current' block.next _ <;> rfl

/-- What a search records that still has the blocks of `todo` in front of it: all of
    them when it gives up, and the first ones when it finds a block. -/
def Looks (todo : List Block) : Run (Scan × List Ptr) → Prop
  | .ok (.found _ _, looked) => looked <+: addrs todo
  | .ok (.exhausted _, looked) => looked = addrs todo
  | .error _ => False

/-- One more node in front of the record. -/
theorem Looks.cons {todo : List Block} {c : Block} {r : Run (Scan × List Ptr)}
    (h : Looks todo r) :
    Looks (c :: todo) (r >>= fun r => Except.ok (r.1, c.1 :: r.2)) := by
  cases r with
  | error e => exact h
  | ok r =>
    obtain ⟨scan, looked⟩ := r
    cases scan with
    | found prev current => exact List.cons_prefix_cons.mpr ⟨rfl, h⟩
    | exhausted max =>
      have hlooked : looked = addrs todo := h
      simp [Looks, hlooked]

/-- One round of the recorded loop at the block `c`. -/
theorem mallocScan_round {s : State} {size : Int32} {c : Block} {n : Option Ptr} {prev : Ptr}
    {max : UInt32} (rounds : Nat) (todo : List Block) (hn : s.heap c.1 = some ⟨n, c.2⟩)
    (hnext : some c.1 ≠ s.rover → ∀ m, Looks todo (mallocScan s size rounds c.1 n m))
    (hlast : some c.1 = s.rover → todo = []) :
    Looks (c :: todo) (mallocScan s size (rounds + 1) prev (some c.1) max) := by
  have hend : ∀ m, some c.1 = s.rover →
      Looks (c :: todo) (Except.ok (Scan.exhausted m, [c.1])) := by
    intro m hrover
    rw [hlast hrover]
    rfl
  have hmore : ∀ m, some c.1 ≠ s.rover → Looks (c :: todo)
      (mallocScan s size rounds c.1 n m >>= fun r => Except.ok (r.1, c.1 :: r.2)) :=
    fun m hrover => (hnext hrover m).cons
  simp only [mallocScan, wrapAround, Run.ok_bind, load_some hn, Run.pure_eq_ok]
  split
  · split
    · rename_i hrover
      exact hend _ hrover
    · rename_i hrover
      exact hmore _ hrover
  · split
    · simp [Looks]
    · split
      · rename_i hrover
        exact hend _ hrover
      · rename_i hrover
        exact hmore _ hrover

section Legs

variable {s : State} {free used front post : List Block} {q : Block}

/-- The last leg of the search: up to the rover's own block. -/
theorem mallocScan_to_rover (size : Int32) (hl : Links s ⟨free, used⟩)
    (hq : s.rover = some q.1) :
    ∀ (leg pre : List Block) (rounds : Nat) (prev : Ptr) (max : UInt32),
      free = pre ++ (leg ++ q :: post) → leg.length < rounds →
      Looks (leg ++ [q]) (mallocScan s size rounds prev (headPtr (leg ++ q :: post)) max) := by
  intro leg
  induction leg with
  | nil =>
    intro pre rounds prev max hfree hrounds
    obtain ⟨k, rfl⟩ : ∃ k, rounds = k + 1 := Nat.exists_eq_succ_of_ne_zero (Nat.ne_of_gt hrounds)
    rw [hfree] at hl
    apply mallocScan_round k [] (unlink_free hl).1
    · intro hne
      exact absurd hq.symm hne
    · intro _
      rfl
  | cons c leg ih =>
    intro pre rounds prev max hfree hrounds
    obtain ⟨k, rfl⟩ : ∃ k, rounds = k + 1 :=
      Nat.exists_eq_succ_of_ne_zero (Nat.ne_of_gt (Nat.zero_lt_of_lt hrounds))
    have hl' : Links s ⟨pre ++ c :: (leg ++ q :: post), used⟩ := by
      rw [hfree] at hl
      exact hl
    apply mallocScan_round k (leg ++ [q]) (unlink_free hl').1
    · intro _ m
      have hshape : free = (pre ++ [c]) ++ (leg ++ q :: post) := by simp [hfree]
      exact ih (pre ++ [c]) k c.1 m hshape (by simpa using hrounds)
    · intro hrover
      exact absurd hrover (hl'.ne_rover hq (by simp))

/-- The first leg of the search: to the end of the list, and around. -/
theorem mallocScan_to_end (size : Int32) (hl : Links s ⟨free, used⟩) (hq : s.rover = some q.1)
    (hsplit : free = front ++ q :: post) :
    ∀ (leg pre : List Block) (rounds : Nat) (prev : Ptr) (max : UInt32),
      free = pre ++ leg → q ∈ pre → leg.length + front.length < rounds →
      Looks (leg ++ (front ++ [q])) (mallocScan s size rounds prev (headPtr leg) max) := by
  intro leg
  induction leg with
  | nil =>
    intro pre rounds prev max hfree hmem hrounds
    rw [List.length_nil, Nat.zero_add] at hrounds
    obtain ⟨k, rfl⟩ : ∃ k, rounds = k + 1 :=
      Nat.exists_eq_succ_of_ne_zero (Nat.ne_of_gt (Nat.zero_lt_of_lt hrounds))
    have hround := @mallocScan_to_rover _ _ _ post _ size hl hq front [] (k + 1) .freeMem max
      hsplit hrounds
    have hhead : ∃ p, headPtr (front ++ q :: post) = some p := by
      cases front with
      | nil => exact ⟨_, rfl⟩
      | cons c front => exact ⟨_, rfl⟩
    obtain ⟨p, hp⟩ := hhead
    have hwrap : mallocScan s size (k + 1) prev none max =
        mallocScan s size (k + 1) .freeMem (headPtr (front ++ q :: post)) max := by
      have hheader := hl.freeMem.1
      rw [hsplit] at hheader
      simp [mallocScan, wrapAround, load_some hheader, hp]
    rw [headPtr_nil, hwrap, List.nil_append]
    exact hround
  | cons c leg ih =>
    intro pre rounds prev max hfree hmem hrounds
    obtain ⟨k, rfl⟩ : ∃ k, rounds = k + 1 :=
      Nat.exists_eq_succ_of_ne_zero (Nat.ne_of_gt (Nat.zero_lt_of_lt hrounds))
    have hl' : Links s ⟨pre ++ c :: leg, used⟩ := by
      rw [hfree] at hl
      exact hl
    apply mallocScan_round k (leg ++ (front ++ [q])) (unlink_free hl').1
    · intro _ m
      have hshape : free = (pre ++ [c]) ++ leg := by simp [hfree]
      have hlen : leg.length + front.length < k := by
        simp only [List.length_cons] at hrounds
        omega
      exact ih (pre ++ [c]) k c.1 m hshape (by simp [hmem]) hlen
    · intro hrover
      exact absurd hrover (hl'.ne_rover hq (List.mem_append_left _ hmem))

end Legs

/-! ### The search of one call -/

/-- The search of `Malloc(size)`, from the rover on; there is none when the free list
    is empty. -/
def search (size : Int32) (s : State) : Run (Option (Scan × List Ptr)) := do
  let size := if size = -1 then size else roundUp4 size
  let header ← load s.heap (some .freeMem)
  if header.next = none then return none
  let prev ← Run.ofOption .badPointer s.rover
  let start ← load s.heap (some prev)
  let r ← mallocScan s size (s.fresh + 2) prev start.next 0
  return some r

/-- `Malloc` is its search, and what it does with the block that the search found. -/
theorem malloc_search (size : Int32) (s : State) : malloc size s = (search size s >>= fun r =>
    match r with
    | none => Except.ok (0, s)
    | some (.found prev current, _) =>
      takeBlock s (if size = -1 then size else roundUp4 size) prev current
    | some (.exhausted max, _) => Except.ok (max, s)) := by
  cases hheader : load s.heap (some .freeMem) with
  | error e => simp [malloc, search, hheader]
  | ok header =>
    simp only [malloc, search, hheader, Run.ok_bind, Run.pure_eq_ok]
    split
    · rfl
    · cases hprev : Run.ofOption Fault.badPointer s.rover with
      | error e => simp
      | ok prev =>
        cases hstart : load s.heap (some prev) with
        | error e => simp [hstart]
        | ok start =>
          simp only [hstart, Run.ok_bind, mallocScan_scan]
          cases mallocScan s _ (s.fresh + 2) prev start.next 0 with
          | error e => rfl
          | ok r =>
            obtain ⟨scan, looked⟩ := r
            cases scan <;> rfl

/-- **The search ends**, looks at no node twice, and gives up only when it has looked
    at every free block. -/
theorem search_spec {s : State} {L : Lists} (hr : Rep s L) (size : Int32) :
    (L.free = [] ∧ search size s = Except.ok none) ∨
      ∃ scan looked, search size s = Except.ok (some (scan, looked)) ∧ looked.Nodup ∧
        looked ⊆ addrs L.free ∧ ∀ max, scan = .exhausted max → looked.Perm (addrs L.free) := by
  obtain ⟨free, used⟩ := L
  obtain ⟨hm, -⟩ := hr.links.freeMem
  by_cases hempty : free = []
  · subst hempty
    exact Or.inl ⟨rfl, by simp [search, load_some hm]⟩
  right
  have hvalid := hr.roverValid
  obtain ⟨p, hp⟩ : ∃ p, s.rover = some p :=
    Option.ne_none_iff_exists'.mp fun h => hempty (hvalid.null.mp h)
  obtain ⟨q, hq, rfl⟩ := List.mem_map.mp (hvalid.onFree p hp)
  obtain ⟨front, post, hsplit⟩ := List.append_of_mem hq
  simp only at hsplit
  have hl : Links s ⟨front ++ q :: post, used⟩ := by
    rw [← hsplit]
    exact hr.links
  have hhead : headPtr free ≠ none := mt headPtr_eq_none.mp hempty
  have hlen : post.length + front.length < s.fresh + 2 := by
    have hle := hl.length_le
    simp only [List.length_append, List.length_cons] at hle
    omega
  let n := if size = -1 then size else roundUp4 size
  have hlooks := mallocScan_to_end n hr.links hp hsplit post (front ++ [q]) (s.fresh + 2) q.1 0
    (by simp [hsplit]) (by simp) hlen
  -- the blocks in the order of the search are the free list rotated
  have hperm : (addrs (post ++ (front ++ [q]))).Perm (addrs free) := by
    rw [hsplit]
    apply List.Perm.map
    refine List.perm_append_comm.trans ?_
    simp
  have hnodup : (addrs free).Nodup := (List.nodup_cons.mp hr.links.nodup_free).2
  have hrun : search size s =
      (mallocScan s n (s.fresh + 2) q.1 (headPtr post) 0 >>= fun r => Except.ok (some r)) := by
    simp only [search, load_some hm, Run.ok_bind, if_neg hhead, hp, Run.ofOption_some,
      load_some (unlink_free hl).1]
    rfl
  cases hcase : mallocScan s n (s.fresh + 2) q.1 (headPtr post) 0 with
  | error e =>
    rw [hcase] at hlooks
    exact hlooks.elim
  | ok r =>
    obtain ⟨scan, looked⟩ := r
    rw [hcase] at hlooks hrun
    refine ⟨scan, looked, hrun, ?_⟩
    cases scan with
    | found prev current =>
      have hsub : looked.Sublist (addrs (post ++ (front ++ [q]))) := List.IsPrefix.sublist hlooks
      refine ⟨(hperm.nodup_iff.mpr hnodup).sublist hsub, ?_, fun _ h => by cases h⟩
      exact fun p hp => hperm.subset (hsub.subset hp)
    | exhausted max =>
      have hlooked : looked = addrs (post ++ (front ++ [q])) := hlooks
      rw [hlooked]
      exact ⟨hperm.nodup_iff.mpr hnodup, hperm.subset, fun _ _ => hperm⟩

/-! ### What the search answers -/

/-- `n` rounded up to a multiple of four. -/
def ceil4 (n : Int) : Int := (n + 3) / 4 * 4

theorem roundUp4_eq_ceil4 {n : Int32} (h : n.toInt ≤ 2 ^ 31 - 4) :
    (roundUp4 n).toInt = ceil4 n.toInt := by
  rw [roundUp4_toInt h, ceil4]
  omega

/-- What next fit promises in a state with these lists. -/
structure NextFit (s : State) (L : Lists) : Prop where
  /-- the search ends, looks at no block twice, and gives up only after the last one -/
  covers : ∀ size, (L.free = [] ∧ search size s = Except.ok none) ∨
    ∃ scan looked, search size s = Except.ok (some (scan, looked)) ∧ looked.Nodup ∧
      looked ⊆ addrs L.free ∧ ∀ max, scan = .exhausted max → looked.Perm (addrs L.free)
  /-- `Malloc(-1)` is the size of the largest free block, 0 when there is none, and can
      be had unless it is 0 -/
  largest : ∃ r : UInt32, malloc (-1) s = Except.ok (r, s) ∧ (L.free = [] → r = 0) ∧
    (L.free ≠ [] → ∃ c ∈ L.free, c.2.size.toInt = r.toNat) ∧
    (∀ c ∈ L.free, c.2.size.toInt ≤ r.toNat) ∧
    (r ≠ 0 → ∃ a s', malloc r.toInt32 s = Except.ok (a, s') ∧ a ≠ 0)
  /-- `Malloc` fails exactly when no free block is as large as the rounded size -/
  fails : ∀ n : Int32, 0 < n.toInt → ∃ a s', malloc n s = Except.ok (a, s') ∧
    (a = 0 ↔ ∀ c ∈ L.free, ¬ roundUp4 n ≤ c.2.size)
  rounded : ∀ n : Int32, n.toInt ≤ 2 ^ 31 - 4 → (roundUp4 n).toInt = ceil4 n.toInt

section Answers

variable {s : State} {L : Lists}

/-- In a tiled arena `Malloc` returns 0 only for want of a block. -/
theorem Tiled.malloc_fails (ht : Tiled (L.free ++ L.used)) (hr : Rep s L) {n : Int32}
    (hn : n ≠ -1) : ∃ a s', malloc n s = Except.ok (a, s') ∧
      (a = 0 ↔ ∀ c ∈ L.free, ¬ roundUp4 n ≤ c.2.size) := by
  obtain ⟨a, s', L', hrun, hst, -, -⟩ := malloc_spec hr n
  refine ⟨a, s', hrun, ?_⟩
  have hstart : ∀ c ∈ L.free, c.2.start ≠ 0 := by
    intro c hc h
    have hin := (ht.inside (List.mem_append_left _ hc)).start
    rw [h] at hin
    exact absurd hin (by decide)
  cases hst with
  | largest hr => exact absurd rfl hn
  | outOfMemory hsize hnone => exact ⟨fun _ => hnone, fun _ => rfl⟩
  | @exactFit pre post used c _ hsize hfit =>
    constructor
    · intro h
      exact absurd h (hstart c (by simp))
    · intro h
      exact absurd (Int32.le_of_eq hfit.symm) (h c (by simp))
  | @split pre post used c _ p hsize hfit hne =>
    constructor
    · intro h
      exact absurd h (hstart c (by simp))
    · intro h
      exact absurd hfit (h c (by simp))

theorem Tiled.malloc_largest (ht : Tiled (L.free ++ L.used)) (hr : Rep s L) :
    ∃ r : UInt32, malloc (-1) s = Except.ok (r, s) ∧ (L.free = [] → r = 0) ∧
      (L.free ≠ [] → ∃ c ∈ L.free, c.2.size.toInt = r.toNat) ∧
      ∀ c ∈ L.free, c.2.size.toInt ≤ r.toNat := by
  obtain ⟨r, s', L', hrun, hst, hr', hsame⟩ := malloc_spec hr (-1)
  have hlargest : IsLargest r L.free ∧ L' = L := by
    cases hst with
    | largest hl => exact ⟨hl, rfl⟩
    | outOfMemory hsize hnone => exact absurd rfl hsize
    | exactFit hsize hfit => exact absurd rfl hsize
    | split p hsize hfit hne => exact absurd rfl hsize
  obtain ⟨hl, hL⟩ := hlargest
  rw [hsame hL] at hrun
  -- the sizes are not negative, so the unsigned comparison of the loop is right
  have hsigned : ∀ c ∈ L.free, (c.2.size.toUInt32.toNat : Int) = c.2.size.toInt := fun c hc =>
    toNat_toUInt32_of_nonneg (ht.inside (List.mem_append_left _ hc)).size
  have hle : ∀ c ∈ L.free, c.2.size.toInt ≤ r.toNat := by
    intro c hc
    rw [← hsigned c hc]
    exact Int.ofNat_le.mpr (UInt32.le_iff_toNat_le.mp (hl.le c hc))
  refine ⟨r, hrun, ?_, ?_, hle⟩
  · intro hempty
    rcases hl.attained with h | ⟨c, hc, -⟩
    · exact h
    · rw [hempty] at hc
      cases hc
  · intro hne
    rcases hl.attained with h | ⟨c, hc, h⟩
    · obtain ⟨c, hc⟩ := List.exists_mem_of_ne_nil _ hne
      have hc0 := hle c hc
      have hsize := (ht.inside (List.mem_append_left _ hc)).size
      rw [h] at hc0 ⊢
      exact ⟨c, hc, Int.le_antisymm hc0 hsize⟩
    · refine ⟨c, hc, ?_⟩
      rw [h, hsigned c hc]

theorem Tiled.nextFit (ht : Tiled (L.free ++ L.used)) (hr : Rep s L) : NextFit s L where
  covers := search_spec hr
  largest := by
    obtain ⟨r, hrun, hempty, hatt, hle⟩ := ht.malloc_largest hr
    refine ⟨r, hrun, hempty, hatt, hle, ?_⟩
    intro hne
    have hfree : L.free ≠ [] := fun h => hne (hempty h)
    obtain ⟨c, hc, hsize⟩ := hatt hfree
    -- the size of a block is a multiple of four already
    have hin := ht.inside (List.mem_append_left _ hc)
    have hfour := (ht.aligned c (List.mem_append_left _ hc)).2
    have hr32 : r.toInt32 = c.2.size := by
      have hword := toNat_toUInt32_of_nonneg hin.size
      have hr : r = c.2.size.toUInt32 := UInt32.toNat_inj.mp (by omega)
      rw [hr]
      rfl
    have hround : roundUp4 c.2.size = c.2.size := by
      apply Int32.toInt_inj.mp
      have hstart := hin.start
      have hfits := hin.fits
      rw [roundUp4_eq_ceil4 (by omega), ceil4]
      omega
    have hpos : c.2.size ≠ -1 := by
      intro h
      have hsize := hin.size
      rw [h] at hsize
      exact absurd hsize (by decide)
    obtain ⟨a, s', hrun', hiff⟩ := ht.malloc_fails hr hpos
    rw [hr32]
    refine ⟨a, s', hrun', ?_⟩
    intro ha
    exact hiff.mp ha c hc (by rw [hround]; exact Int32.le_refl _)
  fails := by
    intro n hn
    apply ht.malloc_fails hr
    rintro rfl
    exact absurd hn (by decide)
  rounded := fun n => roundUp4_eq_ceil4

end Answers

end ParaTos.Mem
