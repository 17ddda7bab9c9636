/-
  ParaTos/PexecWrites.lean
  ========================
  **Where `prepare_args` writes.**

  The functions on the block do what those of `Pexec.lean` do on the array: a block
  that spells the slots and the characters before a step spells what the step makes
  of them.  No store leaves the block, since none faults, and no store mixes
  pointers and characters, since the block always spells both.

  The two calls of `parse_cmdline` follow one run of `CommandLine.parseLoop`: the
  first counts what it finds, the second has exactly the room for it.
-/
import ParaTos.PexecBlock
import ParaTos.PexecEnv

namespace ParaTos.PexecBlock

open Bytes Memory CString CommandLine Pexec WordBlock

/-! ### Slots as words -/

/-- A slot as the bytes of the block have it. -/
def slotWord : Slot → Option Word
  | .junk => none
  | .null => some none
  | .ptr p => some (some p)

def words (slots : List Slot) : List (Option Word) := slots.map slotWord

theorem length_words (slots : List Slot) : (words slots).length = slots.length := List.length_map ..

section Array

variable {b : Heap} {slots slots' : List Slot} {text : List UInt8} {room : Nat}

theorem setSlot_eq_ok {i : Nat} {v : Slot} :
    setSlot slots i v = Except.ok slots' ↔ i < slots.length ∧ slots.set i v = slots' := by
  rw [setSlot]
  split
  · rename_i hlt
    simp [hlt]
  · rename_i hge
    simp [hge]

/-- A store to a slot. -/
theorem store_slot (h : Spells b (words slots) text room) {i : Nat} {v : Slot} {w : Word}
    (hv : slotWord v = some w) (hset : setSlot slots i v = Except.ok slots') :
    ∃ b', b.store (.word (wordSize * i) w) = Except.ok b' ∧
      Spells b' (words slots') text room ∧ b'.stores = b.stores ++ [.word (wordSize * i) w] ∧
      slots'.length = slots.length := by
  obtain ⟨hlt, rfl⟩ := setSlot_eq_ok.mp hset
  obtain ⟨b', hstore, hspells, hstores⟩ := h.store_word (by rwa [length_words]) w
  refine ⟨b', hstore, ?_, hstores, List.length_set⟩
  rw [words, List.map_set, hv]
  exact hspells

/-- A slot that is read. -/
theorem load_slot (h : Spells b (words slots) text room) {i : Nat} {v : Slot}
    (hv : slots[i]? = some v) : b.load (wordSize * i) = Except.ok (slotWord v) := by
  apply h.load
  rw [words, List.getElem?_map, hv]
  rfl

theorem slot_lt (h : Spells b (words slots) text room) {i : Nat} {v : Slot}
    (hv : slots[i]? = some v) : wordSize * i < b.size := by
  have hlt := (List.getElem?_eq_some_iff.mp hv).1
  rw [h.size, length_words]
  simp only [wordSize]
  omega

/-- The slot at the front of what is left of the array, and what is behind it. -/
theorem drop_eq_cons {i : Nat} {v : Slot} {rest : List Slot} (h : slots.drop i = v :: rest) :
    slots[i]? = some v ∧ slots.drop (i + 1) = rest := by
  constructor
  · rw [← Nat.add_zero i, ← List.getElem?_drop, h]
    rfl
  · rw [← List.drop_drop, h]
    rfl

/-! ### read_env -/

theorem fillLoop_spells {m : Memory} {src n i current j : Nat}
    (hfill : Pexec.fillLoop m src n i current j slots = Except.ok slots')
    (h : Spells b (words slots) text room) :
    ∃ b', fillLoop m src n i current j b = Except.ok b' ∧ Spells b' (words slots') text room ∧
      slots'.length = slots.length := by
  fun_induction Pexec.fillLoop m src n i current j slots generalizing b with
  | case1 i current j slots hlt ihzero ihchar =>
    obtain ⟨c, hc, hrest⟩ := Run.bind_eq_ok.mp hfill
    rw [fillLoop, if_pos hlt, hc, Run.ok_bind]
    by_cases hzero : c = 0
    · rw [if_pos hzero] at hrest ⊢
      obtain ⟨slots₁, hset, hrest⟩ := Run.bind_eq_ok.mp hrest
      obtain ⟨b₁, hstore, hspells, -, hlen⟩ := store_slot h rfl hset
      rw [hstore, Run.ok_bind, ← hlen]
      exact ihzero slots₁ hrest hspells
    · rw [if_neg hzero] at hrest ⊢
      exact ihchar hrest h
  | case2 i current j slots hge =>
    cases hfill
    rw [fillLoop, if_neg hge]
    exact ⟨b, rfl, h, rfl⟩

theorem readEnv_spells {m : Memory} {env : UInt32} {n : Nat}
    (hread : Pexec.readEnv env m = Except.ok (slots, n)) :
    ∃ b, readEnv env m = Except.ok (b, n) ∧ Spells b (words slots) [] 0 ∧
      slots.length = n + 2 := by
  obtain ⟨⟨srcChars, arrayCount⟩, hcount, hread⟩ := Run.bind_eq_ok.mp hread
  obtain ⟨slots₁, hfill, hread⟩ := Run.bind_eq_ok.mp hread
  obtain ⟨slots₂, hset, hread⟩ := Run.bind_eq_ok.mp hread
  cases hread
  have hmalloc : Spells (HostBlock.malloc (wordSize * (n + 2)) : Heap)
      (words (List.replicate (n + 2) .junk)) [] 0 := by
    rw [words, List.map_replicate]
    exact Spells.malloc (n + 2)
  obtain ⟨b₁, hfill', hspells₁, hlen₁⟩ := fillLoop_spells hfill hmalloc
  obtain ⟨b₂, hstore, hspells₂, -, hlen₂⟩ := store_slot hspells₁ rfl hset
  refine ⟨b₂, ?_, hspells₂, ?_⟩
  · simp only [readEnv, hcount, Run.ok_bind, hfill', hstore]
    rfl
  · rw [hlen₂, hlen₁, List.length_replicate]

/-- The array in a block that `realloc` made larger. -/
theorem realloc_spells (h : Spells b (words slots) [] 0) {n : Nat} (hn : slots.length ≤ n)
    (room : Nat) :
    Spells (b.realloc (n * wordSize + room))
      (words (slots ++ List.replicate (n - slots.length) .junk)) [] room := by
  have hgrown := h.realloc (n - slots.length) room
  rw [length_words, Nat.add_sub_cancel' hn, Nat.mul_comm] at hgrown
  rw [words, List.map_append, List.map_replicate]
  exact hgrown

/-! ### The vectors -/

/-- The search for `ARGV` finds in the block what it finds in the array. -/
theorem findArgv_spells {host : Host} {m : Memory} (h : Spells b (words slots) text room)
    {rest : List Slot} {i : Nat} (hdrop : slots.drop i = rest) {r : Option Nat}
    (hfind : Pexec.findArgv host m rest i = Except.ok r) :
    findArgv host m b i = Except.ok r ∧ ∀ k, r = some k → k < slots.length := by
  induction rest generalizing i with
  | nil => cases hfind
  | cons v rest ih =>
    obtain ⟨hv, hnext⟩ := drop_eq_cons hdrop
    rw [findArgv, if_pos (slot_lt h hv), load_slot h hv, Run.ok_bind]
    cases v with
    | junk => cases hfind
    | null =>
      cases hfind
      exact ⟨rfl, fun _ hk => by cases hk⟩
    | ptr p =>
      obtain ⟨s, hs, hfind⟩ := Run.bind_eq_ok.mp hfind
      simp only [slotWord, hs, Run.ok_bind]
      split at hfind
      · cases hfind
        refine ⟨if_pos ‹_›, ?_⟩
        intro k hk
        cases hk
        exact (List.getElem?_eq_some_iff.mp hv).1
      · rw [if_neg ‹_›]
        exact ih hnext hfind

/-- A vector of the array is one of the block. -/
theorem vector_spells (h : Spells b (words slots) text room) {rest : List Slot} {i : Nat}
    (hdrop : slots.drop i = rest) {ps : List CharPtr}
    (hvector : Pexec.vector rest = Except.ok ps) : vector b (wordSize * i) = Except.ok ps := by
  induction rest generalizing i ps with
  | nil => cases hvector
  | cons v rest ih =>
    obtain ⟨hv, hnext⟩ := drop_eq_cons hdrop
    rw [vector, if_pos (slot_lt h hv), load_slot h hv, Run.ok_bind]
    cases v with
    | junk => cases hvector
    | null =>
      cases hvector
      rfl
    | ptr p =>
      obtain ⟨ps', hrest, hps⟩ := Run.bind_eq_ok.mp hvector
      cases hps
      have htail := ih hnext hrest
      rw [Nat.mul_succ] at htail
      simp only [slotWord, htail, Run.ok_bind]
      rfl

/-! ### The shift -/

/-- The stores of the loop that shifts `argv`: pointers, and `NULL` at the end. -/
def EndsNull (stores : List (Store Word)) : Prop :=
  ∃ init o, stores = init ++ [.word o none] ∧ ∀ s ∈ init, ∃ o p, s = .word o (some p)

theorem shiftLoop_spells (base : Nat) {rest rest' : List Slot} {prev : Slot} {i rounds : Nat}
    (h : Spells b (words slots) text room) (hdrop : slots.drop (base + i) = rest)
    (hshift : Pexec.shiftLoop prev rest = Except.ok rest') (hrounds : rest.length ≤ rounds) :
    ∃ b' stores, shiftLoop (wordSize * base) rounds i (slotWord prev) b = Except.ok b' ∧
      Spells b' (words (slots.take (base + i) ++ rest')) text room ∧
      b'.stores = b.stores ++ stores ∧ EndsNull stores := by
  induction rest generalizing b slots prev i rounds rest' with
  | nil => cases prev <;> cases hshift
  | cons next rest ih =>
    obtain ⟨rounds, rfl⟩ :=
      Nat.exists_eq_add_of_le' (Nat.le_trans (Nat.succ_le_succ (Nat.zero_le _)) hrounds)
    obtain ⟨hnext, hafter⟩ := drop_eq_cons hdrop
    have hlt := (List.getElem?_eq_some_iff.mp hnext).1
    have hoffset : wordSize * base + wordSize * i = wordSize * (base + i) := (Nat.mul_add _ _ _).symm
    have hset : ∀ v, setSlot slots (base + i) v = Except.ok (slots.set (base + i) v) :=
      fun v => setSlot_eq_ok.mpr ⟨hlt, rfl⟩
    rw [shiftLoop, hoffset, load_slot h hnext, Run.ok_bind]
    cases prev with
    | junk => cases hshift
    | null =>
      cases hshift
      obtain ⟨b₁, hstore, hspells, hstores, -⟩ := store_slot h rfl (hset .null)
      simp only [slotWord, Run.ofOption_some, Run.ok_bind, hstore, if_true]
      refine ⟨b₁, _, rfl, ?_, hstores, [], _, rfl, fun s hs => by cases hs⟩
      rw [List.set_eq_take_append_cons_drop, if_pos hlt, ← List.drop_drop, hdrop] at hspells
      exact hspells
    | ptr p =>
      obtain ⟨rest₁, hrest, hcons⟩ := Run.bind_eq_ok.mp hshift
      cases hcons
      obtain ⟨b₁, hstore, hspells, hstores, -⟩ := store_slot h rfl (hset (.ptr p))
      have htail : (slots.set (base + i) (.ptr p)).drop (base + (i + 1)) = rest := by
        rw [← Nat.add_assoc, List.drop_set_of_lt (Nat.lt_succ_self _)]
        exact hafter
      obtain ⟨b', stores, hrun, hspells', hstores', init, o, rfl, hinit⟩ :=
        ih hspells htail hrest (Nat.le_of_succ_le_succ hrounds)
      simp only [slotWord, Run.ofOption_some, Run.ok_bind, hstore, reduceCtorEq, if_false]
      refine ⟨b', _ :: _, hrun, ?_, ?_, .word (wordSize * (base + i)) (some p) :: init, o, rfl, ?_⟩
      · have htake : (slots.set (base + i) (.ptr p)).take (base + (i + 1)) =
            slots.take (base + i) ++ [.ptr p] := by
          rw [← Nat.add_assoc, List.take_add_one, List.take_set_of_le (Nat.le_refl _),
            List.getElem?_set_self hlt]
          rfl
        rw [htake, List.append_assoc] at hspells'
        exact hspells'
      · rw [hstores', hstores, List.append_assoc]
        rfl
      · intro s hs
        rcases List.mem_cons.mp hs with rfl | hs
        · exact ⟨_, p, rfl⟩
        · exact hinit s hs

end Array

/-! ### The two calls of parse_cmdline -/

/-- What the loop has found at one point, and what it has found later. -/
structure Within (p q : Parsed) : Prop where
  starts : p.starts <+: q.starts
  bytes : p.bytes <+: q.bytes

theorem Within.refl (p : Parsed) : Within p p := ⟨List.prefix_refl _, List.prefix_refl _⟩

theorem Within.trans {p q r : Parsed} (h : Within p q) (h' : Within q r) : Within p r :=
  ⟨h.starts.trans h'.starts, h.bytes.trans h'.bytes⟩

theorem within_start (p : Parsed) : Within p p.start :=
  ⟨List.prefix_append _ _, List.prefix_refl _⟩

theorem within_put (p : Parsed) (c : UInt8) : Within p (p.put c) :=
  ⟨List.prefix_refl _, List.prefix_append _ _⟩

section Loop

variable {m : Memory} {cmd length : Nat}

theorem parseLoop_within {i : Nat} {state : State} {p q : Parsed}
    (h : parseLoop m cmd length i state p = Except.ok q) : Within p q := by
  induction i, state, p using parseLoop.induct length with
  | case2 i state p hge =>
    rw [parseLoop, if_neg hge] at h
    cases h
    exact Within.refl _
  | case1 i state p hlt ih =>
    rw [parseLoop, if_pos hlt] at h
    obtain ⟨c, -, h⟩ := Run.bind_eq_ok.mp h
    have ihc := ih c
    split at h
    · cases h
      exact Within.refl _
    cases state with
    | bl =>
      dsimp only at h ihc
      split at h
      · exact ihc.1 h
      · exact (within_start p).trans (ihc.2 h)
    | char =>
      dsimp only at h ihc
      split at h
      · exact (within_put p 0).trans (ihc.1 h)
      · split at h
        · exact ihc.2.1 h
        · split at h
          · exact ihc.2.2.1 h
          · exact (within_put p c).trans (ihc.2.2.2 h)
    | quoted mark =>
      dsimp only at h ihc
      split at h
      · obtain ⟨next, -, h⟩ := Run.bind_eq_ok.mp h
        split at h
        · exact ihc.1 h
        · exact (within_put p mark.mark).trans (ihc.2.1 h)
      · exact ihc.2.2 h

/-- A relation that the two kinds of writes keep, up to what is found in the end. -/
structure Follows (chars : Nat) (q : Parsed) (R : Pass → Parsed → Prop) : Prop where
  start : ∀ {s p}, R s p → Within p.start q → ∃ s', s.start = Except.ok s' ∧ R s' p.start
  put : ∀ {s p} c, R s p → Within (p.put c) q →
    ∃ s', s.put chars c = Except.ok s' ∧ R s' (p.put c)

/-- A call of `parse_cmdline` finds what `parseLoop` finds. -/
theorem Follows.passLoop {chars : Nat} {q : Parsed} {R : Pass → Parsed → Prop}
    (hR : Follows chars q R) {i : Nat} {state : State} {s : Pass} {p p' : Parsed}
    (h : parseLoop m cmd length i state p = Except.ok p') (hq : Within p' q) (hs : R s p) :
    ∃ s', passLoop m chars cmd length i state s = Except.ok s' ∧ R s' p' := by
  induction i, state, p using parseLoop.induct length generalizing s with
  | case2 i state p hge =>
    rw [parseLoop, if_neg hge] at h
    cases h
    rw [PexecBlock.passLoop, if_neg hge]
    exact ⟨s, rfl, hs⟩
  | case1 i state p hlt ih =>
    rw [parseLoop, if_pos hlt] at h
    obtain ⟨c, hc, h⟩ := Run.bind_eq_ok.mp h
    have ihc := ih c
    rw [PexecBlock.passLoop, if_pos hlt, hc, Run.ok_bind]
    by_cases hnul : c = 0
    · rw [if_pos hnul] at h ⊢
      cases h
      exact ⟨s, rfl, hs⟩
    rw [if_neg hnul] at h ⊢
    cases state with
    | bl =>
      dsimp only at h ihc ⊢
      split at h
      · rw [if_pos ‹_›]
        exact ihc.1 h hs
      · obtain ⟨s₁, hstart, hs₁⟩ := hR.start hs ((parseLoop_within h).trans hq)
        rw [if_neg ‹_›, hstart, Run.ok_bind]
        exact ihc.2 h hs₁
    | char =>
      dsimp only at h ihc ⊢
      split at h
      · obtain ⟨s₁, hput, hs₁⟩ := hR.put 0 hs ((parseLoop_within h).trans hq)
        rw [if_pos ‹_›, hput, Run.ok_bind]
        exact ihc.1 h hs₁
      · rw [if_neg ‹_›]
        split at h
        · rw [if_pos ‹_›]
          exact ihc.2.1 h hs
        · rw [if_neg ‹_›]
          split at h
          · rw [if_pos ‹_›]
            exact ihc.2.2.1 h hs
          · obtain ⟨s₁, hput, hs₁⟩ := hR.put c hs ((parseLoop_within h).trans hq)
            rw [if_neg ‹_›, hput, Run.ok_bind]
            exact ihc.2.2.2 h hs₁
    | quoted mark =>
      dsimp only at h ihc ⊢
      split at h
      · rw [if_pos ‹_›]
        obtain ⟨next, hnext, h⟩ := Run.bind_eq_ok.mp h
        rw [hnext, Run.ok_bind]
        split at h
        · rw [if_pos ‹_›]
          exact ihc.1 h hs
        · obtain ⟨s₁, hput, hs₁⟩ := hR.put mark.mark hs ((parseLoop_within h).trans hq)
          rw [if_neg ‹_›, hput, Run.ok_bind]
          exact ihc.2.1 h hs₁
      · rw [if_neg ‹_›]
        exact ihc.2.2 h hs

end Loop

/-- A call of `parse_cmdline`, up to the terminating null pointer. -/
theorem Follows.parseCmdline {chars : Nat} {q : Parsed} {R : Pass → Parsed → Prop}
    (hR : Follows chars q R) {m : Memory} {cmdline : UInt32} {s : Pass}
    (hparse : CommandLine.parseCmdline cmdline m = Except.ok q) (hs : R s ⟨[], []⟩) :
    ∃ s', R s' q ∧ parseCmdline chars cmdline m s = s'.close := by
  obtain ⟨length, hlength, hparse⟩ := Run.bind_eq_ok.mp hparse
  obtain ⟨p, hloop, hq⟩ := Run.bind_eq_ok.mp hparse
  cases hq
  obtain ⟨s₁, hloop', hs₁⟩ := hR.passLoop hloop (within_put p 0) hs
  obtain ⟨s₂, hput, hs₂⟩ := hR.put 0 hs₁ (Within.refl _)
  refine ⟨s₂, hs₂, ?_⟩
  rw [PexecBlock.parseCmdline, hlength, Run.ok_bind, hloop', Run.ok_bind, hput, Run.ok_bind]

/-! ### The call that counts -/

/-- The variables of the first call. -/
def counting (b : Heap) (p : Parsed) : Pass :=
  ⟨b, none, none, some (1 + p.starts.length), p.bytes.length⟩

theorem counting_follows (b : Heap) (chars : Nat) (q : Parsed) :
    Follows chars q (fun s p => s = counting b p) where
  start := by
    rintro s p rfl -
    refine ⟨_, rfl, ?_⟩
    simp only [counting, Pass.count, Option.map_some, Parsed.start, List.length_append,
      List.length_singleton, Nat.add_assoc]
  put := by
    rintro s p c rfl -
    refine ⟨_, rfl, ?_⟩
    simp only [counting, Parsed.put, List.length_append, List.length_singleton]

/-- The first call writes nothing, and counts what there is. -/
theorem parseCmdline_counts {m : Memory} {cmdline : UInt32} {q : Parsed} (b : Heap)
    (hparse : CommandLine.parseCmdline cmdline m = Except.ok q) :
    parseCmdline 0 cmdline m (counting b ⟨[], []⟩) = Except.ok (counting b q) := by
  obtain ⟨s, rfl, hclose⟩ := (counting_follows b 0 q).parseCmdline hparse rfl
  rw [hclose]
  rfl

/-! ### The call that writes -/

theorem setSlots_append_eq (slots vs ws : List Slot) (i : Nat) :
    setSlots slots i (vs ++ ws) =
      (setSlots slots i vs >>= fun slots => setSlots slots (i + vs.length) ws) := by
  induction vs generalizing slots i with
  | nil => rfl
  | cons v vs ih =>
    rw [List.cons_append, setSlots, setSlots]
    cases setSlot slots i v with
    | error e => rfl
    | ok slots' =>
      rw [Run.ok_bind, Run.ok_bind, ih, List.length_cons, Nat.add_assoc, Nat.add_comm 1]

theorem length_setSlots {slots slots' vs : List Slot} {i : Nat}
    (h : setSlots slots i vs = Except.ok slots') : slots'.length = slots.length := by
  induction vs generalizing slots i with
  | nil =>
    cases h
    rfl
  | cons v vs ih =>
    obtain ⟨slots₁, hset, hrest⟩ := Run.bind_eq_ok.mp h
    obtain ⟨-, rfl⟩ := setSlot_eq_ok.mp hset
    rw [ih hrest, List.length_set]

/-- The slots of the arguments. -/
def argSlots (starts : List Nat) : List Slot := starts.map fun o => .ptr (.bytes o)

/-- The words of the arguments. -/
def argWords (starts : List Nat) : List Word := starts.map fun o => some (.bytes o)

/-- What the second call has done when it has found `p`: it started at the slot `first` of
    the array, and with the stores `before`. -/
structure Fills (array : List Slot) (first : Nat) (before : List (Store Word)) (room : Nat)
    (s : Pass) (p : Parsed) : Prop where
  argv : s.argv = some (wordSize * (first + p.starts.length))
  buffer : s.buffer = some p.bytes.length
  block : ∃ slots, setSlots array first (argSlots p.starts) = Except.ok slots ∧
    Spells s.block (words slots) p.bytes room
  stores : ∃ stores, s.block.stores = before ++ stores ∧
    stores.filterMap Store.word? =
      (argWords p.starts).mapIdx (fun i w => (wordSize * (first + i), w)) ∧
    stores.filterMap Store.char? =
      p.bytes.mapIdx (fun i c => (wordSize * array.length + i, c))

section Fills

variable {array slots : List Slot} {first : Nat} {before : List (Store Word)} {q : Parsed}

theorem Fills.start {room : Nat} {s : Pass} {p : Parsed} (h : Fills array first before room s p)
    (hroom : setSlots array first (argSlots q.starts ++ [.null]) = Except.ok slots)
    (hq : Within p.start q) :
    ∃ s', s.start = Except.ok s' ∧ Fills array first before room s' p.start := by
  obtain ⟨later, hlater⟩ := hq.starts
  obtain ⟨slots₀, hslots₀, hspells⟩ := h.block
  obtain ⟨stores, hstores, hwords, hchars⟩ := h.stores
  have hsplit : argSlots q.starts ++ [.null] = argSlots p.starts ++
      (.ptr (.bytes p.bytes.length) :: (argSlots later ++ [.null])) := by
    rw [← hlater]
    simp [argSlots, Parsed.start]
  rw [hsplit, setSlots_append_eq, hslots₀, Run.ok_bind] at hroom
  obtain ⟨slots₁, hset, -⟩ := Run.bind_eq_ok.mp hroom
  have hlen : (argSlots p.starts).length = p.starts.length := List.length_map ..
  rw [hlen] at hset
  obtain ⟨b₁, hstore, hspells₁, hstores₁, -⟩ := store_slot hspells rfl hset
  refine ⟨Pass.count { s with
    block := b₁
    argv := some (wordSize * (first + p.starts.length) + wordSize) }, ?_, ⟨?_, ?_, ?_, ?_⟩⟩
  · rw [Pass.start, h.argv, h.buffer]
    simp only [hstore, Run.ok_bind]
    rfl
  · simp only [Pass.count, Parsed.start, List.length_append, List.length_singleton]
    rfl
  · exact h.buffer
  · refine ⟨slots₁, ?_, hspells₁⟩
    have hstart : argSlots p.start.starts = argSlots p.starts ++ [.ptr (.bytes p.bytes.length)] :=
      List.map_append
    rw [hstart, setSlots_append_eq, hslots₀, Run.ok_bind, hlen, setSlots, hset]
    rfl
  · refine ⟨stores ++ [.word (wordSize * (first + p.starts.length))
      (some (.bytes p.bytes.length))], ?_, ?_, ?_⟩
    · rw [← List.append_assoc, ← hstores]
      exact hstores₁
    · have hstart : argWords p.start.starts =
          argWords p.starts ++ [some (.bytes p.bytes.length)] := List.map_append
      have hlen' : (argWords p.starts).length = p.starts.length := List.length_map ..
      rw [List.filterMap_append, hwords, hstart, List.mapIdx_concat, hlen']
      rfl
    · rw [List.filterMap_append, hchars]
      exact List.append_nil _

theorem Fills.put {s : Pass} {p : Parsed} {room : Nat} (h : Fills array first before room s p)
    {c : UInt8} (hroom : q.bytes.length ≤ room) (hq : Within (p.put c) q) :
    ∃ s', s.put (wordSize * array.length) c = Except.ok s' ∧
      Fills array first before room s' (p.put c) := by
  obtain ⟨slots₀, hslots₀, hspells⟩ := h.block
  obtain ⟨stores, hstores, hwords, hchars⟩ := h.stores
  have hlt : p.bytes.length < room := by
    have hle := hq.bytes.length_le
    simp only [Parsed.put, List.length_append, List.length_singleton] at hle
    exact Nat.lt_of_lt_of_le hle hroom
  have hlen : (words slots₀).length = array.length := by
    rw [length_words, length_setSlots hslots₀]
  obtain ⟨b₁, hstore, hspells₁, hstores₁⟩ := hspells.store_char hlt c
  rw [hlen] at hstore hstores₁
  refine ⟨{ s with
    block := b₁
    buffer := some (p.bytes.length + 1)
    byteCount := s.byteCount + 1 }, ?_, ⟨h.argv, ?_, ?_, ?_⟩⟩
  · rw [Pass.put, h.buffer]
    simp only [hstore, Run.ok_bind]
    rfl
  · have hlen' : (p.put c).bytes.length = p.bytes.length + 1 := List.length_append
    exact congrArg some hlen'.symm
  · exact ⟨slots₀, hslots₀, hspells₁⟩
  · refine ⟨stores ++ [.char (wordSize * array.length + p.bytes.length) c], ?_, ?_, ?_⟩
    · rw [← List.append_assoc, ← hstores]
      exact hstores₁
    · rw [List.filterMap_append, hwords]
      exact List.append_nil _
    · rw [List.filterMap_append, hchars, Parsed.put, List.mapIdx_concat]
      rfl

theorem fills_follows
    (hroom : setSlots array first (argSlots q.starts ++ [.null]) = Except.ok slots) :
    Follows (wordSize * array.length) q (Fills array first before q.bytes.length) where
  start h hq := h.start hroom hq
  put _ h hq := h.put (Nat.le_refl _) hq

/-- The second call writes a pointer for each argument and `NULL`, and behind the array the
    characters, as many as the first one counted. -/
theorem parseCmdline_fills {m : Memory} {cmdline : UInt32} {b : Heap}
    (hparse : CommandLine.parseCmdline cmdline m = Except.ok q)
    (hspells : Spells b (words array) [] q.bytes.length)
    (hset : setSlots array first (argSlots q.starts ++ [.null]) = Except.ok slots) :
    ∃ s stores, parseCmdline (wordSize * array.length) cmdline m
        ⟨b, some (wordSize * first), some 0, none, 0⟩ = Except.ok s ∧
      Spells s.block (words slots) q.bytes q.bytes.length ∧
      s.block.stores = b.stores ++ stores ∧
      stores.filterMap Store.word? =
        (argWords q.starts ++ [none]).mapIdx (fun i w => (wordSize * (first + i), w)) ∧
      stores.filterMap Store.char? =
        q.bytes.mapIdx (fun i c => (wordSize * array.length + i, c)) := by
  have hinit : Fills array first b.stores q.bytes.length
      ⟨b, some (wordSize * first), some 0, none, 0⟩ ⟨[], []⟩ :=
    ⟨rfl, rfl, ⟨array, rfl, hspells⟩, [], (List.append_nil _).symm, rfl, rfl⟩
  obtain ⟨s, hfills, hclose⟩ := (fills_follows hset).parseCmdline hparse hinit
  obtain ⟨slots₀, hslots₀, hspells₀⟩ := hfills.block
  obtain ⟨stores, hstores, hwords, hchars⟩ := hfills.stores
  rw [setSlots_append_eq, hslots₀, Run.ok_bind] at hset
  obtain ⟨slots₁, hnull, hset⟩ := Run.bind_eq_ok.mp hset
  cases hset
  have hlen : (argSlots q.starts).length = q.starts.length := List.length_map ..
  rw [hlen] at hnull
  obtain ⟨b₁, hstore, hspells₁, hstores₁, -⟩ := store_slot hspells₀ rfl hnull
  refine ⟨{ s with
    block := b₁
    argv := some (wordSize * (first + q.starts.length) + wordSize) },
    stores ++ [.word (wordSize * (first + q.starts.length)) none], ?_, hspells₁, ?_, ?_, ?_⟩
  · rw [hclose, Pass.close, hfills.argv]
    simp only [hstore, Run.ok_bind]
    rfl
  · rw [← List.append_assoc, ← hstores]
    exact hstores₁
  · have hlen' : (argWords q.starts).length = q.starts.length := List.length_map ..
    rw [List.filterMap_append, hwords, List.mapIdx_concat, hlen']
    rfl
  · rw [List.filterMap_append, hchars]
    exact List.append_nil _

end Fills

end ParaTos.PexecBlock
