/-
  ParaTos/PexecEnv.lean
  =====================
  **What `execve` gets from an environment block.**

  A block is a list of strings, none of them empty, with a NUL behind the last one's
  NUL.  For a block in mapped memory `prepare_args` always returns.  If the length byte
  is 127 and the block has an `ARGV` string, the environment is what stands in front of
  it and the arguments are what stands behind it.  Otherwise the environment is the
  whole block, `ARGV` and the arguments behind it included.
-/
import ParaTos.Pexec
import Mathlib.Data.List.TakeWhile

namespace ParaTos.Pexec

open Bytes Memory CString CommandLine

/-- An environment block at an offset. -/
structure Block (m : Memory) (a : Nat) (ss : List (List UInt8)) : Prop where
  nonempty : ∀ s ∈ ss, s ≠ []
  strings : ∀ s ∈ ss, 0 ∉ s
  shows : Shows m a (pack ss ++ [0])
  mapped : ∀ i ≤ (pack ss).length, Mapped (a + i)

section Strings

variable {m : Memory}

/-- A string in mapped memory. -/
structure StringShows (m : Memory) (a : Nat) (s : List UInt8) : Prop where
  string : 0 ∉ s
  shows : Shows m a (s ++ [0])
  mapped : ∀ i ≤ s.length, Mapped (a + i)

theorem StringShows.nil {a : Nat} (h : StringShows m a []) : Mapped a ∧ m a = 0 :=
  ⟨h.mapped 0 (Nat.zero_le _), (shows_cons.mp h.shows).1⟩

theorem StringShows.cons {a : Nat} {c : UInt8} {s : List UInt8}
    (h : StringShows m a (c :: s)) :
    Mapped a ∧ m a = c ∧ c ≠ 0 ∧ StringShows m (a + 1) s := by
  have hzero := h.string
  rw [List.mem_cons, not_or] at hzero
  obtain ⟨hc, hs⟩ := shows_cons.mp h.shows
  refine ⟨h.mapped 0 (Nat.zero_le _), hc, fun h0 => hzero.1 h0.symm, hzero.2, hs, ?_⟩
  intro i hi
  rw [Nat.add_assoc, Nat.add_comm 1]
  exact h.mapped (i + 1) (by rw [List.length_cons]; omega)

theorem stringAt_shows {a : Nat} {s : List UInt8} (h : StringShows m a s) :
    stringAt m a = Except.ok s := by
  induction s generalizing a with
  | nil =>
    obtain ⟨hmap, hnul⟩ := h.nil
    rw [stringAt, if_pos hmap, if_pos hnul]
  | cons c s ih =>
    obtain ⟨hmap, hchar, hc, hs⟩ := h.cons
    rw [stringAt, if_pos hmap, hchar, if_neg hc, ih hs]
    rfl

/-- The first string of a block, and the block behind it. -/
theorem Block.cons {a : Nat} {s : List UInt8} {ss : List (List UInt8)}
    (h : Block m a (s :: ss)) : StringShows m a s ∧ Block m (a + (s.length + 1)) ss := by
  have hlen : (s ++ [0]).length = s.length + 1 := List.length_append
  have hshows := h.shows
  rw [pack_cons, List.append_assoc, shows_append, hlen] at hshows
  have hmap := h.mapped
  rw [pack_cons, List.length_append, hlen] at hmap
  constructor
  · exact ⟨h.strings s (by simp), hshows.1, fun i hi => hmap i (by omega)⟩
  · constructor
    · exact fun t ht => h.nonempty t (by simp [ht])
    · exact fun t ht => h.strings t (by simp [ht])
    · exact hshows.2
    · intro i hi
      rw [Nat.add_assoc]
      exact hmap _ (by omega)

theorem Block.append {a : Nat} {ss ss' : List (List UInt8)} (h : Block m a (ss ++ ss')) :
    Block m (a + (pack ss).length) ss' := by
  induction ss generalizing a with
  | nil => exact h
  | cons s ss ih =>
    have hrest := ih h.cons.2
    rwa [length_pack_cons, ← Nat.add_assoc]

theorem Block.nil {a : Nat} (h : Block m a []) : Mapped a ∧ m a = 0 :=
  ⟨h.mapped 0 (Nat.zero_le _), (shows_cons.mp h.shows).1⟩

end Strings

/-! ### read_env -/

section ReadEnv

variable {m : Memory} {src : Nat}

theorem countLoop_string {s : List UInt8} {k z n : Nat} (h : StringShows m (src + k) s)
    (hz : s ≠ [] ∨ z ≠ 0) :
    countLoop m src k z n = countLoop m src (k + (s.length + 1)) 0 (n + 1) := by
  induction s generalizing k z with
  | nil =>
    obtain ⟨hmap, hnul⟩ := h.nil
    have hz' : z ≠ 0 := hz.resolve_left (fun hne => hne rfl)
    rw [countLoop, if_pos hmap, if_pos hnul, if_neg hz']
    rfl
  | cons c s ih =>
    obtain ⟨hmap, hchar, hc, hs⟩ := h.cons
    rw [countLoop, if_pos hmap, hchar, if_neg hc, ih hs (Or.inr (by omega)), List.length_cons]
    congr 1
    omega

theorem countLoop_block {ss : List (List UInt8)} {k n : Nat} (h : Block m (src + k) ss) :
    countLoop m src k 0 n = Except.ok (k + (pack ss).length + 1, n + ss.length) := by
  induction ss generalizing k n with
  | nil =>
    obtain ⟨hmap, hnul⟩ := h.nil
    rw [countLoop, if_pos hmap, if_pos hnul, if_pos rfl]
    rfl
  | cons s ss ih =>
    obtain ⟨hs, hss⟩ := h.cons
    rw [Nat.add_assoc] at hss
    rw [countLoop_string hs (Or.inl (h.nonempty s (by simp))), ih hss, pack_cons]
    simp only [List.length_append, List.length_cons, List.length_nil]
    congr 2
    · omega
    · omega

theorem setSlot_append (done rest : List Slot) (v w : Slot) :
    setSlot (done ++ v :: rest) done.length w = Except.ok (done ++ w :: rest) := by
  rw [setSlot, if_pos (by simp)]
  simp

theorem fillLoop_string {s : List UInt8} {n i current : Nat} {done rest : List Slot} {v : Slot}
    (h : StringShows m (src + i) s) (hi : i + s.length < n) :
    fillLoop m src n i current done.length (done ++ v :: rest) =
      fillLoop m src n (i + (s.length + 1)) (src + i + (s.length + 1)) (done.length + 1)
        (done ++ .ptr (.guest current) :: rest) := by
  induction s generalizing i with
  | nil =>
    obtain ⟨hmap, hnul⟩ := h.nil
    rw [fillLoop, if_pos (by omega), peek_ok hmap, Run.ok_bind, if_pos hnul, setSlot_append,
      Run.ok_bind]
    rfl
  | cons c s ih =>
    rw [List.length_cons] at hi
    obtain ⟨hmap, hchar, hc, hs⟩ := h.cons
    rw [fillLoop, if_pos (by omega), peek_ok hmap, Run.ok_bind, hchar, if_neg hc,
      ih hs (by omega), List.length_cons]
    congr 1 <;> omega

/-- The pointers to the strings of a block. -/
def starts (a : Nat) (ss : List (List UInt8)) : List CharPtr := (offsets a ss).map .guest

def ptrs (ps : List CharPtr) : List Slot := ps.map .ptr

theorem starts_cons (a : Nat) (s : List UInt8) (ss : List (List UInt8)) :
    starts a (s :: ss) = .guest a :: starts (a + (s.length + 1)) ss := rfl

theorem starts_append (a : Nat) (ss ss' : List (List UInt8)) :
    starts a (ss ++ ss') = starts a ss ++ starts (a + (pack ss).length) ss' := by
  rw [starts, offsets_append, List.map_append]
  rfl

theorem length_starts (a : Nat) (ss : List (List UInt8)) : (starts a ss).length = ss.length := by
  induction ss generalizing a with
  | nil => rfl
  | cons s ss ih => rw [starts_cons, List.length_cons, ih, List.length_cons]

theorem fillLoop_block {ss : List (List UInt8)} {i n : Nat} {done rest : List Slot}
    (h : Block m (src + i) ss) (hn : n = i + (pack ss).length + 1) (v : Slot) :
    fillLoop m src n i (src + i) done.length
        (done ++ (List.replicate ss.length .junk ++ v :: rest)) =
      Except.ok (done ++ (ptrs (starts (src + i) ss) ++
        .ptr (.guest (src + i + (pack ss).length)) :: rest)) := by
  induction ss generalizing i done with
  | nil =>
    obtain ⟨hmap, hnul⟩ := h.nil
    subst hn
    have hfill := @setSlot_append done rest v (.ptr (.guest (src + i)))
    rw [fillLoop, if_pos (by omega), peek_ok hmap, Run.ok_bind, if_pos hnul]
    simp only [List.length_nil, List.replicate_zero, List.nil_append, hfill, Run.ok_bind]
    rw [fillLoop, if_neg (by simp)]
    rfl
  | cons s ss ih =>
    obtain ⟨hs, hss⟩ := h.cons
    have hlen := length_pack_cons s ss
    rw [Nat.add_assoc] at hss
    have hnext := @ih (i + (s.length + 1)) (done ++ [.ptr (.guest (src + i))]) hss (by omega)
    simp only [List.length_append, List.length_singleton, List.append_assoc,
      List.singleton_append] at hnext
    rw [List.length_cons, List.replicate_succ, List.cons_append, fillLoop_string hs (by omega),
      Nat.add_assoc src i, hnext, starts_cons, hlen]
    simp only [ptrs, List.map_cons, List.cons_append, Nat.add_assoc]

/-- `read_env` makes an array of pointers to the strings of a block. -/
theorem readEnv_block {env : UInt32} {ss : List (List UInt8)} (h : Block m env.toNat ss) :
    readEnv env m = Except.ok (ptrs (starts env.toNat ss) ++ [.null, .junk], ss.length) := by
  have hcount := @countLoop_block m env.toNat ss 0 0 h
  rw [Nat.zero_add, Nat.zero_add] at hcount
  have hjunk : List.replicate (ss.length + 2) Slot.junk =
      List.replicate ss.length .junk ++ [.junk, .junk] :=
    List.replicate_add _ _ _
  have hfill := @fillLoop_block m env.toNat ss 0 ((pack ss).length + 1) [] [.junk] h
    (by omega) .junk
  have hend := @setSlot_append (ptrs (starts env.toNat ss)) [.junk]
    (.ptr (.guest (env.toNat + (pack ss).length))) .null
  have hlen : (ptrs (starts env.toNat ss)).length = ss.length := by
    rw [ptrs, List.length_map, length_starts]
  rw [hlen] at hend
  simp only [Nat.add_zero, List.length_nil, List.nil_append] at hfill
  simp only [readEnv, hcount, Run.ok_bind, hjunk, hfill, hend]
  rfl

end ReadEnv

/-! ### The pointer array -/

section Array

variable {host : Host} {m : Memory}

/-- The pointers to the first strings of a block lead to the strings. -/
theorem mapM_starts_before (bytes : List UInt8) {a : Nat} {before after : List (List UInt8)}
    (h : Block m a (before ++ after)) :
    (starts a before).mapM (deref host bytes m) = Except.ok before := by
  induction before generalizing a with
  | nil => rfl
  | cons s before ih =>
    obtain ⟨hs, hss⟩ := h.cons
    rw [starts_cons, List.mapM_cons, deref, stringAt_shows hs, Run.ok_bind, ih hss]
    rfl

theorem mapM_starts (bytes : List UInt8) {a : Nat} {ss : List (List UInt8)} (h : Block m a ss) :
    (starts a ss).mapM (deref host bytes m) = Except.ok ss := by
  rw [← List.append_nil ss] at h
  exact mapM_starts_before bytes h

theorem findArgv_none {a : Nat} {ss : List (List UInt8)} (h : Block m a ss)
    (hargv : ∀ s ∈ ss, isArgv s = false) (slots : List Slot) (i : Nat) :
    findArgv host m (ptrs (starts a ss) ++ .null :: slots) i = Except.ok none := by
  induction ss generalizing a i with
  | nil => rfl
  | cons s ss ih =>
    obtain ⟨hs, hss⟩ := h.cons
    have hno := hargv s (by simp)
    have hrest := ih hss (fun t ht => hargv t (by simp [ht])) (i + 1)
    simp only [starts_cons, ptrs, List.map_cons, List.cons_append, findArgv, deref,
      stringAt_shows hs, Run.ok_bind, hno]
    exact hrest

theorem findArgv_some {a : Nat} {before after : List (List UInt8)} {entry : List UInt8}
    (h : Block m a (before ++ entry :: after)) (hbefore : ∀ s ∈ before, isArgv s = false)
    (hentry : isArgv entry = true) (slots : List Slot) (i : Nat) :
    findArgv host m (ptrs (starts a (before ++ entry :: after)) ++ slots) i =
      Except.ok (some (i + before.length)) := by
  induction before generalizing a i with
  | nil =>
    obtain ⟨hs, -⟩ := h.cons
    simp only [List.nil_append, starts_cons, ptrs, List.map_cons, List.cons_append, findArgv,
      deref, stringAt_shows hs, Run.ok_bind, hentry]
    rfl
  | cons s before ih =>
    obtain ⟨hs, hss⟩ := h.cons
    have hno := hbefore s (by simp)
    have hrest := ih hss (fun t ht => hbefore t (by simp [ht])) (i + 1)
    rw [Nat.add_assoc, Nat.add_comm 1] at hrest
    simp only [starts_cons, ptrs, List.map_cons, List.cons_append, findArgv, deref,
      stringAt_shows hs, Run.ok_bind, hno]
    exact hrest

theorem vector_ptrs (ps : List CharPtr) (slots : List Slot) :
    vector (ptrs ps ++ .null :: slots) = Except.ok ps := by
  induction ps with
  | nil => rfl
  | cons p ps ih =>
    have hcons : vector (ptrs (p :: ps) ++ .null :: slots) = do
        let ps ← vector (ptrs ps ++ .null :: slots)
        return p :: ps := rfl
    rw [hcons, ih]
    rfl

/-- The array that `prepare_args` leaves: the pointers of `envp`, behind them those of
    `argv`, and the slots that are left over. -/
structure Holds (a : Args) (envp argv : List CharPtr) (spare : List Slot) : Prop where
  slots : a.slots = ptrs envp ++ .null :: (ptrs argv ++ .null :: spare)
  argv : a.argv = envp.length + 1

theorem length_ptrs (ps : List CharPtr) : (ptrs ps).length = ps.length := List.length_map ..

theorem shiftLoop_ptrs (ps : List CharPtr) (spare : Slot) (rest : List Slot) {prev : Slot}
    {slots : List Slot} (h : ptrs ps ++ .null :: spare :: rest = prev :: slots) :
    shiftLoop prev slots = Except.ok (ptrs ps ++ .null :: rest) := by
  induction ps generalizing prev slots with
  | nil =>
    cases h
    rfl
  | cons p ps ih =>
    obtain ⟨rfl, rfl⟩ := List.cons.inj h
    cases hnext : ptrs ps ++ .null :: spare :: rest with
    | nil =>
      rw [List.append_eq_nil_iff] at hnext
      cases hnext.2
    | cons next slots =>
      have hcons : List.map Slot.ptr ps ++ .null :: spare :: rest = next :: slots := hnext
      have hshift : shiftLoop (.ptr p) (next :: slots) = do
          let slots ← shiftLoop next slots
          return .ptr p :: slots := rfl
      rw [List.append_eq, hcons, hshift, ih hnext]
      rfl

section Holds

variable {a : Args} {envp argv : List CharPtr} {spare : List Slot}

theorem Holds.drop (h : Holds a envp argv spare) :
    a.slots.drop a.argv = ptrs argv ++ .null :: spare := by
  rw [h.slots, h.argv, ← length_ptrs, ← List.drop_drop, List.drop_left]
  rfl

/-- Both vectors end in a null pointer. -/
theorem Holds.vectors (h : Holds a envp argv spare) :
    vector a.slots = Except.ok envp ∧ vector (a.slots.drop a.argv) = Except.ok argv := by
  rw [h.drop, h.slots]
  exact ⟨vector_ptrs _ _, vector_ptrs _ _⟩

theorem Holds.envStrings (h : Holds a envp argv spare) :
    a.envStrings host m = envp.mapM (deref host a.bytes m) := by
  rw [Args.envStrings, h.vectors.1, Run.ok_bind]

theorem Holds.argStrings (h : Holds a envp argv spare) :
    a.argStrings host m = argv.mapM (deref host a.bytes m) := by
  rw [Args.argStrings, h.vectors.2, Run.ok_bind]

/-- With a slot to spare ParaTos fits in front. -/
theorem Holds.prepend {v : Slot} (h : Holds a envp argv (v :: spare)) :
    ∃ a', prependParatos a = Except.ok a' ∧ Holds a' envp (.paratosExe :: argv) spare ∧
      a'.bytes = a.bytes := by
  have hdrop := h.drop
  cases hslots : ptrs argv ++ .null :: v :: spare with
  | nil =>
    rw [List.append_eq_nil_iff] at hslots
    cases hslots.2
  | cons prev slots =>
    have hshift := shiftLoop_ptrs argv v spare hslots
    have htake : a.slots.take a.argv = ptrs envp ++ [.null] := by
      rw [h.slots, List.append_cons]
      apply List.take_left'
      rw [h.argv, List.length_append, length_ptrs, List.length_singleton]
    have hprev : getSlot a.slots a.argv = Except.ok prev := by
      rw [getSlot, ← Nat.add_zero a.argv, ← List.getElem?_drop, hdrop, hslots]
      rfl
    have hnext : a.slots.drop (a.argv + 1) = slots := by
      rw [← List.drop_drop, hdrop, hslots]
      rfl
    refine ⟨{ a with
      slots := ptrs envp ++ [.null] ++ .ptr .paratosExe :: (ptrs argv ++ .null :: spare)
      path := .paratosExe }, ?_, ⟨?_, h.argv⟩, rfl⟩
    · rw [prependParatos, hprev, Run.ok_bind, hnext, hshift, htake]
      rfl
    · simp [ptrs]

/-- The arguments with ParaTos in front if the program needs it. -/
def launched (host : Host) (argv : List CharPtr) : List CharPtr :=
  if host.magic = some 0x601a then .paratosExe :: argv else argv

theorem Holds.launch {v : Slot} (h : Holds a envp argv (v :: spare)) :
    ∃ a' spare', (if host.magic = some 0x601a then prependParatos a else Except.ok a) =
        Except.ok a' ∧
      Holds a' envp (launched host argv) spare' ∧ a'.bytes = a.bytes := by
  unfold launched
  split
  · obtain ⟨a', ha', hholds, hbytes⟩ := h.prepend
    exact ⟨a', spare, ha', hholds, hbytes⟩
  · exact ⟨a, v :: spare, rfl, h, rfl⟩

end Holds

end Array

/-! ### prepare_args -/

section PrepareArgs

variable {host : Host} {m : Memory} {cmdline env : UInt32}

/-- The `ARGV` procedure: the arguments are the strings behind `ARGV`. -/
theorem argvFromEnv_found {before after : List (List UInt8)} {entry : List UInt8}
    (hblock : Block m env.toNat (before ++ entry :: after))
    (hbefore : ∀ s ∈ before, isArgv s = false) (hentry : isArgv entry = true)
    (hmap : Mapped cmdline.toNat) (hlength : m cmdline.toNat = 127) :
    ∃ a p, argvFromEnv host cmdline
        (ptrs (starts env.toNat (before ++ entry :: after)) ++ [.null, .junk]) m =
        Except.ok (some a) ∧
      Holds a (starts env.toNat before) (starts p after) [.junk] ∧ Block m p after := by
  have hread : readMemory8 cmdline m = Except.ok 127 := by
    rw [← hlength]
    exact peek_ok hmap m
  have hfind := @findArgv_some host m _ _ _ _ hblock hbefore hentry [.null, .junk] 0
  rw [Nat.zero_add] at hfind
  have hafter := (hblock.append).cons.2
  have hsplit := starts_append env.toNat before (entry :: after)
  rw [starts_cons] at hsplit
  generalize env.toNat + (pack before).length + (entry.length + 1) = p at hafter hsplit
  have hset := @setSlot_append (ptrs (starts env.toNat before))
    (ptrs (starts p after) ++ [.null, .junk])
    (.ptr (.guest (env.toNat + (pack before).length))) .null
  rw [length_ptrs, length_starts] at hset
  have hslots : ptrs (starts env.toNat (before ++ entry :: after)) ++ [.null, .junk] =
      ptrs (starts env.toNat before) ++
        .ptr (.guest (env.toNat + (pack before).length)) ::
          (ptrs (starts p after) ++ [.null, .junk]) := by
    rw [hsplit]
    simp [ptrs]
  rw [hslots] at hfind ⊢
  refine ⟨⟨ptrs (starts env.toNat before) ++ .null :: (ptrs (starts p after) ++ [.null, .junk]),
    [], before.length + 1, .path⟩, p, ?_, ⟨rfl, ?_⟩, hafter⟩
  · simp only [argvFromEnv, hread, Run.ok_bind, if_true, hfind, hset]
    rfl
  · rw [length_starts]

theorem argvFromEnv_none {ss : List (List UInt8)} (hblock : Block m env.toNat ss)
    (hmap : Mapped cmdline.toNat)
    (h : m cmdline.toNat ≠ 127 ∨ ∀ s ∈ ss, isArgv s = false) :
    argvFromEnv host cmdline (ptrs (starts env.toNat ss) ++ [.null, .junk]) m =
      Except.ok none := by
  have hread : readMemory8 cmdline m = Except.ok (m cmdline.toNat) := peek_ok hmap m
  rw [argvFromEnv, hread, Run.ok_bind]
  split
  · rename_i hlength
    have hargv := h.resolve_left (fun hne => hne hlength)
    have hfind := @findArgv_none host m _ _ hblock hargv [.junk] 0
    simp only [hfind, Run.ok_bind]
    rfl
  · rfl

theorem setSlots_append (done : List Slot) (rest : List Slot) {old new : List Slot}
    (h : old.length = new.length) :
    setSlots (done ++ (old ++ rest)) done.length new = Except.ok (done ++ (new ++ rest)) := by
  induction new generalizing done old with
  | nil =>
    obtain rfl := List.length_eq_zero_iff.mp h
    rfl
  | cons w new ih =>
    cases old with
    | nil => simp at h
    | cons v old =>
      have hnext := ih (done ++ [w]) (Nat.succ_inj.mp h)
      simp only [List.length_append, List.length_singleton, List.append_assoc,
        List.singleton_append] at hnext
      rw [List.cons_append, setSlots, setSlot_append, Run.ok_bind, hnext]
      rfl

/-- The old-style command line: the arguments are what `parse_cmdline` finds. -/
theorem argvFromTail_holds (ps : List CharPtr) {p : Parsed}
    (hparse : parseCmdline cmdline m = Except.ok p) :
    ∃ a, argvFromTail cmdline (ptrs ps ++ [.null, .junk]) ps.length m = Except.ok a ∧
      Holds a ps (.path :: p.starts.map .bytes) [.junk] ∧ a.bytes = p.bytes := by
  have hroom : ps.length + (1 + p.starts.length) + 3 -
      (ptrs ps ++ [Slot.null, Slot.junk]).length = (p.starts.length + 1) + 1 := by
    simp only [List.length_append, length_ptrs, List.length_cons, List.length_nil]
    omega
  have hslots : ptrs ps ++ [Slot.null, Slot.junk] ++
      List.replicate (p.starts.length + 1 + 1) Slot.junk =
      (ptrs ps ++ [Slot.null]) ++
        Slot.junk :: (List.replicate (p.starts.length + 1) Slot.junk ++ [Slot.junk]) := by
    rw [← List.replicate_succ']
    simp
  have hfirst := setSlot_append (ptrs ps ++ [Slot.null])
    (List.replicate (p.starts.length + 1) Slot.junk ++ [Slot.junk]) .junk (.ptr .path)
  have hlen : (List.replicate (p.starts.length + 1) Slot.junk).length =
      (p.starts.map (fun o => Slot.ptr (.bytes o)) ++ [Slot.null]).length := by
    simp
  have hrest := setSlots_append (ptrs ps ++ [Slot.null] ++ [.ptr .path]) [Slot.junk] hlen
  simp only [List.length_append, length_ptrs, List.length_singleton] at hfirst hrest
  refine ⟨⟨ptrs ps ++ [Slot.null] ++ [.ptr .path] ++
    (p.starts.map (fun o => Slot.ptr (.bytes o)) ++ [Slot.null] ++ [Slot.junk]), p.bytes,
    ps.length + 1, .path⟩, ?_, ⟨?_, rfl⟩, rfl⟩
  · rw [← List.append_cons] at hrest
    simp only [argvFromTail, hparse, Run.ok_bind, hroom, hslots, hfirst, hrest]
    rfl
  · simp [ptrs]

/-- The strings of `argv`, with ParaTos in front if the program needs it. -/
def launchedStrings (host : Host) (argv : List (List UInt8)) : List (List UInt8) :=
  if host.magic = some 0x601a then host.paratosExe :: argv else argv

theorem mapM_launched {bytes : List UInt8} {ps : List CharPtr} {argv : List (List UInt8)}
    (h : ps.mapM (deref host bytes m) = Except.ok argv) :
    (launched host ps).mapM (deref host bytes m) = Except.ok (launchedStrings host argv) := by
  unfold launched launchedStrings
  split
  · rw [List.mapM_cons, deref, Run.ok_bind, h]
    rfl
  · exact h

/-- With the length byte 127 and an `ARGV` string the block is taken apart there. -/
theorem prepareArgs_found_holds {before after : List (List UInt8)} {entry : List UInt8}
    (hblock : Block m env.toNat (before ++ entry :: after))
    (hbefore : ∀ s ∈ before, isArgv s = false) (hentry : isArgv entry = true)
    (hmap : Mapped cmdline.toNat) (hlength : m cmdline.toNat = 127) :
    ∃ a p spare, prepareArgs host cmdline env m = Except.ok a ∧
      Holds a (starts env.toNat before) (launched host (starts p after)) spare ∧
      Block m p after := by
  obtain ⟨a, p, hfound, hholds, hafter⟩ :=
    @argvFromEnv_found host m _ _ _ _ _ hblock hbefore hentry hmap hlength
  obtain ⟨a', spare, hlaunch, hholds', -⟩ := @Holds.launch host _ _ _ _ _ hholds
  refine ⟨a', p, spare, ?_, hholds', hafter⟩
  simp only [prepareArgs, readEnv_block hblock, Run.ok_bind, hfound]
  exact hlaunch

theorem prepareArgs_found {before after : List (List UInt8)} {entry : List UInt8}
    (hblock : Block m env.toNat (before ++ entry :: after))
    (hbefore : ∀ s ∈ before, isArgv s = false) (hentry : isArgv entry = true)
    (hmap : Mapped cmdline.toNat) (hlength : m cmdline.toNat = 127) :
    ∃ a, prepareArgs host cmdline env m = Except.ok a ∧
      a.envStrings host m = Except.ok before ∧
      a.argStrings host m = Except.ok (launchedStrings host after) := by
  obtain ⟨a, p, spare, ha, hholds, hafter⟩ :=
    @prepareArgs_found_holds host m _ _ _ _ _ hblock hbefore hentry hmap hlength
  refine ⟨a, ha, ?_, ?_⟩
  · rw [hholds.envStrings]
    exact mapM_starts_before _ hblock
  · rw [hholds.argStrings]
    exact mapM_launched (mapM_starts _ hafter)

/-- In all other cases the environment is the whole block, and the arguments come from
    the command tail. -/
theorem prepareArgs_tail_holds {ss : List (List UInt8)} {p : Parsed}
    (hblock : Block m env.toNat ss) (hmap : Mapped cmdline.toNat)
    (h : m cmdline.toNat ≠ 127 ∨ ∀ s ∈ ss, isArgv s = false)
    (hparse : parseCmdline cmdline m = Except.ok p) :
    ∃ a spare, prepareArgs host cmdline env m = Except.ok a ∧
      Holds a (starts env.toNat ss) (launched host (.path :: p.starts.map .bytes)) spare ∧
      a.bytes = p.bytes := by
  have hnone := @argvFromEnv_none host m _ _ _ hblock hmap h
  obtain ⟨a, htail, hholds, hbytes⟩ :=
    @argvFromTail_holds m cmdline (starts env.toNat ss) p hparse
  rw [length_starts] at htail
  obtain ⟨a', spare, hlaunch, hholds', hbytes'⟩ := @Holds.launch host _ _ _ _ _ hholds
  refine ⟨a', spare, ?_, hholds', hbytes'.trans hbytes⟩
  simp only [prepareArgs, readEnv_block hblock, Run.ok_bind, hnone, htail]
  exact hlaunch

theorem prepareArgs_tail {ss : List (List UInt8)} {p : Parsed} (hblock : Block m env.toNat ss)
    (hmap : Mapped cmdline.toNat)
    (h : m cmdline.toNat ≠ 127 ∨ ∀ s ∈ ss, isArgv s = false)
    (hparse : parseCmdline cmdline m = Except.ok p) :
    ∃ a, prepareArgs host cmdline env m = Except.ok a ∧
      a.envStrings host m = Except.ok ss ∧
      ∀ argv, p.args = Except.ok argv →
        a.argStrings host m = Except.ok (launchedStrings host (host.path :: argv)) := by
  obtain ⟨a, spare, ha, hholds, hbytes⟩ :=
    @prepareArgs_tail_holds host m _ _ _ _ hblock hmap h hparse
  refine ⟨a, ha, ?_, ?_⟩
  · rw [hholds.envStrings]
    exact mapM_starts _ hblock
  · intro argv hargs
    rw [hholds.argStrings]
    apply mapM_launched
    rw [List.mapM_cons, deref, Run.ok_bind, hbytes, List.mapM_map]
    have hstrings : p.starts.mapM (deref host p.bytes m ∘ .bytes) = Except.ok argv := hargs
    rw [hstrings]
    rfl

end PrepareArgs

/-! ### The environment -/

/-- The strings in front of the first `ARGV`. -/
def untilArgv (ss : List (List UInt8)) : List (List UInt8) := ss.takeWhile fun s => !isArgv s

theorem untilArgv_self {ss : List (List UInt8)} (h : ∀ s ∈ ss, isArgv s = false) :
    untilArgv ss = ss := by
  apply List.takeWhile_eq_self_iff.mpr
  intro s hs
  rw [h s hs]
  rfl

theorem untilArgv_before {before after : List (List UInt8)} {entry : List UInt8}
    (hbefore : ∀ s ∈ before, isArgv s = false) (hentry : isArgv entry = true) :
    untilArgv (before ++ entry :: after) = before := by
  have hstop : untilArgv (entry :: after) = [] := by
    simp [untilArgv, hentry]
  unfold untilArgv at *
  rw [List.takeWhile_append_of_pos, hstop, List.append_nil]
  intro s hs
  rw [hbefore s hs]
  rfl

/-- A block without `ARGV`, or with a first one. -/
theorem argv_cases (ss : List (List UInt8)) :
    (∀ s ∈ ss, isArgv s = false) ∨ ∃ before entry after,
      ss = before ++ entry :: after ∧ (∀ s ∈ before, isArgv s = false) ∧ isArgv entry = true := by
  induction ss with
  | nil => exact Or.inl (by simp)
  | cons s ss ih =>
    cases hs : isArgv s with
    | true => exact Or.inr ⟨[], s, ss, rfl, by simp, hs⟩
    | false =>
      rcases ih with hnone | ⟨before, entry, after, rfl, hbefore, hentry⟩
      · left
        simpa [hs] using hnone
      · right
        refine ⟨s :: before, entry, after, rfl, ?_, hentry⟩
        simpa [hs] using hbefore

/-- An environment block with `ARGV`, and a command tail of the given length byte and no
    characters. -/
def guestMemory (length : UInt8) : Memory :=
  write (write initM68KMemory 0x20000 (pack [ascii "A=1", ascii "ARGV=", ascii "p"] ++ [0]))
    0x10000 [length]

/-- The path of the program and of ParaTos in the examples. -/
def sampleHost : Host := ⟨ascii "/p", ascii "/paratos", none⟩

theorem guestMemory_block (length : UInt8) :
    Block (guestMemory length) 0x20000 [ascii "A=1", ascii "ARGV=", ascii "p"] := by
  have hlen : (pack [ascii "A=1", ascii "ARGV=", ascii "p"]).length = 12 := by decide +kernel
  constructor
  · decide +kernel
  · decide +kernel
  · apply (shows_write _ _ _).write
    right
    simp
  · intro i hi
    exact mapped_of_lt (by omega)

end ParaTos.Pexec
