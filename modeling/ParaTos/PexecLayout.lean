/-
  ParaTos/PexecLayout.lean
  ========================
  **`prepare_args` stays inside its block.**

  `prepareArgs` on the block realises `prepareArgs` on the array: whenever the one on
  the array returns, so does the one on the block, and the block spells the array with
  the characters behind it.  So no store leaves the block, no pointer lies where a
  character does, and what `envp` and `argv` are is read off the array.

  Both layouts have one slot more than they need at first, and the loop that shifts
  `argv` ends in it.
-/
import ParaTos.PexecWrites

namespace ParaTos.PexecBlock

open Bytes Memory CString CommandLine Pexec WordBlock

/-- The block is the array with the characters behind it, and `argv` a slot of it. -/
structure Realises (a : Prepared) (a' : Args) : Prop where
  block : ∃ room, Spells a.block (words a'.slots) a'.bytes room
  argv : a.argv = wordSize * a'.argv

/-- What the second call of `parse_cmdline` wrote, slot by slot: one pointer fewer than the first
    call left in `arg_count`, a null pointer behind them, and as many characters as it
    counted. -/
structure Exact (argv : Nat) (t : Tail) : Prop where
  pointers : ∃ ps : List CharPtr, ps.length + 1 = t.argCount ∧
    t.stores.filterMap Store.word? =
      (ps.map some ++ [none]).mapIdx (fun i w => (argv + wordSize * (i + 1), w))
  characters : ∃ cs : List UInt8, cs.length = t.byteCount ∧
    t.stores.filterMap Store.char? = cs.mapIdx (fun i c => (t.chars + i, c))

/-! ### The two ways to argv -/

section Argv

variable {host : Host} {m : Memory} {cmdline : UInt32} {b : Heap} {slots : List Slot}

theorem argvFromEnv_spells_none (h : Spells b (words slots) [] 0)
    (hnone : Pexec.argvFromEnv host cmdline slots m = Except.ok none) :
    argvFromEnv host cmdline b m = Except.ok none := by
  obtain ⟨length, hlength, hnone⟩ := Run.bind_eq_ok.mp hnone
  rw [argvFromEnv, hlength, Run.ok_bind]
  split at hnone
  · obtain ⟨found, hfind, hnone⟩ := Run.bind_eq_ok.mp hnone
    rw [if_pos ‹_›, (findArgv_spells h List.drop_zero hfind).1, Run.ok_bind]
    cases found with
    | none => rfl
    | some i =>
      obtain ⟨slots', -, hsome⟩ := Run.bind_eq_ok.mp hnone
      cases hsome
  · rw [if_neg ‹_›]
    rfl

theorem argvFromEnv_spells_some (h : Spells b (words slots) [] 0) {a' : Args}
    (hsome : Pexec.argvFromEnv host cmdline slots m = Except.ok (some a')) :
    ∃ a, argvFromEnv host cmdline b m = Except.ok (some a) ∧ Realises a a' ∧ a.tail = none := by
  obtain ⟨length, hlength, hsome⟩ := Run.bind_eq_ok.mp hsome
  rw [argvFromEnv, hlength, Run.ok_bind]
  split at hsome
  · obtain ⟨found, hfind, hsome⟩ := Run.bind_eq_ok.mp hsome
    rw [if_pos ‹_›, (findArgv_spells h List.drop_zero hfind).1, Run.ok_bind]
    cases found with
    | none => cases hsome
    | some i =>
      obtain ⟨slots', hset, hsome⟩ := Run.bind_eq_ok.mp hsome
      cases hsome
      obtain ⟨b', hstore, hspells, -, -⟩ := store_slot h rfl hset
      refine ⟨⟨b', wordSize * (i + 1), .path, none, []⟩, ?_, ⟨⟨0, hspells⟩, rfl⟩, rfl⟩
      simp only [hstore, Run.ok_bind]
      rfl
  · cases hsome

theorem argvFromTail_spells (h : Spells b (words slots) [] 0) {envSz : Nat}
    (hlen : slots.length = envSz + 2) {a' : Args}
    (htail : Pexec.argvFromTail cmdline slots envSz m = Except.ok a') :
    ∃ a t, argvFromTail cmdline b envSz m = Except.ok a ∧ Realises a a' ∧ a.tail = some t ∧
      Exact a.argv t ∧ ∀ s ∈ t.stores, s ∈ a.block.stores := by
  obtain ⟨p, hparse, htail⟩ := Run.bind_eq_ok.mp htail
  obtain ⟨slots₁, hpath, htail⟩ := Run.bind_eq_ok.mp htail
  obtain ⟨slots₂, hargs, htail⟩ := Run.bind_eq_ok.mp htail
  cases htail
  have hcounts : parseCmdline 0 cmdline m ⟨b, none, none, some 1, 0⟩ =
      Except.ok (counting b p) := parseCmdline_counts b hparse
  -- the room that the first call counted
  have hroom : slots.length ≤ envSz + (1 + p.starts.length) + 3 := by
    rw [hlen]
    omega
  obtain ⟨b₁, hstore, hspells₁, -, hlen₁⟩ :=
    store_slot (realloc_spells h hroom p.bytes.length) rfl hpath
  have hchars : wordSize * slots₁.length =
      wordSize * (envSz + 1) + wordSize * (1 + p.starts.length + 2) := by
    rw [hlen₁, List.length_append, List.length_replicate, Nat.add_sub_cancel' hroom,
      ← Nat.mul_add]
    congr 1
    omega
  obtain ⟨s, stores, hfilled, hspells₂, hstores, hpointers, hcharacters⟩ :=
    parseCmdline_fills hparse hspells₁ hargs
  rw [hchars] at hfilled hcharacters
  refine ⟨⟨s.block, wordSize * (envSz + 1), .path, some ⟨1 + p.starts.length, p.bytes.length,
    wordSize * (envSz + 1) + wordSize * (1 + p.starts.length + 2), stores⟩, []⟩, _, ?_,
    ⟨⟨_, hspells₂⟩, rfl⟩, rfl, ⟨?_, ?_⟩, ?_⟩
  · have hdrop : s.block.stores.drop b₁.stores.length = stores := by
      rw [hstores, List.drop_left]
    have hargv : wordSize * (envSz + 1) + wordSize = wordSize * (envSz + 2) := rfl
    rw [argvFromTail, hcounts, Run.ok_bind]
    simp only [counting, Run.ofOption_some, Run.ok_bind, hstore, hargv, hfilled, hdrop]
    rfl
  · refine ⟨p.starts.map .bytes, ?_, ?_⟩
    · rw [List.length_map, Nat.add_comm]
    · have hplace : ∀ i, wordSize * (envSz + 1) + wordSize * (i + 1) =
          wordSize * (envSz + 2 + i) := by
        intro i
        simp only [wordSize]
        omega
      simp only [hplace]
      rw [hpointers, argWords, List.map_map]
      rfl
  · exact ⟨p.bytes, rfl, hcharacters⟩
  · intro t ht
    rw [hstores]
    exact List.mem_append_right _ ht

end Argv

/-! ### ParaTos in front -/

/-- What the loop that shifts `argv` writes: pointers, and `NULL` in the end, all of it to
    the block. -/
structure Shifted (a : Prepared) : Prop where
  endsNull : EndsNull a.shift
  written : ∀ s ∈ a.shift, s ∈ a.block.stores

theorem prependParatos_spells {a : Prepared} {a' a'' : Args} (h : Realises a a')
    (hprepend : Pexec.prependParatos a' = Except.ok a'') :
    ∃ r, prependParatos a = Except.ok r ∧ Realises r a'' ∧ Shifted r ∧ r.argv = a.argv ∧
      r.tail = a.tail ∧ ∀ s ∈ a.block.stores, s ∈ r.block.stores := by
  obtain ⟨room, hspells⟩ := h.block
  obtain ⟨prev, hprev, hprepend⟩ := Run.bind_eq_ok.mp hprepend
  obtain ⟨shifted, hshift, hprepend⟩ := Run.bind_eq_ok.mp hprepend
  cases hprepend
  have hslot : a'.slots[a'.argv]? = some prev := Run.ofOption_eq_ok.mp hprev
  have hlt := (List.getElem?_eq_some_iff.mp hslot).1
  have hrounds : (a'.slots.drop (a'.argv + 1)).length ≤ a.block.size := by
    rw [hspells.size, length_words, List.length_drop]
    simp only [wordSize]
    omega
  obtain ⟨b₁, stores, hrun, hspells₁, hstores₁, hnull⟩ :=
    shiftLoop_spells a'.argv hspells rfl hshift hrounds
  -- the first slot is still the old one
  have hfront : (a'.slots.take (a'.argv + 1) ++ shifted).set a'.argv (.ptr .paratosExe) =
      a'.slots.take a'.argv ++ .ptr .paratosExe :: shifted := by
    have hlen : (a'.slots.take a'.argv).length = a'.argv :=
      List.length_take_of_le (Nat.le_of_lt hlt)
    rw [List.take_add_one, hslot, List.append_assoc,
      List.set_append_right _ _ (Nat.le_of_eq hlen), hlen, Nat.sub_self]
    rfl
  have hset : setSlot (a'.slots.take (a'.argv + 1) ++ shifted) a'.argv (.ptr .paratosExe) =
      Except.ok (a'.slots.take a'.argv ++ .ptr .paratosExe :: shifted) := by
    apply setSlot_eq_ok.mpr
    refine ⟨?_, hfront⟩
    rw [List.length_append, List.length_take_of_le hlt]
    omega
  obtain ⟨b₂, hstore, hspells₂, hstores₂, -⟩ := store_slot hspells₁ rfl hset
  have hdrop : b₁.stores.drop a.block.stores.length = stores := by
    rw [hstores₁, List.drop_left]
  refine ⟨{ a with block := b₂, path := .paratosExe, shift := stores }, ?_,
    ⟨⟨room, hspells₂⟩, h.argv⟩, ⟨hnull, ?_⟩, rfl, rfl, ?_⟩
  · have hload := load_slot hspells hslot
    rw [← h.argv] at hload hrun hstore
    rw [prependParatos, hload, Run.ok_bind, hrun, Run.ok_bind]
    simp only [hstore, hdrop, Run.ok_bind]
    rfl
  · intro s hs
    rw [hstores₂, hstores₁]
    exact List.mem_append_left _ (List.mem_append_right _ hs)
  · intro s hs
    rw [hstores₂, hstores₁]
    exact List.mem_append_left _ (List.mem_append_left _ hs)

/-! ### prepare_args -/

section PrepareArgs

variable {host : Host} {m : Memory} {cmdline env : UInt32}

/-- What is to be said about the writes: they are all in the block, the pointers in front
    and the characters behind them, and the second call and the shift write what they
    should. -/
structure Sound (host : Host) (a : Prepared) : Prop where
  apart : ∃ front ≤ a.block.size, ∀ s ∈ a.block.stores, s.Keeps front a.block.size
  second : ∀ t, a.tail = some t → Exact a.argv t ∧ ∀ s ∈ t.stores, s ∈ a.block.stores
  shift : host.magic = some 0x601a → Shifted a

theorem Realises.apart {a : Prepared} {a' : Args} (h : Realises a a') :
    ∃ front ≤ a.block.size, ∀ s ∈ a.block.stores, s.Keeps front a.block.size := by
  obtain ⟨room, hspells⟩ := h.block
  refine ⟨_, ?_, hspells.stores⟩
  rw [hspells.size]
  exact Nat.le_add_right _ _

/-- The last step of `prepare_args`, whichever way `argv` was made. -/
theorem launch_realises {a : Prepared} {a' a'' : Args} (h : Realises a a')
    (hsecond : ∀ t, a.tail = some t → Exact a.argv t ∧ ∀ s ∈ t.stores, s ∈ a.block.stores)
    (hlaunch : (if host.magic = some 0x601a then Pexec.prependParatos a' else pure a') =
      Except.ok a'') :
    ∃ r, (if host.magic = some 0x601a then prependParatos a else pure a) = Except.ok r ∧
      Realises r a'' ∧ Sound host r ∧ r.tail = a.tail := by
  split at hlaunch
  · obtain ⟨r, hr, hreal, hshift, hargv, htail, hold⟩ := prependParatos_spells h hlaunch
    rw [if_pos ‹_›]
    refine ⟨r, hr, hreal, ⟨hreal.apart, ?_, fun _ => hshift⟩, htail⟩
    intro t ht
    rw [htail] at ht
    rw [hargv]
    obtain ⟨hexact, hin⟩ := hsecond t ht
    exact ⟨hexact, fun s hs => hold s (hin s hs)⟩
  · cases hlaunch
    rw [if_neg ‹_›]
    exact ⟨a, rfl, h, ⟨h.apart, hsecond, fun hmagic => absurd hmagic ‹_›⟩, rfl⟩

/-- The block realises the array, and has an old-style command line in it unless the `ARGV`
    procedure found one. -/
theorem prepareArgs_realises {slots : List Slot} {envSz : Nat} {found : Option Args} {a' : Args}
    (hread : Pexec.readEnv env m = Except.ok (slots, envSz))
    (hfound : Pexec.argvFromEnv host cmdline slots m = Except.ok found)
    (h : Pexec.prepareArgs host cmdline env m = Except.ok a') :
    ∃ a, prepareArgs host cmdline env m = Except.ok a ∧ Realises a a' ∧ Sound host a ∧
      (a.tail = none ↔ found.isSome) := by
  obtain ⟨b, hread', hspells, hlen⟩ := readEnv_spells hread
  rw [Pexec.prepareArgs, hread, Run.ok_bind] at h
  simp only [hfound, Run.ok_bind] at h
  rw [prepareArgs, hread', Run.ok_bind]
  cases found with
  | some a₁' =>
    obtain ⟨a₁, ha₁, hreal, hnone⟩ := argvFromEnv_spells_some hspells hfound
    have hsecond : ∀ t, a₁.tail = some t →
        Exact a₁.argv t ∧ ∀ s ∈ t.stores, s ∈ a₁.block.stores := by
      intro t ht
      rw [hnone] at ht
      cases ht
    obtain ⟨a, ha, hreal', hsound, htail⟩ := launch_realises hreal hsecond h
    simp only [ha₁, Run.ok_bind]
    exact ⟨a, ha, hreal', hsound, iff_of_true (htail.trans hnone) rfl⟩
  | none =>
    obtain ⟨a₁', ha₁', h⟩ := Run.bind_eq_ok.mp h
    obtain ⟨a₁, t, ha₁, hreal, ht, hexact, hin⟩ := argvFromTail_spells hspells hlen ha₁'
    have hsecond : ∀ t, a₁.tail = some t →
        Exact a₁.argv t ∧ ∀ s ∈ t.stores, s ∈ a₁.block.stores := by
      intro t' ht'
      rw [ht] at ht'
      cases ht'
      exact ⟨hexact, hin⟩
    obtain ⟨a, ha, hreal', hsound, htail⟩ := launch_realises hreal hsecond h
    simp only [argvFromEnv_spells_none hspells hfound, ha₁, Run.ok_bind]
    refine ⟨a, ha, hreal', hsound, ?_⟩
    rw [htail, ht]
    simp

/-- The array that `prepare_args` leaves holds two vectors, each with a null pointer at its
    end. -/
theorem prepareArgs_vectors {ss : List (List UInt8)} (hblock : Block m env.toNat ss)
    (htail : ∀ i ≤ (m cmdline.toNat).toNat + 1, Mapped (cmdline.toNat + i)) :
    ∃ a envp argv found, Pexec.prepareArgs host cmdline env m = Except.ok a ∧
      Pexec.vector a.slots = Except.ok envp ∧
      Pexec.vector (a.slots.drop a.argv) = Except.ok argv ∧
      Pexec.argvFromEnv host cmdline (ptrs (starts env.toNat ss) ++ [.null, .junk]) m =
        Except.ok found ∧
      (found.isSome ↔ m cmdline.toNat = 127 ∧ ∃ s ∈ ss, isArgv s = true) := by
  have hmap : Mapped cmdline.toNat := htail 0 (Nat.zero_le _)
  obtain ⟨p, hp⟩ := parseCmdline_returns htail
  by_cases hfound : m cmdline.toNat ≠ 127 ∨ ∀ s ∈ ss, isArgv s = false
  · obtain ⟨a, spare, ha, hholds, -⟩ :=
      @prepareArgs_tail_holds host m _ _ _ _ hblock hmap hfound hp
    obtain ⟨henvp, hargv⟩ := hholds.vectors
    refine ⟨a, _, _, none, ha, henvp, hargv, argvFromEnv_none hblock hmap hfound, ?_⟩
    apply iff_of_false nofun
    rintro ⟨hlength, s, hs, hargv⟩
    rcases hfound with hne | hno
    · exact hne hlength
    · rw [hno s hs] at hargv
      cases hargv
  · rw [not_or, Decidable.not_not] at hfound
    obtain ⟨hlength, hfound⟩ := hfound
    rcases argv_cases ss with hnone | ⟨before, entry, after, rfl, hbefore, hentry⟩
    · exact absurd hnone hfound
    · obtain ⟨a, p, spare, ha, hholds, -⟩ :=
        @prepareArgs_found_holds host m _ _ _ _ _ hblock hbefore hentry hmap hlength
      obtain ⟨r, -, hr, -⟩ :=
        @argvFromEnv_found host m _ _ _ _ _ hblock hbefore hentry hmap hlength
      obtain ⟨henvp, hargv⟩ := hholds.vectors
      refine ⟨a, _, _, some r, ha, henvp, hargv, hr, iff_of_true rfl ⟨hlength, entry, ?_, hentry⟩⟩
      exact List.mem_append_right _ (List.mem_cons_self ..)

/-- **All writes stay in the block.**  For every environment block, every command tail and
    every program `prepare_args` returns with no store outside the block, and what it has
    written is as it should be: pointers and characters are apart, the second call of
    `parse_cmdline`, which is made unless `ARGV` counts, took the room that the first one
    counted, the shift ended with a null pointer, and so do `envp` and `argv`. -/
theorem writes_in_block {ss : List (List UInt8)} (hblock : Block m env.toNat ss)
    (htail : ∀ i ≤ (m cmdline.toNat).toNat + 1, Mapped (cmdline.toNat + i)) :
    ∃ a, prepareArgs host cmdline env m = Except.ok a ∧ Sound host a ∧
      (a.tail = none ↔ m cmdline.toNat = 127 ∧ ∃ s ∈ ss, isArgv s = true) ∧
      (∃ envp, vector a.block 0 = Except.ok envp) ∧
      ∃ argv, vector a.block a.argv = Except.ok argv := by
  obtain ⟨a', envp, argv, found, ha', henvp, hargv, hfound, hiff⟩ :=
    @prepareArgs_vectors host m cmdline env ss hblock htail
  obtain ⟨a, ha, hreal, hsound, hnone⟩ := prepareArgs_realises (readEnv_block hblock) hfound ha'
  obtain ⟨room, hspells⟩ := hreal.block
  refine ⟨a, ha, hsound, hnone.trans hiff,
    ⟨envp, vector_spells hspells List.drop_zero henvp⟩, argv, ?_⟩
  rw [hreal.argv]
  exact vector_spells hspells rfl hargv

/-- A program for the Atari, with no arguments and three strings in the environment. -/
theorem writes_in_block_tos :
    ∃ a, prepareArgs { sampleHost with magic := some 0x601a } 0x10000 0x20000 (guestMemory 0) =
        Except.ok a ∧ Sound { sampleHost with magic := some 0x601a } a ∧
      (a.tail = none ↔ guestMemory 0 (0x10000 : UInt32).toNat = 127 ∧
        ∃ s ∈ [ascii "A=1", ascii "ARGV=", ascii "p"], isArgv s = true) ∧
      (∃ envp, vector a.block 0 = Except.ok envp) ∧
      ∃ argv, vector a.block a.argv = Except.ok argv := by
  have hbyte : guestMemory 0 (0x10000 : UInt32).toNat = 0 := by decide +kernel
  apply writes_in_block (guestMemory_block 0)
  intro i hi
  have haddr : (0x10000 : UInt32).toNat = 0x10000 := rfl
  rw [hbyte] at hi
  simp at hi
  exact mapped_of_lt (by omega)

end PrepareArgs

end ParaTos.PexecBlock
