/-
  ParaTos/ArgvRoundTrip.lean
  ==========================
  **From `argv` to the environment block and back.**

  When the command line does not fit into the command tail, a ParaTos that is
  started by `Pexec` gets its arguments out of the block that `LoadExe` wrote for its
  parent.  The environment comes back as it was, and so do the arguments, in order.
  But an empty argument stands there as a blank, and `prepare_args` does not look at
  the list of empty arguments in the value of `ARGV` that would tell.
-/
import ParaTos.Loader
import ParaTos.PexecEnv

namespace ParaTos.Pexec

open Bytes Memory CString ArgList Loader

/-! ### The strings of the block -/

theorem zero_notMem_ascii_toString (i : Nat) : 0 ∉ ascii (toString i) := by
  intro hmem
  obtain ⟨c, hc, hzero⟩ := List.mem_map.mp hmem
  rw [Nat.toString_eq_ofList_toDigits, String.toList_ofList] at hc
  have hdigit := Nat.isDigit_of_mem_toDigits (by decide) (by decide) hc
  have hrange : 48 ≤ c.toNat ∧ c.toNat ≤ 57 := by
    simpa [Char.isDigit, UInt32.le_iff_toNat_le] using hdigit
  have hnat : c.toNat % 256 = 0 := by
    exact congrArg UInt8.toNat hzero
  omega

theorem zero_notMem_nullName (nullAdded : Bool) (i : Nat) : 0 ∉ nullName nullAdded i := by
  have hword : 0 ∉ (if nullAdded then ascii "," else ascii "NULL:") := by
    cases nullAdded <;> decide
  intro hmem
  rcases List.mem_append.mp (List.mem_of_mem_take hmem) with h | h
  · exact hword h
  · exact zero_notMem_ascii_toString i h

theorem zero_notMem_nullsText (argv : List (List UInt8)) (i : Nat) (nullAdded : Bool) :
    0 ∉ nullsText argv i nullAdded := by
  induction argv generalizing i nullAdded with
  | nil => simp [nullsText]
  | cons arg argv ih =>
    unfold nullsText
    split
    · rw [List.mem_append, not_or]
      exact ⟨zero_notMem_nullName _ _, ih _ _⟩
    · exact ih _ _

theorem argvEntry_eq (m : Memory) (env : Nat) (argv : List (List UInt8)) :
    ∃ rest, argvEntry m env argv = ascii "ARGV=" ++ rest ∧ 0 ∉ rest := by
  have hfive : (5 : UInt32).toNat = 5 := rfl
  have htake : (ascii "ARGV=").take 5 = ascii "ARGV=" := by decide
  have hlen : ¬ (ascii "ARGV=").length < 5 := by decide
  rw [argvEntry, writtenText, hfive, if_neg hlen, htake, List.append_assoc]
  refine ⟨_, rfl, ?_⟩
  rw [List.mem_append, not_or]
  refine ⟨?_, zero_notMem_nullsText _ _ _⟩
  split
  · simp
  · rename_i hne
    simpa [eq_comm] using hne

theorem isArgv_argvEntry (m : Memory) (env : Nat) (argv : List (List UInt8)) :
    isArgv (argvEntry m env argv) = true := by
  obtain ⟨rest, hrest, -⟩ := argvEntry_eq m env argv
  simp [isArgv, hrest]

theorem shown_nonempty (arg : List UInt8) : shown arg ≠ [] := by
  unfold shown
  split
  · simp
  · assumption

theorem map_shown_eq {argv : List (List UInt8)} :
    argv.map shown = argv ↔ ∀ arg ∈ argv, arg ≠ [] := by
  constructor
  · intro h arg harg hempty
    rw [← h] at harg
    obtain ⟨a, -, rfl⟩ := List.mem_map.mp harg
    exact shown_nonempty a hempty
  · intro h
    rw [List.map_congr_left (g := id)]
    · exact List.map_id argv
    · intro arg harg
      exact if_neg (h arg harg)

/-- An environment that can be put into a block, and has no `ARGV` of its own. -/
structure IsEnviron (environ : List (List UInt8)) : Prop where
  strings : ∀ s ∈ environ, 0 ∉ s
  nonempty : ∀ s ∈ environ, s ≠ []
  noArgv : ∀ s ∈ environ, isArgv s = false

/-- What `LoadExe` writes is an environment block. -/
theorem envBlock_block {m m₁ : Memory} {a : Nat} {environ argv : List (List UInt8)}
    (henviron : IsEnviron environ) (hargv : IsArgv argv)
    (hfit : a + (envBlock m a environ argv).length ≤ 0x1000000) :
    Block (write m₁ a (envBlock m a environ argv)) a (envStrings m a environ argv) := by
  obtain ⟨rest, hentry, hrest⟩ := argvEntry_eq m (a + (pack environ).length) argv
  have hword : 0 ∉ ascii "ARGV=" := by decide
  have hstrings : ∀ s ∈ envStrings m a environ argv, s ≠ [] ∧ 0 ∉ s := by
    intro s hs
    rw [envStrings, List.mem_append, List.mem_cons, List.mem_map] at hs
    rcases hs with hs | rfl | ⟨arg, harg, rfl⟩
    · exact ⟨henviron.nonempty s hs, henviron.strings s hs⟩
    · rw [hentry, List.mem_append, not_or]
      exact ⟨by simp [ascii], hword, hrest⟩
    · refine ⟨shown_nonempty arg, ?_⟩
      unfold shown
      split
      · decide
      · exact hargv.strings arg harg
  constructor
  · exact fun s hs => (hstrings s hs).1
  · exact fun s hs => (hstrings s hs).2
  · exact shows_write m₁ a _
  · intro i hi
    rw [envBlock, List.length_append, List.length_singleton] at hfit
    exact mapped_of_lt (by omega)

/-! ### The round trip -/

/-- **The `ARGV` procedure carries every argument that is not empty.**  For every
    environment without `ARGV` and every command line that is too long for the command
    tail, `prepare_args` returns on what `LoadExe` wrote and gives back the environment;
    it gives back the arguments if and only if none of them is empty. -/
theorem argv_round_trip {host : Host} {baseTpa e : UInt32} {environ argv : List (List UInt8)}
    {m m' : Memory} (hbase : baseTpa.toNat + 260 ≤ 0x1000000) (henviron : IsEnviron environ)
    (hargv : IsArgv argv) (hcopy : copyStrings baseTpa environ argv m = Except.ok (e, m'))
    (hlong : m' (baseTpa + pCmdlin).toNat = 127) :
    ∃ a, prepareArgs host (baseTpa + pCmdlin) (baseTpa + sizeofBasepage) m' = Except.ok a ∧
      a.envStrings host m' = Except.ok environ ∧
      (a.argStrings host m' = Except.ok (launchedStrings host argv) ↔
        ∀ arg ∈ argv, arg ≠ []) := by
  obtain ⟨m₁, -, hspec⟩ := @copyStrings_spec baseTpa environ argv m hargv.count hbase
  obtain ⟨hfit, hresult⟩ := (hspec _).mp hcopy
  obtain ⟨-, rfl⟩ := Prod.mk.inj hresult
  have hargs : (baseTpa + pCmdlin).toNat = baseTpa.toNat + 128 :=
    @toNat_advance baseTpa 128 (by omega)
  have henv : (baseTpa + sizeofBasepage).toNat = baseTpa.toNat + 260 :=
    @toNat_advance baseTpa 260 hbase
  have hblock := @envBlock_block m m₁ _ _ _ henviron hargv hfit
  generalize write m₁ _ _ = m' at hlong hblock ⊢
  rw [← henv] at hblock
  obtain ⟨a, ha, hes, has⟩ := @prepareArgs_found host _ _ _ _ _ _ hblock henviron.noArgv
    (isArgv_argvEntry _ _ _) (mapped_of_lt (by rw [hargs]; omega)) hlong
  refine ⟨a, ha, hes, ?_⟩
  rw [has, Run.ok_inj, ← map_shown_eq]
  unfold launchedStrings
  split
  · rw [List.cons_inj_right]
  · rfl

/-- An argument that fills the command tail on its own. -/
def longArg : List UInt8 := List.replicate 130 120

/-- `LoadExe` writes the strings of a command line into fresh memory, and what
    `prepare_args` makes of them: the length byte and the arguments. -/
def throughStrings (argv : List (List UInt8)) : Run (UInt8 × List (List UInt8)) := do
  let (_, m) ← copyStrings 0x10800 [ascii "A=1"] argv initM68KMemory
  let a ← prepareArgs sampleHost 0x10880 0x10904 m
  let args ← a.argStrings sampleHost m
  return (m 0x10880, args)

theorem throughStrings_eq_ok {argv : List (List UInt8)} {length : UInt8}
    {args : List (List UInt8)} (h : throughStrings argv = Except.ok (length, args)) :
    ∃ e m', copyStrings 0x10800 [ascii "A=1"] argv initM68KMemory = Except.ok (e, m') ∧
      m' 0x10880 = length ∧ ∃ a, prepareArgs sampleHost 0x10880 0x10904 m' = Except.ok a ∧
        a.argStrings sampleHost m' = Except.ok args := by
  unfold throughStrings at h
  obtain ⟨⟨e, m'⟩, hcopy, h⟩ := Run.bind_eq_ok.mp h
  obtain ⟨a, ha, h⟩ := Run.bind_eq_ok.mp h
  obtain ⟨args', hargs, h⟩ := Run.bind_eq_ok.mp h
  obtain ⟨rfl, rfl⟩ := Prod.mk.inj (Run.ok_inj.mp h)
  exact ⟨e, m', hcopy, rfl, a, ha, hargs⟩

/-- A long argument and a short one behind it come back. -/
theorem argv_round_trip_long : ∃ e m',
    copyStrings 0x10800 [ascii "A=1"] [ascii "p", longArg, ascii "b c"] initM68KMemory =
        Except.ok (e, m') ∧
      ∃ a, prepareArgs sampleHost (0x10800 + pCmdlin) (0x10800 + sizeofBasepage) m' =
          Except.ok a ∧
        a.envStrings sampleHost m' = Except.ok [ascii "A=1"] ∧
        a.argStrings sampleHost m' = Except.ok [ascii "p", longArg, ascii "b c"] := by
  have hrun : throughStrings [ascii "p", longArg, ascii "b c"] =
      Except.ok (127, [ascii "p", longArg, ascii "b c"]) := by
    decide +kernel
  obtain ⟨e, m', hcopy, hlength, -⟩ := throughStrings_eq_ok hrun
  have henviron : IsEnviron [ascii "A=1"] := by
    constructor <;> decide +kernel
  have hargv : IsArgv [ascii "p", longArg, ascii "b c"] := by
    constructor <;> decide +kernel
  refine ⟨e, m', hcopy, ?_⟩
  obtain ⟨a, ha, henv, hiff⟩ := @argv_round_trip sampleHost _ _ _ _ _ _ (by decide) henviron
    hargv hcopy hlength
  refine ⟨a, ha, henv, hiff.mpr ?_⟩
  decide +kernel

/-- An empty argument comes back as a blank. -/
theorem empty_arg_lost : ∃ e m',
    copyStrings 0x10800 [ascii "A=1"] [ascii "p", longArg, []] initM68KMemory =
        Except.ok (e, m') ∧
      m' 0x10880 = 127 ∧
      ∃ a, prepareArgs sampleHost 0x10880 0x10904 m' = Except.ok a ∧
        a.argStrings sampleHost m' ≠ Except.ok [ascii "p", longArg, []] := by
  have hrun : throughStrings [ascii "p", longArg, []] =
      Except.ok (127, [ascii "p", longArg, [blank]]) := by
    decide +kernel
  obtain ⟨e, m', hcopy, hlength, a, ha, hargs⟩ := throughStrings_eq_ok hrun
  refine ⟨e, m', hcopy, hlength, a, ha, ?_⟩
  rw [hargs]
  decide +kernel

end ParaTos.Pexec
