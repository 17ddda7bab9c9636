/-
  ParaTos/ArgList.lean
  ====================
  **Handing over a command line** (`BuildTosArglist` in `gemdos/loader.c`).

  A TOS program gets its arguments twice.  The command tail in the basepage is a
  length byte and at most 125 characters: a blank in front of every argument, and
  two quotes for an empty one.  A command line that does not fit is cut off and
  gets the length byte 127.  Behind the environment stand an `ARGV=` string, which
  lists the positions of the empty arguments, and all arguments as strings, with a
  single blank for an empty one.

  The lemmas say what either half leaves in memory: the tail always returns, the
  strings return when they end inside the RAM.  `buildTail_stores` lists the single
  stores of the tail, for any buffer.
-/
import ParaTos.Memory

namespace ParaTos.ArgList

open Bytes Memory CString

/-- What C passes as `argv` and `argc`: strings, as many as an `int` can count. -/
structure IsArgv (argv : List (List UInt8)) : Prop where
  strings : ∀ a ∈ argv, 0 ∉ a
  count : argv.length < 2 ^ 31

abbrev blank : UInt8 := 32
abbrev quote : UInt8 := 39

def maxTosArg : Nat := 126

/-! ### The command tail -/

/-- Where the code that fills `arg_buffer` stands: at the next character, or at the
    label `trunc`. -/
inductive Tail where
  | more (n : Nat) (m : Memory)
  | trunc (n : Nat) (m : Memory)

/-- Go on, unless there was a `goto trunc`. -/
def Tail.andThen (f : Nat → Memory → Run Tail) : Tail → Run Tail
  | .more n m => f n m
  | .trunc n m => Except.ok (.trunc n m)

/-- `arg_buffer[n++] = c; if (n > MAX_TOS_ARG) goto trunc;` -/
def putChar (args : UInt32) (c : UInt8) (n : Nat) (m : Memory) : Run Tail := do
  let m ← poke (args.toNat + n) [c] m
  if n + 1 > maxTosArg then return .trunc (n + 1) m
  return .more (n + 1) m

/-- The first of the two quotes of an empty argument: there is an `n--` before the
    `goto trunc`. -/
def putQuote (args : UInt32) (n : Nat) (m : Memory) : Run Tail := do
  match ← putChar args quote n m with
  | .more n m => return .more n m
  | .trunc n m => return .trunc (n - 1) m

def putChars (args : UInt32) : List UInt8 → Nat → Memory → Run Tail
  | [], n, m => Except.ok (.more n m)
  | c :: l, n, m => do
    let t ← putChar args c n m
    t.andThen (putChars args l)

/-- One round of the loop over `argv[1]`, `argv[2]`, … -/
def putArg (args : UInt32) (arg : List UInt8) (n : Nat) (m : Memory) : Run Tail := do
  let t ← putChar args blank n m
  t.andThen fun n m =>
    if arg = [] then do
      let t ← putQuote args n m
      t.andThen (putChar args quote)
    else putChars args arg n m

def putArgs (args : UInt32) : List (List UInt8) → Nat → Memory → Run Tail
  | [], n, m => Except.ok (.more n m)
  | arg :: argv, n, m => do
    let t ← putArg args arg n m
    t.andThen (putArgs args argv)

/-- The command tail, up to the label `notrunc`. -/
def buildTail (args : UInt32) (argv : List (List UInt8)) (m : Memory) : Run Memory := do
  match ← putArgs args argv.tail 1 m with
  | .more n m => poke args.toNat [UInt8.ofNat (n - 1)] m
  | .trunc n m =>
    let m ← poke (args.toNat + n) [0] m
    poke args.toNat [127] m

/-! ### The strings behind the environment -/

/-- What `snprintf` prints for an empty argument. -/
def nullName (nullAdded : Bool) (i : Nat) : List UInt8 :=
  ((if nullAdded then ascii "," else ascii "NULL:") ++ ascii (toString i)).take 20

/-- The loop that looks for empty arguments. -/
def writeNulls : List (List UInt8) → Nat → Bool → UInt32 → Memory → Run (UInt32 × Memory)
  | [], _, _, env, m => Except.ok (env, m)
  | arg :: argv, i, nullAdded, env, m =>
    if arg = [] then do
      let (n, m) ← writeString env (nullName nullAdded i) 20 m
      writeNulls argv (i + 1) true (env + n) m
    else writeNulls argv (i + 1) nullAdded env m

/-- An argument; an empty one becomes a blank. -/
def writeArg (arg : List UInt8) (env : UInt32) (m : Memory) : Run (UInt32 × Memory) :=
  if arg = [] then do
    let m ← writeMemory8 env blank m
    return (env + 1, m)
  else do
    let (n, m) ← writeString env arg 0x7fffffff m
    return (env + n, m)

/-- The loop that writes the arguments. -/
def writeArgs : List (List UInt8) → UInt32 → Memory → Run (UInt32 × Memory)
  | [], env, m => Except.ok (env, m)
  | arg :: argv, env, m => do
    let (env, m) ← writeArg arg env m
    let m ← writeMemory8 env 0 m
    writeArgs argv (env + 1) m

/-- `BuildTosArglist` from the label `notrunc` on. -/
def buildStrings (argv : List (List UInt8)) (env : UInt32) (m : Memory) :
    Run (UInt32 × Memory) := do
  let (n, m) ← writeString env (ascii "ARGV=") 5 m
  let (env, m) ← writeNulls argv 0 false (env + n) m
  let m ← writeMemory8 env 0 m
  writeArgs argv (env + 1) m

/-- `BuildTosArglist(args, argv, argc, env)`, the address behind the last string. -/
def buildTosArglist (args : UInt32) (argv : List (List UInt8)) (env : UInt32) (m : Memory) :
    Run (UInt32 × Memory) := do
  let m ← buildTail args argv m
  buildStrings argv env m

/-! ### What the tail says -/

/-- An argument in the command tail. -/
def quoted (arg : List UInt8) : List UInt8 := if arg = [] then [quote, quote] else arg

/-- The text of a command tail that is long enough for all arguments. -/
def tailText (argv : List (List UInt8)) : List UInt8 :=
  argv.flatMap fun arg => blank :: quoted arg

@[simp] theorem tailText_nil : tailText [] = [] := rfl

theorem tailText_cons (arg : List UInt8) (argv : List (List UInt8)) :
    tailText (arg :: argv) = blank :: quoted arg ++ tailText argv := rfl

section Tail

variable {args : UInt32} {m₀ m : Memory}

/-- The tail holds the text, or the first 126 characters of it. -/
inductive Spelt (args : UInt32) (m₀ : Memory) (text : List UInt8) : Tail → Prop where
  | more (h : text.length ≤ 125) :
      Spelt args m₀ text (.more (text.length + 1) (write m₀ (args.toNat + 1) text))
  | trunc (h : 126 ≤ text.length) (n : Nat) (hn : n = 126 ∨ n = 127) :
      Spelt args m₀ text (.trunc n (write m₀ (args.toNat + 1) (text.take 126)))

/-- A command line that was cut off stays as it is. -/
theorem Spelt.cut {text : List UInt8} {n : Nat} (h : Spelt args m₀ text (.trunc n m))
    (l : List UInt8) : Spelt args m₀ (text ++ l) (.trunc n m) := by
  cases h with
  | trunc h n hn =>
    rw [← List.take_append_of_le_length h]
    apply Spelt.trunc
    · rw [List.length_append]
      omega
    · exact hn

theorem Spelt.andThen {text l : List UInt8} {t : Tail} {f : Nat → Memory → Run Tail}
    (ht : Spelt args m₀ text t)
    (hf : text.length ≤ 125 → ∃ t', f (text.length + 1) (write m₀ (args.toNat + 1) text) =
      Except.ok t' ∧ Spelt args m₀ (text ++ l) t') :
    ∃ t', t.andThen f = Except.ok t' ∧ Spelt args m₀ (text ++ l) t' := by
  cases ht with
  | more h => exact hf h
  | trunc h n hn => exact ⟨_, rfl, (Spelt.trunc h n hn).cut l⟩

theorem putChar_spec (hargs : args.toNat + 128 ≤ 0x1000000) (c : UInt8) {text : List UInt8}
    (h : text.length ≤ 125) :
    ∃ t, putChar args c (text.length + 1) (write m₀ (args.toNat + 1) text) = Except.ok t ∧
      Spelt args m₀ (text ++ [c]) t ∧ ∀ n m, t = .trunc n m → n = 127 := by
  have haddr : args.toNat + (text.length + 1) = args.toNat + 1 + text.length := by omega
  have hpoke : poke (args.toNat + (text.length + 1)) [c] (write m₀ (args.toNat + 1) text) =
      Except.ok (write m₀ (args.toNat + 1) (text ++ [c])) := by
    rw [haddr, poke_ok, write_append]
    rw [List.length_singleton]
    omega
  have hlen : (text ++ [c]).length = text.length + 1 := List.length_append
  rw [putChar, hpoke, Run.ok_bind, maxTosArg, ← hlen]
  split
  · rename_i hlong
    have htake : (text ++ [c]).take 126 = text ++ [c] := List.take_of_length_le (by omega)
    have hspelt := @Spelt.trunc args m₀ (text ++ [c]) (by omega) ((text ++ [c]).length + 1)
      (by omega)
    rw [htake] at hspelt
    refine ⟨_, rfl, hspelt, ?_⟩
    rintro n m ⟨⟩
    omega
  · refine ⟨_, rfl, Spelt.more (by omega), ?_⟩
    rintro n m ⟨⟩

theorem putQuote_spec (hargs : args.toNat + 128 ≤ 0x1000000) {text : List UInt8}
    (h : text.length ≤ 125) :
    ∃ t, putQuote args (text.length + 1) (write m₀ (args.toNat + 1) text) = Except.ok t ∧
      Spelt args m₀ (text ++ [quote]) t := by
  obtain ⟨t, ht, hspelt, hn⟩ := @putChar_spec args m₀ hargs quote text h
  rw [putQuote, ht, Run.ok_bind]
  cases hspelt with
  | more h => exact ⟨_, rfl, Spelt.more h⟩
  | trunc h n _ =>
    obtain rfl := hn n _ rfl
    exact ⟨_, rfl, Spelt.trunc h 126 (Or.inl rfl)⟩

theorem putChars_spec (hargs : args.toNat + 128 ≤ 0x1000000) (l : List UInt8)
    {text : List UInt8} (h : text.length ≤ 125) :
    ∃ t, putChars args l (text.length + 1) (write m₀ (args.toNat + 1) text) = Except.ok t ∧
      Spelt args m₀ (text ++ l) t := by
  induction l generalizing text with
  | nil =>
    rw [List.append_nil]
    exact ⟨_, rfl, Spelt.more h⟩
  | cons c l ih =>
    obtain ⟨t, ht, hspelt, -⟩ := @putChar_spec args m₀ hargs c text h
    obtain ⟨t', ht', hspelt'⟩ := hspelt.andThen (fun h' => ih h')
    rw [List.append_assoc] at hspelt'
    refine ⟨t', ?_, hspelt'⟩
    rw [putChars, ht]
    exact ht'

theorem putArg_spec (hargs : args.toNat + 128 ≤ 0x1000000) (arg : List UInt8)
    {text : List UInt8} (h : text.length ≤ 125) :
    ∃ t, putArg args arg (text.length + 1) (write m₀ (args.toNat + 1) text) = Except.ok t ∧
      Spelt args m₀ (text ++ (blank :: quoted arg)) t := by
  obtain ⟨t, ht, hspelt, -⟩ := @putChar_spec args m₀ hargs blank text h
  rw [putArg, ht, Run.ok_bind, ← List.singleton_append, ← List.append_assoc]
  apply hspelt.andThen
  intro h'
  by_cases harg : arg = []
  · obtain ⟨q, hq, hquote⟩ := @putQuote_spec args m₀ hargs _ h'
    have hquotes : quoted arg = [quote] ++ [quote] := if_pos harg
    rw [if_pos harg, hq, Run.ok_bind, hquotes, ← List.append_assoc]
    apply hquote.andThen
    intro h''
    obtain ⟨t', ht', hspelt', -⟩ := @putChar_spec args m₀ hargs quote _ h''
    exact ⟨t', ht', hspelt'⟩
  · rw [if_neg harg, quoted, if_neg harg]
    exact putChars_spec hargs arg h'

theorem putArgs_spec (hargs : args.toNat + 128 ≤ 0x1000000) (argv : List (List UInt8))
    {text : List UInt8} (h : text.length ≤ 125) :
    ∃ t, putArgs args argv (text.length + 1) (write m₀ (args.toNat + 1) text) = Except.ok t ∧
      Spelt args m₀ (text ++ tailText argv) t := by
  induction argv generalizing text with
  | nil =>
    rw [tailText_nil, List.append_nil]
    exact ⟨_, rfl, Spelt.more h⟩
  | cons arg argv ih =>
    obtain ⟨t, ht, hspelt⟩ := @putArg_spec args m₀ hargs arg text h
    obtain ⟨t', ht', hspelt'⟩ := hspelt.andThen (fun h' => ih h')
    rw [List.append_assoc] at hspelt'
    refine ⟨t', ?_, hspelt'⟩
    rw [putArgs, ht]
    exact ht'

/-- What a command tail holds: all of the text, or 125 or 126 characters and a NUL. -/
inductive TailHolds (args : UInt32) (m₀ : Memory) (text : List UInt8) : Memory → Prop where
  | whole (h : text.length ≤ 125) :
      TailHolds args m₀ text (write m₀ args.toNat (UInt8.ofNat text.length :: text))
  | cut (h : 126 ≤ text.length) (k : Nat) (hk : k = 125 ∨ k = 126) :
      TailHolds args m₀ text (write m₀ args.toNat (127 :: text.take k ++ [0]))

/-- The length byte stored in front of what is there. -/
theorem write_front (m : Memory) (a : Nat) (b : UInt8) (l : List UInt8) :
    write (write m (a + 1) l) a [b] = write m a (b :: l) := by
  rw [write_comm m (Or.inr (by simp)), write_cons]

/-- The command tail is always written. -/
theorem buildTail_spec (hargs : args.toNat + 128 ≤ 0x1000000) (argv : List (List UInt8))
    (m : Memory) :
    ∃ m', buildTail args argv m = Except.ok m' ∧ TailHolds args m (tailText argv.tail) m' := by
  obtain ⟨t, ht, hspelt⟩ := @putArgs_spec args m hargs argv.tail [] (by simp)
  rw [List.nil_append] at hspelt
  rw [write_nil, List.length_nil, Nat.zero_add] at ht
  rw [buildTail, ht, Run.ok_bind]
  generalize tailText argv.tail = text at hspelt
  cases hspelt with
  | more h =>
    refine ⟨_, ?_, TailHolds.whole h⟩
    dsimp only
    rw [poke_ok, Nat.add_sub_cancel, write_front]
    rw [List.length_singleton]
    omega
  | trunc h n hn =>
    have hsplit : text.take 126 = text.take (n - 1) ++ (text.drop (n - 1)).take (127 - n) := by
      rw [← List.take_add]
      congr 1
      omega
    have hlen : (text.take (n - 1)).length = n - 1 := by
      rw [List.length_take]
      omega
    have haddr : args.toNat + n = args.toNat + 1 + (text.take (n - 1)).length := by omega
    refine ⟨_, ?_, TailHolds.cut h (n - 1) (by omega)⟩
    dsimp only
    rw [poke_ok, Run.ok_bind, poke_ok, hsplit, haddr, write_over, write_front]
    · rfl
    · rw [List.length_take]
      simp only [List.length_singleton]
      omega
    · rw [List.length_singleton]
      omega
    · rw [List.length_singleton]
      omega

/-- The length byte tells whether anything was cut off. -/
theorem TailHolds.length_byte {text : List UInt8} (h : TailHolds args m₀ text m) :
    m args.toNat = if text.length ≤ 125 then UInt8.ofNat text.length else 127 := by
  cases h with
  | whole h =>
    rw [if_pos h]
    exact write_inside m₀ args.toNat (l := UInt8.ofNat text.length :: text) (i := 0) (by simp)
  | cut h k hk =>
    rw [if_neg (by omega)]
    exact write_inside m₀ args.toNat (l := 127 :: text.take k ++ [0]) (i := 0) (by simp)

/-- A tail takes 128 bytes at most. -/
theorem TailHolds.outside {text : List UInt8} (h : TailHolds args m₀ text m) {x : Nat}
    (hx : x < args.toNat ∨ args.toNat + 128 ≤ x) : m x = m₀ x := by
  cases h with
  | whole h =>
    apply write_outside
    rw [List.length_cons]
    omega
  | cut h k hk =>
    apply write_outside
    simp only [List.length_append, List.length_cons, List.length_take, List.length_nil]
    omega

/-- A tail in front of text that was written before might as well have been written
    first. -/
theorem TailHolds.first {text l : List UInt8} {a : Nat}
    (h : TailHolds args (write m₀ a l) text m) (ha : args.toNat + 128 ≤ a) :
    ∃ m₁, TailHolds args m₀ text m₁ ∧ m = write m₁ a l := by
  cases h with
  | whole h =>
    refine ⟨_, TailHolds.whole h, ?_⟩
    apply write_comm
    rw [List.length_cons]
    omega
  | cut h k hk =>
    refine ⟨_, TailHolds.cut h k hk, ?_⟩
    apply write_comm
    simp only [List.length_append, List.length_cons, List.length_take, List.length_nil]
    omega

end Tail

/-! ### The stores of the tail -/

/-- Store characters in `arg_buffer`, each at its index. -/
def storeAll (args : UInt32) : List (UInt8 × Nat) → Memory → Run Memory
  | [], m => Except.ok m
  | (c, n) :: l, m => do
    let m ← poke (args.toNat + n) [c] m
    storeAll args l m

section Stores

variable {args : UInt32} {n : Nat} {text l : List UInt8}

theorem storeAll_append (l l' : List (UInt8 × Nat)) (m : Memory) :
    storeAll args (l ++ l') m = storeAll args l m >>= storeAll args l' := by
  induction l generalizing m with
  | nil => rfl
  | cons s l ih =>
    rw [List.cons_append, storeAll, storeAll, bind_assoc]
    exact bind_congr fun m => ih m

/-- What code at index `n` does that has a text to put into the tail: it stores the text
    and goes on behind it, or stores what fits below 127 and goes to `trunc`. -/
inductive Stored (n : Nat) (text : List UInt8) :
    List (UInt8 × Nat) → (Memory → Tail) → Prop where
  | more (h : n + text.length ≤ 126) : Stored n text (text.zipIdx n) (.more (n + text.length))
  | trunc (h : 127 ≤ n + text.length) (k : Nat) (hk : k = 126 ∨ k = 127) :
      Stored n text ((text.take (127 - n)).zipIdx n) (.trunc k)

/-- The code does these stores and no others, whatever the buffer and the memory are. -/
def Puts (n : Nat) (text : List UInt8) (f : UInt32 → Memory → Run Tail) : Prop :=
  ∃ stores t, Stored n text stores t ∧
    ∀ args m, f args m = storeAll args stores m >>= fun m => Except.ok (t m)

theorem Puts.nil (hn : n ≤ 126) : Puts n [] fun _ m => Except.ok (.more n m) :=
  ⟨_, _, Stored.more hn, fun _ _ => rfl⟩

theorem Puts.andThen {f : UInt32 → Memory → Run Tail} {g : UInt32 → Nat → Memory → Run Tail}
    (hf : Puts n text f)
    (hg : n + text.length ≤ 126 →
      Puts (n + text.length) l fun args => g args (n + text.length)) :
    Puts n (text ++ l) fun args m => f args m >>= fun t => t.andThen (g args) := by
  obtain ⟨stores, t, hstored, hf⟩ := hf
  cases hstored with
  | more h =>
    obtain ⟨stores', t', hstored', hg⟩ := hg h
    refine ⟨text.zipIdx n ++ stores', t', ?_, ?_⟩
    · cases hstored' with
      | more h' =>
        rw [← List.zipIdx_append, Nat.add_assoc, ← List.length_append]
        exact Stored.more (by rw [List.length_append]; omega)
      | trunc h' k hk =>
        have htake : (text ++ l).take (127 - n) =
            text ++ l.take (127 - (n + text.length)) := by
          rw [List.take_append, List.take_of_length_le (by omega), Nat.sub_sub]
        rw [← List.zipIdx_append, ← htake]
        exact Stored.trunc (by rw [List.length_append]; omega) k hk
    · intro args m
      change (f args m >>= fun t => t.andThen (g args)) = _
      rw [hf, storeAll_append, bind_assoc, bind_assoc]
      exact bind_congr fun m => hg args m
  | trunc h k hk =>
    refine ⟨(text.take (127 - n)).zipIdx n, .trunc k, ?_, ?_⟩
    · rw [← List.take_append_of_le_length (by omega : 127 - n ≤ text.length)]
      exact Stored.trunc (by rw [List.length_append]; omega) k hk
    · intro args m
      change (f args m >>= fun t => t.andThen (g args)) = _
      rw [hf, bind_assoc]
      rfl

theorem storeAll_singleton (args : UInt32) (c : UInt8) (n : Nat) (m : Memory) :
    storeAll args [(c, n)] m = poke (args.toNat + n) [c] m := bind_pure _

theorem putChar_puts (c : UInt8) (hn : n ≤ 126) : Puts n [c] fun args => putChar args c n := by
  by_cases h : n = 126
  · subst h
    refine ⟨_, _, Stored.trunc (by simp) 127 (Or.inr rfl), fun args m => ?_⟩
    exact congrArg (· >>= _) (storeAll_singleton args c 126 m).symm
  · have hgoto : ¬n + 1 > maxTosArg := by
      rw [maxTosArg]
      omega
    refine ⟨_, _, Stored.more (by rw [List.length_singleton]; omega), fun args m => ?_⟩
    simp only [putChar, hgoto, if_false]
    exact congrArg (· >>= _) (storeAll_singleton args c n m).symm

theorem putQuote_puts (hn : n ≤ 126) : Puts n [quote] fun args => putQuote args n := by
  obtain ⟨stores, t, hstored, hf⟩ := @putChar_puts n quote hn
  change ∀ args m, putChar args quote n m = _ at hf
  cases hstored with
  | more h =>
    refine ⟨_, _, Stored.more h, fun args m => ?_⟩
    change putQuote args n m = _
    rw [putQuote, hf, bind_assoc]
    rfl
  | trunc h k hk =>
    -- `n` is 126 here, and the code backs up over what it has just stored
    obtain rfl : n = 126 := by
      rw [List.length_singleton] at h
      omega
    refine ⟨_, _, Stored.trunc h 126 (Or.inl rfl), fun args m => ?_⟩
    change putQuote args 126 m = _
    rw [putQuote, putChar]
    simp only [bind_assoc]
    exact congrArg (· >>= _) (storeAll_singleton args quote 126 m).symm

theorem putChars_puts (l : List UInt8) (hn : n ≤ 126) : Puts n l fun args => putChars args l n := by
  induction l generalizing n with
  | nil => exact Puts.nil hn
  | cons c l ih => exact (putChar_puts c hn).andThen fun h => ih h

theorem putArg_puts (arg : List UInt8) (hn : n ≤ 126) :
    Puts n (blank :: quoted arg) fun args => putArg args arg n := by
  refine (putChar_puts blank hn).andThen fun h => ?_
  by_cases harg : arg = []
  · simp only [harg, if_true]
    exact (putQuote_puts h).andThen fun h' => putChar_puts quote h'
  · simp only [harg, if_false]
    exact putChars_puts arg h

theorem putArgs_puts (argv : List (List UInt8)) (hn : n ≤ 126) :
    Puts n (tailText argv) fun args => putArgs args argv n := by
  induction argv generalizing n with
  | nil => exact Puts.nil hn
  | cons arg argv ih => exact (putArg_puts arg hn).andThen fun h => ih h

/-- What the memory is after stores of consecutive characters. -/
theorem storeAll_zipIdx (args : UInt32) (l : List UInt8) :
    ∀ n m m', storeAll args (l.zipIdx n) m = Except.ok m' → m' = write m (args.toNat + n) l := by
  induction l with
  | nil =>
    intro n m m' h
    rw [write_nil]
    exact (Run.ok_inj.mp h).symm
  | cons c l ih =>
    intro n m m' h
    obtain ⟨m₁, hpoke, hrest⟩ := Run.bind_eq_ok.mp h
    rw [ih _ _ _ hrest, (poke_iff.mp hpoke).2, ← Nat.add_assoc]
    exact write_cons m (args.toNat + n) c l

/-- What a tail says that was filled without or with a `goto trunc`: a length of at most
    125 and the text, or 127 and the first 125 or 126 characters of it with a NUL. -/
def Says (args : UInt32) (text : List UInt8) (m : Memory) : Tail → Prop
  | .more _ _ => text.length ≤ 125 ∧ Shows m args.toNat (UInt8.ofNat text.length :: text)
  | .trunc _ _ => 126 ≤ text.length ∧ ∃ k, (k = 125 ∨ k = 126) ∧
    Shows m args.toNat (127 :: text.take k ++ [0])

/-- The code of the command tail stores characters at the indices 0 to 127 of the buffer
    and nowhere else, the same ones for every buffer and memory, and says with them what
    the arguments are. -/
theorem buildTail_stores (argv : List (List UInt8)) :
    ∃ stores, (∀ s ∈ stores, s.2 < 128) ∧
      (∀ args m, buildTail args argv m = storeAll args stores m) ∧
      ∀ args m t m', putArgs args argv.tail 1 m = Except.ok t →
        buildTail args argv m = Except.ok m' → Says args (tailText argv.tail) m' t := by
  obtain ⟨stores, t, hstored, hputs⟩ := @putArgs_puts 1 argv.tail (by decide)
  change ∀ args m, putArgs args argv.tail 1 m = _ at hputs
  generalize tailText argv.tail = text at hstored
  cases hstored with
  | more h =>
    have hbuild : ∀ args m, buildTail args argv m =
        storeAll args (text.zipIdx 1 ++ [(UInt8.ofNat text.length, 0)]) m := by
      intro args m
      rw [buildTail, hputs, bind_assoc, storeAll_append]
      refine bind_congr fun m => ?_
      rw [Run.ok_bind, storeAll_singleton, Nat.add_comm 1]
      rfl
    refine ⟨_, ?_, hbuild, ?_⟩
    · intro s hs
      rcases List.mem_append.mp hs with hs | hs
      · have hlt := List.snd_lt_add_of_mem_zipIdx hs
        omega
      · rw [List.mem_singleton.mp hs]
        exact Nat.zero_lt_succ 127
    · intro args m t m' ht hm'
      rw [hbuild, storeAll_append] at hm'
      obtain ⟨m₁, hm₁, hm'⟩ := Run.bind_eq_ok.mp hm'
      rw [hputs, hm₁, Run.ok_bind, Run.ok_inj] at ht
      rw [storeAll_singleton, poke_iff] at hm'
      have hfront := write_front m args.toNat (UInt8.ofNat text.length) text
      rw [← storeAll_zipIdx args text 1 m m₁ hm₁] at hfront
      rw [← ht, hm'.2]
      refine ⟨by omega, ?_⟩
      rw [Nat.add_zero, hfront]
      exact shows_write m args.toNat _
  | trunc h k hk =>
    have hbuild : ∀ args m, buildTail args argv m =
        storeAll args ((text.take 126).zipIdx 1 ++ [(0, k), (127, 0)]) m := by
      intro args m
      rw [buildTail, hputs, bind_assoc, storeAll_append]
      refine bind_congr fun m => ?_
      rw [Run.ok_bind, storeAll]
      refine bind_congr fun m => ?_
      rw [storeAll_singleton]
      rfl
    refine ⟨_, ?_, hbuild, ?_⟩
    · intro s hs
      rcases List.mem_append.mp hs with hs | hs
      · have hlt := List.snd_lt_add_of_mem_zipIdx hs
        have hlen : (text.take 126).length ≤ 126 := List.length_take_le 126 text
        omega
      · rcases List.mem_pair.mp hs with rfl | rfl
        · change k < 128
          omega
        · exact Nat.zero_lt_succ 127
    · intro args m t m' ht hm'
      rw [hbuild, storeAll_append] at hm'
      obtain ⟨m₁, hm₁, hm'⟩ := Run.bind_eq_ok.mp hm'
      rw [hputs, hm₁, Run.ok_bind, Run.ok_inj] at ht
      rw [storeAll] at hm'
      obtain ⟨m₂, hnul, hm'⟩ := Run.bind_eq_ok.mp hm'
      rw [storeAll_singleton, poke_iff] at hm'
      rw [poke_iff] at hnul
      -- the NUL goes over the last character, or behind it
      have hsplit : text.take 126 = text.take (k - 1) ++ (text.drop (k - 1)).take (127 - k) := by
        rw [← List.take_add]
        congr 1
        omega
      have hlen : (text.take (k - 1)).length = k - 1 := by
        rw [List.length_take]
        omega
      have haddr : args.toNat + k = args.toNat + 1 + (text.take (k - 1)).length := by omega
      have hover := @write_over _ m (args.toNat + 1) (text.take (k - 1))
        ((text.drop (k - 1)).take (127 - k)) [0] (by
          rw [List.length_take, List.length_singleton]
          omega)
      have hfront := write_front m args.toNat 127 (text.take (k - 1) ++ [0])
      rw [← hover, ← hsplit, ← haddr, ← storeAll_zipIdx args _ 1 m m₁ hm₁, ← hnul.2] at hfront
      rw [← ht, hm'.2]
      refine ⟨by omega, k - 1, by omega, ?_⟩
      rw [Nat.add_zero, hfront]
      exact shows_write m args.toNat _

end Stores

/-! ### What the strings say -/

/-- An argument among the strings. -/
def shown (arg : List UInt8) : List UInt8 := if arg = [] then [blank] else arg

/-- The list of empty arguments in the value of `ARGV`. -/
def nullsText : List (List UInt8) → Nat → Bool → List UInt8
  | [], _, _ => []
  | arg :: argv, i, nullAdded =>
    if arg = [] then nullName nullAdded i ++ nullsText argv (i + 1) true
    else nullsText argv (i + 1) nullAdded

/-- The `ARGV` string that is written to `env`. -/
def argvEntry (m : Memory) (env : Nat) (argv : List (List UInt8)) : List UInt8 :=
  writtenText m env (ascii "ARGV=") 5 ++ nullsText argv 0 false

/-- Only a byte behind the place of `ARGV=` can slip into the string. -/
theorem argvEntry_congr {m m' : Memory} {env : Nat} (argv : List (List UInt8))
    (h : ∀ x, env ≤ x → m' x = m x) : argvEntry m' env argv = argvEntry m env argv := by
  unfold argvEntry writtenText
  rw [h _ (Nat.le_add_right env _)]

theorem ascii_toString_length {i : Nat} (h : i < 2 ^ 31) : (ascii (toString i)).length ≤ 10 := by
  have hdigits : (Nat.toDigits 10 i).length ≤ 10 :=
    (Nat.length_toDigits_le_iff (by decide) (by decide)).mpr (by omega)
  rw [ascii, List.length_map, Nat.toString_eq_ofList_toDigits, String.toList_ofList]
  exact hdigits

theorem nullName_length (nullAdded : Bool) {i : Nat} (h : i < 2 ^ 31) :
    (nullName nullAdded i).length < 20 := by
  have hdigits := ascii_toString_length h
  have hword : (if nullAdded then ascii "," else ascii "NULL:").length ≤ 5 := by
    cases nullAdded <;> decide
  rw [nullName, List.length_take, List.length_append]
  omega

section Strings

variable {m : Memory} {a : UInt32} {r : UInt32 × Memory}

/-- A string laid over the NUL behind a text. -/
theorem writeString_behind {t s : List UInt8} {maxLen : UInt32}
    (ht : a.toNat + t.length ≤ 0x1000000) (hs : s.length < maxLen.toNat) :
    writeString (a + UInt32.ofNat t.length) s maxLen (write m a.toNat (t ++ [0])) =
        Except.ok r ↔
      a.toNat + (t ++ s).length + 1 ≤ 0x1000000 ∧
        r = (UInt32.ofNat s.length, write m a.toNat (t ++ s ++ [0])) := by
  have haddr := toNat_advance ht
  rw [writeString_short (by omega) hs, haddr, write_over, List.length_append,
    List.append_assoc, Nat.add_assoc a.toNat t.length]
  simp

theorem writeNulls_eq_ok {argv : List (List UInt8)} {i : Nat} {nullAdded : Bool}
    (hi : i + argv.length < 2 ^ 31) {t : List UInt8}
    (ht : a.toNat + t.length + 1 ≤ 0x1000000) :
    writeNulls argv i nullAdded (a + UInt32.ofNat t.length) (write m a.toNat (t ++ [0])) =
        Except.ok r ↔
      a.toNat + (t ++ nullsText argv i nullAdded).length + 1 ≤ 0x1000000 ∧
        r = (a + UInt32.ofNat (t ++ nullsText argv i nullAdded).length,
          write m a.toNat (t ++ nullsText argv i nullAdded ++ [0])) := by
  induction argv generalizing i nullAdded t with
  | nil =>
    simp only [writeNulls, nullsText, List.append_nil, Run.ok_inj, ht, true_and]
    exact eq_comm
  | cons arg argv ih =>
    rw [List.length_cons] at hi
    unfold writeNulls nullsText
    split
    · have hname := @nullName_length nullAdded i (by omega)
      simp only [Run.bind_eq_ok]
      rw [← List.append_assoc]
      constructor
      · rintro ⟨_, hwrite, hrest⟩
        obtain ⟨hfit, rfl⟩ := (writeString_behind (by omega) hname).mp hwrite
        rw [advance_advance, ← List.length_append] at hrest
        exact (ih (by omega) hfit).mp hrest
      · rintro ⟨hfit, rfl⟩
        have hfit' : a.toNat + (t ++ nullName nullAdded i).length + 1 ≤ 0x1000000 := by
          rw [List.length_append] at hfit
          omega
        refine ⟨_, (writeString_behind (by omega) hname).mpr ⟨hfit', rfl⟩, ?_⟩
        rw [advance_advance, ← List.length_append]
        exact (ih (by omega) hfit').mpr ⟨hfit, rfl⟩
    · exact ih (by omega) ht

/-- A second NUL over the first changes nothing. -/
theorem nul_again {t : List UInt8} (ht : a.toNat + t.length + 1 ≤ 0x1000000) :
    writeMemory8 (a + UInt32.ofNat t.length) 0 (write m a.toNat (t ++ [0])) =
      Except.ok (write m a.toNat (t ++ [0])) := by
  have haddr : (a + UInt32.ofNat t.length).toNat = a.toNat + t.length :=
    toNat_advance (by omega)
  rw [writeMemory8_eq_ok (by omega), haddr, write_over m a.toNat t (Nat.le_refl _)]
  exact ⟨ht, rfl⟩

/-- An argument and the NUL behind it. -/
theorem writeArg_nul {arg : List UInt8} (ha : a.toNat ≤ 0x1000000) :
    (∃ p m', writeArg arg a m = Except.ok p ∧ writeMemory8 p.1 0 p.2 = Except.ok m' ∧
        r = (p.1 + 1, m')) ↔
      a.toNat + (shown arg ++ [0]).length ≤ 0x1000000 ∧
        r = (a + UInt32.ofNat (shown arg ++ [0]).length, write m a.toNat (shown arg ++ [0])) := by
  rw [List.length_append, List.length_singleton, ← advance_advance]
  unfold writeArg
  by_cases harg : arg = []
  · have hshown : shown arg = [blank] := if_pos harg
    have hover := write_cons m a.toNat blank [0]
    rw [hshown, List.length_singleton, if_pos harg]
    simp only [Run.bind_eq_ok, writeMemory8_eq_ok ha]
    constructor
    · rintro ⟨p, m', ⟨_, ⟨hblank, rfl⟩, hp⟩, hnul, rfl⟩
      obtain rfl := Run.ok_inj.mp hp
      have hnext : (a + 1).toNat = a.toNat + 1 := @toNat_advance a 1 hblank
      dsimp only at hnul
      rw [writeMemory8_eq_ok (by omega), hnext, hover] at hnul
      obtain ⟨hfit, rfl⟩ := hnul
      exact ⟨by omega, rfl⟩
    · rintro ⟨hfit, rfl⟩
      have hnext : (a + 1).toNat = a.toNat + 1 := @toNat_advance a 1 (by omega)
      refine ⟨_, _, ⟨_, ⟨by omega, rfl⟩, rfl⟩, ?_, rfl⟩
      dsimp only
      rw [writeMemory8_eq_ok (by omega), hnext, hover]
      exact ⟨by omega, rfl⟩
  · have hshown : shown arg = arg := if_neg harg
    have hmax : (0x7fffffff : UInt32).toNat = 0x7fffffff := rfl
    rw [hshown, if_neg harg]
    simp only [Run.bind_eq_ok]
    constructor
    · rintro ⟨p, m', ⟨q, hstring, hp⟩, hnul, rfl⟩
      obtain rfl := Run.ok_inj.mp hp
      have hshort : arg.length < (0x7fffffff : UInt32).toNat := by
        apply Classical.byContradiction
        intro hlong
        have hlen := ((writeString_eq_ok ha).mp hstring).1
        rw [writtenText, if_neg hlong, List.length_append, List.length_take] at hlen
        omega
      obtain ⟨hfit, rfl⟩ := (writeString_short ha hshort).mp hstring
      obtain rfl := Run.ok_inj.mp (hnul.symm.trans (nul_again hfit))
      exact ⟨hfit, rfl⟩
    · rintro ⟨hfit, rfl⟩
      exact ⟨_, _, ⟨_, (writeString_short ha (by omega)).mpr ⟨hfit, rfl⟩, rfl⟩,
        nul_again hfit, rfl⟩

theorem writeArgs_eq_ok {argv : List (List UInt8)} (ha : a.toNat ≤ 0x1000000) :
    writeArgs argv a m = Except.ok r ↔
      a.toNat + (pack (argv.map shown)).length ≤ 0x1000000 ∧
        r = (a + UInt32.ofNat (pack (argv.map shown)).length,
          write m a.toNat (pack (argv.map shown))) := by
  induction argv generalizing a m with
  | nil => simp [writeArgs, ha, eq_comm]
  | cons arg argv ih =>
    have hround : writeArgs (arg :: argv) a m = Except.ok r ↔
        ∃ q, (∃ p m', writeArg arg a m = Except.ok p ∧ writeMemory8 p.1 0 p.2 = Except.ok m' ∧
          q = (p.1 + 1, m')) ∧ writeArgs argv q.1 q.2 = Except.ok r := by
      simp only [writeArgs, Run.bind_eq_ok]
      constructor
      · rintro ⟨p, hp, m', hm', hrest⟩
        exact ⟨_, ⟨p, m', hp, hm', rfl⟩, hrest⟩
      · rintro ⟨_, ⟨p, m', hp, hm', rfl⟩, hrest⟩
        exact ⟨p, hp, m', hm', hrest⟩
    rw [hround, List.map_cons, pack_cons, List.length_append, ← advance_advance]
    simp only [writeArg_nul ha]
    constructor
    · rintro ⟨_, ⟨hfit, rfl⟩, hrest⟩
      have hnext := toNat_advance hfit
      dsimp only at hrest
      rw [ih (by omega), hnext, write_append] at hrest
      exact ⟨by omega, hrest.2⟩
    · rintro ⟨hfit, rfl⟩
      have hfit' : a.toNat + (shown arg ++ [0]).length ≤ 0x1000000 := by omega
      have hnext := toNat_advance hfit'
      refine ⟨_, ⟨hfit', rfl⟩, ?_⟩
      dsimp only
      rw [ih (by omega), hnext, write_append]
      exact ⟨by omega, rfl⟩

/-- The strings return when they end inside the RAM. -/
theorem buildStrings_eq_ok {argv : List (List UInt8)} (hargv : argv.length < 2 ^ 31)
    (ha : a.toNat ≤ 0x1000000) :
    buildStrings argv a m = Except.ok r ↔
      a.toNat + (pack (argvEntry m a.toNat argv :: argv.map shown)).length ≤ 0x1000000 ∧
        r = (a + UInt32.ofNat (pack (argvEntry m a.toNat argv :: argv.map shown)).length,
          write m a.toNat (pack (argvEntry m a.toNat argv :: argv.map shown))) := by
  have hlong : (5 : UInt32).toNat ≤ (ascii "ARGV=").length := by decide
  have hnext : ∀ t : List UInt8, a + UInt32.ofNat t.length + 1 =
      a + UInt32.ofNat (t ++ [0]).length := by
    intro t
    rw [List.length_append]
    exact advance_advance a t.length 1
  have hentry : ∀ q, a.toNat + (writtenText m a.toNat (ascii "ARGV=") 5).length + 1 ≤ 0x1000000 →
      (writeNulls argv 0 false
          (a + UInt32.ofNat (writtenText m a.toNat (ascii "ARGV=") 5).length)
          (write m a.toNat (writtenText m a.toNat (ascii "ARGV=") 5 ++ [0])) = Except.ok q ↔
        a.toNat + (argvEntry m a.toNat argv).length + 1 ≤ 0x1000000 ∧
          q = (a + UInt32.ofNat (argvEntry m a.toNat argv).length,
            write m a.toNat (argvEntry m a.toNat argv ++ [0]))) :=
    fun q h => writeNulls_eq_ok (by omega) h
  have hlonger : (writtenText m a.toNat (ascii "ARGV=") 5).length ≤
      (argvEntry m a.toNat argv).length := by
    rw [argvEntry, List.length_append]
    omega
  rw [pack_cons, List.length_append, ← advance_advance]
  unfold buildStrings
  simp only [Run.bind_eq_ok, writeString_eq_ok ha]
  constructor
  · rintro ⟨_, ⟨hfit, rfl⟩, q, hnulls, m', hnul, hrest⟩
    obtain ⟨hfit', rfl⟩ := (hentry q hfit).mp hnulls
    obtain rfl := Run.ok_inj.mp (hnul.symm.trans (nul_again hfit'))
    have hfit'' : a.toNat + (argvEntry m a.toNat argv ++ [0]).length ≤ 0x1000000 := by
      rw [List.length_append]
      exact hfit'
    have haddr := toNat_advance hfit''
    dsimp only at hrest
    rw [hnext, writeArgs_eq_ok (by omega), haddr, write_append] at hrest
    exact ⟨by omega, hrest.2⟩
  · rintro ⟨hfit, rfl⟩
    have hfit'' : a.toNat + (argvEntry m a.toNat argv ++ [0]).length ≤ 0x1000000 := by
      omega
    have haddr := toNat_advance hfit''
    rw [List.length_append, List.length_singleton] at hfit''
    refine ⟨_, ⟨by omega, rfl⟩, _, (hentry _ (by omega)).mpr ⟨by omega, rfl⟩, _,
      nul_again (by omega), ?_⟩
    dsimp only
    rw [hnext, writeArgs_eq_ok (by omega), haddr, write_append]
    exact ⟨by omega, rfl⟩

end Strings

/-- `BuildTosArglist` writes the tail, whatever the arguments are, and then the strings. -/
theorem buildTosArglist_spec {args env : UInt32} {argv : List (List UInt8)} (m : Memory)
    (hargv : argv.length < 2 ^ 31) (hargs : args.toNat + 128 ≤ env.toNat)
    (henv : env.toNat ≤ 0x1000000) :
    ∃ m₁, TailHolds args m (tailText argv.tail) m₁ ∧
      ∀ r, buildTosArglist args argv env m = Except.ok r ↔
        env.toNat + (pack (argvEntry m env.toNat argv :: argv.map shown)).length ≤ 0x1000000 ∧
          r = (env + UInt32.ofNat (pack (argvEntry m env.toNat argv :: argv.map shown)).length,
            write m₁ env.toNat (pack (argvEntry m env.toNat argv :: argv.map shown))) := by
  obtain ⟨m₁, htail, hholds⟩ := @buildTail_spec args (by omega) argv m
  have hsame : argvEntry m₁ env.toNat argv = argvEntry m env.toNat argv :=
    argvEntry_congr argv fun x hx => hholds.outside (by omega)
  refine ⟨m₁, hholds, ?_⟩
  intro r
  rw [buildTosArglist, htail, Run.ok_bind, buildStrings_eq_ok hargv henv, hsame]

end ParaTos.ArgList
