/-
  ParaTos/PexecBlock.lean
  =======================
  **The block behind `argv` and `envp`** (`read_env`, `parse_cmdline` and
  `prepare_args` in `gemdos/pexec.c`).

  `Pexec.lean` has the pointer array as a list of slots, with the characters of the
  arguments beside it.  In the source both are one block of host `malloc`, whose
  size and layout `prepare_args` works out by hand: the pointers of `envp`, those
  of `argv`, and behind them the characters that the second call of `parse_cmdline`
  writes.  This module has the same three functions on that block, byte by byte,
  with the two calls of `parse_cmdline` as two calls, and every pointer in the block
  as an offset.

  `buffer` is counted from the byte that it starts at.
-/
import ParaTos.Pexec
import ParaTos.WordBlock

namespace ParaTos.PexecBlock

open Bytes Memory CString CommandLine Pexec WordBlock

/-- `char*`, `none` being `NULL`. -/
abbrev Word := Option CharPtr

abbrev Heap := HostBlock Word

/-! ### read_env -/

/-- The loop that fills the array. -/
def fillLoop (m : Memory) (src srcChars i current j : Nat) (b : Heap) : Run Heap :=
  if i < srcChars then do
    let c ← peek (src + i) m
    if c = 0 then do
      let b ← b.store (.word (wordSize * j) (some (.guest current)))
      fillLoop m src srcChars (i + 1) (src + i + 1) (j + 1) b
    else fillLoop m src srcChars (i + 1) current j b
  else Except.ok b
termination_by srcChars - i

/-- `read_env(address, out_size)` -/
def readEnv (address : UInt32) (m : Memory) : Run (Heap × Nat) := do
  let (srcChars, arrayCount) ← countLoop m address.toNat 0 0 0
  let b := HostBlock.malloc (wordSize * (arrayCount + 2))
  let b ← fillLoop m address.toNat srcChars 0 address.toNat 0 b
  let b ← b.store (.word (wordSize * arrayCount) none)
  return (b, arrayCount)

/-! ### parse_cmdline -/

/-- The variables of `parse_cmdline` that a call may not have, and the block they lead to.
    `argCountp` is what `arg_countp` points to. -/
structure Pass where
  block : Heap
  argv : Option Nat
  buffer : Option Nat
  argCountp : Option Nat
  byteCount : Nat

/-- `if (arg_countp) (*arg_countp)++;` -/
def Pass.count (s : Pass) : Pass := { s with argCountp := s.argCountp.map (· + 1) }

/-- `if (argv && buffer) *(argv++) = buffer;` and the count. -/
def Pass.start (s : Pass) : Run Pass :=
  match s.argv, s.buffer with
  | some argv, some buffer => do
    let block ← s.block.store (.word argv (some (.bytes buffer)))
    return Pass.count { s with block, argv := some (argv + wordSize) }
  | _, _ => return s.count

/-- `if (buffer) *buffer++ = c; byte_count++;`, the buffer starting at `chars`. -/
def Pass.put (chars : Nat) (c : UInt8) (s : Pass) : Run Pass :=
  match s.buffer with
  | some buffer => do
    let block ← s.block.store (.char (chars + buffer) c)
    return { s with block, buffer := some (buffer + 1), byteCount := s.byteCount + 1 }
  | none => return { s with byteCount := s.byteCount + 1 }

/-- `if (argv) *(argv++) = NULL;` -/
def Pass.close (s : Pass) : Run Pass :=
  match s.argv with
  | some argv => do
    let block ← s.block.store (.word argv none)
    return { s with block, argv := some (argv + wordSize) }
  | none => return s

/-- The `for` loop of `parse_cmdline`, as in `CommandLine.parseLoop`. -/
def passLoop (m : Memory) (chars cmd length i : Nat) (state : State) (s : Pass) : Run Pass :=
  if i < length then do
    let c ← peek (cmd + i) m
    if c = 0 then return s
    match state with
    | .bl =>
      if isBlank c then passLoop m chars cmd length (i + 1) .bl s
      else do
        let s ← s.start
        passLoop m chars cmd length i .char s
    | .char =>
      if isBlank c then do
        let s ← s.put chars 0
        passLoop m chars cmd length (i + 1) .bl s
      else if c = Quote.dq.mark then passLoop m chars cmd length (i + 1) (.quoted .dq) s
      else if c = Quote.sq.mark then passLoop m chars cmd length (i + 1) (.quoted .sq) s
      else do
        let s ← s.put chars c
        passLoop m chars cmd length (i + 1) .char s
    | .quoted q =>
      if c = q.mark then do
        let next ← peek (cmd + i + 1) m
        if next ≠ q.mark then passLoop m chars cmd length (i + 1) .char s
        else do
          let s ← s.put chars q.mark
          passLoop m chars cmd length (i + 3) (.quoted q) s
      else passLoop m chars cmd length (i + 1) (.quoted q) s
  else return s
termination_by 2 * (length - i) + if state = .bl then 1 else 0
decreasing_by all_goals simp; try omega

/-- `parse_cmdline(cmdline, argv, buffer, arg_countp, buffer_sizep)` -/
def parseCmdline (chars : Nat) (cmdline : UInt32) (m : Memory) (s : Pass) : Run Pass := do
  let length ← readMemory8 cmdline m
  let s ← passLoop m chars (cmdline.toNat + 1) length.toNat 0 .bl s
  let s ← s.put chars 0
  s.close

/-! ### prepare_args -/

/-- The local variables of the old-style command line, and the stores of the second call
    of `parse_cmdline`. -/
structure Tail where
  argCount : Nat
  byteCount : Nat
  chars : Nat
  stores : List (Store Word)

/-- What `prepare_args` comes to: the block, which `envp` points to, where `argv` points,
    the path to execute, what the old-style command line left, and the stores of the loop
    that shifts `argv`. -/
structure Prepared where
  block : Heap
  argv : Nat
  path : CharPtr
  tail : Option Tail
  shift : List (Store Word)

/-- The search for `ARGV`. -/
def findArgv (host : Host) (m : Memory) (b : Heap) (i : Nat) : Run (Option Nat) :=
  if wordSize * i < b.size then do
    match ← b.load (wordSize * i) with
    | none => Except.error .badPointer
    | some none => return none
    | some (some p) => do
      let s ← deref host [] m p
      if isArgv s then return some i
      findArgv host m b (i + 1)
  else Except.error .overrun
termination_by b.size - wordSize * i
decreasing_by
  simp only [wordSize] at *
  omega

/-- The `ARGV` procedure. -/
def argvFromEnv (host : Host) (cmdline : UInt32) (b : Heap) (m : Memory) :
    Run (Option Prepared) := do
  let cmdLength ← readMemory8 cmdline m
  if cmdLength = 127 then
    match ← findArgv host m b 0 with
    | some i =>
      let b ← b.store (.word (wordSize * i) none)
      return some ⟨b, wordSize * (i + 1), .path, none, []⟩
    | none => return none
  else return none

/-- The old-style command line. -/
def argvFromTail (cmdline : UInt32) (b : Heap) (envSz : Nat) (m : Memory) : Run Prepared := do
  let counted ← parseCmdline 0 cmdline m ⟨b, none, none, some 1, 0⟩
  let argCount ← Run.ofOption .badPointer counted.argCountp
  let byteCount := counted.byteCount
  let newEnvSize := (envSz + argCount + 3) * wordSize + byteCount
  let b := counted.block.realloc newEnvSize
  let argv := wordSize * (envSz + 1)
  let chars := argv + wordSize * (argCount + 2)
  let b ← b.store (.word argv (some .path))
  let filled ← parseCmdline chars cmdline m ⟨b, some (argv + wordSize), some 0, none, 0⟩
  let stores := filled.block.stores.drop b.stores.length
  return ⟨filled.block, argv, .path, some ⟨argCount, byteCount, chars, stores⟩, []⟩

/-- The loop that moves `argv` up by one slot, `i` being the slot it is at. -/
def shiftLoop (argv : Nat) : Nat → Nat → Option Word → Heap → Run Heap
  | 0, _, _, _ => Except.error .diverges
  | rounds + 1, i, prev, b => do
    let next ← b.load (argv + wordSize * i)
    let prev ← Run.ofOption .badPointer prev
    let b ← b.store (.word (argv + wordSize * i) prev)
    if prev = none then return b
    shiftLoop argv rounds (i + 1) next b

/-- ParaTos in front of the command line. -/
def prependParatos (a : Prepared) : Run Prepared := do
  let prev ← a.block.load a.argv
  let b ← shiftLoop a.argv a.block.size 1 prev a.block
  let shift := b.stores.drop a.block.stores.length
  let b ← b.store (.word a.argv (some .paratosExe))
  return { a with block := b, path := .paratosExe, shift }

/-- `prepare_args(out_argv, out_env, pathp, cmdline, env)` -/
def prepareArgs (host : Host) (cmdline env : UInt32) (m : Memory) : Run Prepared := do
  let (b, envSz) ← readEnv env m
  let found ← argvFromEnv host cmdline b m
  let a ← match found with
    | some a => Except.ok a
    | none => argvFromTail cmdline b envSz m
  if host.magic = some 0x601a then prependParatos a else return a

/-- The pointers from an offset up to the null pointer. -/
def vector (b : Heap) (offset : Nat) : Run (List CharPtr) :=
  if offset < b.size then do
    match ← b.load offset with
    | none => Except.error .badPointer
    | some none => return []
    | some (some p) => do
      let ps ← vector b (offset + wordSize)
      return p :: ps
  else Except.error .overrun
termination_by b.size - offset
decreasing_by
  simp only [wordSize] at *
  omega

end ParaTos.PexecBlock
