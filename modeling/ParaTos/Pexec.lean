/-
  ParaTos/Pexec.lean
  ==================
  **Preparing `argv` and `envp`** (`read_env` and `prepare_args` in `gemdos/pexec.c`).

  `Pexec` hands a program on to `execve`.  `read_env` makes an array of pointers to
  the strings of the environment block that the guest passes.  When the length byte
  of the command tail is 127, `prepare_args` takes the arguments from behind the
  `ARGV` string in that block, and ends the environment there; otherwise it has
  `parse_cmdline` put them, and the pointers to them, behind the environment
  pointers.  For a program that is a TOS executable itself ParaTos goes in front.

  The pointer array is a list of slots.  A slot that was never written is junk, and
  a store or a search that leaves the array is a fault.
-/
import ParaTos.CommandLine

namespace ParaTos.Pexec

open Bytes Memory CString CommandLine

/-- The strings that the pointers can point to. -/
inductive CharPtr where
  /-- in the emulated memory -/
  | guest (offset : Nat)
  /-- in the part of the array's block that holds characters -/
  | bytes (offset : Nat)
  /-- the path of the program -/
  | path
  /-- the path of ParaTos -/
  | paratosExe
deriving DecidableEq, Repr

/-- An element of the pointer array. -/
inductive Slot where
  | junk
  | null
  | ptr (p : CharPtr)
deriving DecidableEq, Repr

/-- What `Pexec` knows about the host: the path of the program and of ParaTos, and the
    first two bytes of the program if it can be opened. -/
structure Host where
  path : List UInt8
  paratosExe : List UInt8
  magic : Option UInt16

def getSlot (slots : List Slot) (i : Nat) : Run Slot := Run.ofOption .overrun slots[i]?

def setSlot (slots : List Slot) (i : Nat) (v : Slot) : Run (List Slot) :=
  if i < slots.length then Except.ok (slots.set i v) else Except.error .overrun

/-- Stores to consecutive slots. -/
def setSlots : List Slot → Nat → List Slot → Run (List Slot)
  | slots, _, [] => Except.ok slots
  | slots, i, v :: vs => do
    let slots ← setSlot slots i v
    setSlots slots (i + 1) vs

/-- The string at an offset of the emulated memory. -/
def stringAt (m : Memory) (a : Nat) : Run (List UInt8) :=
  if Mapped a then
    if m a = 0 then Except.ok [] else do
      let s ← stringAt m (a + 1)
      return m a :: s
  else Except.error .segv
termination_by 2 ^ 32 - a
decreasing_by
  have hlt := mapped_lt ‹_›
  omega

/-- The string a pointer points to, `bytes` being the characters in the array's block. -/
def deref (host : Host) (bytes : List UInt8) (m : Memory) : CharPtr → Run (List UInt8)
  | .guest a => stringAt m a
  | .bytes o => cstr (bytes.drop o)
  | .path => Except.ok host.path
  | .paratosExe => Except.ok host.paratosExe

/-! ### read_env -/

/-- The loop that counts: `src_chars` and `array_count`. -/
def countLoop (m : Memory) (src srcChars currentStrsz arrayCount : Nat) : Run (Nat × Nat) :=
  if Mapped (src + srcChars) then
    if m (src + srcChars) = 0 then
      if currentStrsz = 0 then Except.ok (srcChars + 1, arrayCount)
      else countLoop m src (srcChars + 1) 0 (arrayCount + 1)
    else countLoop m src (srcChars + 1) (currentStrsz + 1) arrayCount
  else Except.error .segv
termination_by 2 ^ 32 - (src + srcChars)
decreasing_by
  all_goals
    have hlt := mapped_lt ‹_›
    omega

/-- The loop that fills the array. -/
def fillLoop (m : Memory) (src srcChars i current j : Nat) (slots : List Slot) :
    Run (List Slot) :=
  if i < srcChars then do
    let c ← peek (src + i) m
    if c = 0 then do
      let slots ← setSlot slots j (.ptr (.guest current))
      fillLoop m src srcChars (i + 1) (src + i + 1) (j + 1) slots
    else fillLoop m src srcChars (i + 1) current j slots
  else Except.ok slots
termination_by srcChars - i

/-- `read_env(address, out_size)` -/
def readEnv (address : UInt32) (m : Memory) : Run (List Slot × Nat) := do
  let (srcChars, arrayCount) ← countLoop m address.toNat 0 0 0
  let slots ← fillLoop m address.toNat srcChars 0 address.toNat 0
    (List.replicate (arrayCount + 2) .junk)
  let slots ← setSlot slots arrayCount .null
  return (slots, arrayCount)

/-! ### prepare_args -/

/-- `strcmp("ARGV", s) == 0 || strncmp("ARGV=", s, 5) == 0` -/
def isArgv (s : List UInt8) : Bool := s = ascii "ARGV" || (ascii "ARGV=").isPrefixOf s

/-- The search for `ARGV`: its index in the array. -/
def findArgv (host : Host) (m : Memory) : List Slot → Nat → Run (Option Nat)
  | [], _ => Except.error .overrun
  | .junk :: _, _ => Except.error .badPointer
  | .null :: _, _ => Except.ok none
  | .ptr p :: slots, i => do
    let s ← deref host [] m p
    if isArgv s then return some i
    findArgv host m slots (i + 1)

/-- What `prepare_args` comes to: the array, which `envp` points to, the characters behind
    it, the index of `argv[0]`, and the path to execute. -/
structure Args where
  slots : List Slot
  bytes : List UInt8
  argv : Nat
  path : CharPtr

/-- The `ARGV` procedure: the arguments stand at the end of the environment. -/
def argvFromEnv (host : Host) (cmdline : UInt32) (slots : List Slot) (m : Memory) :
    Run (Option Args) := do
  let cmdLength ← readMemory8 cmdline m
  if cmdLength = 127 then
    match ← findArgv host m slots 0 with
    | some i =>
      let slots ← setSlot slots i .null
      return some ⟨slots, [], i + 1, .path⟩
    | none => return none
  else return none

/-- The old-style command line.  The two calls of `parse_cmdline` find the same; the
    characters of the second take the room that the first counted. -/
def argvFromTail (cmdline : UInt32) (slots : List Slot) (envSz : Nat) (m : Memory) :
    Run Args := do
  let p ← parseCmdline cmdline m
  let argCount := 1 + p.starts.length
  let slots := slots ++ List.replicate (envSz + argCount + 3 - slots.length) .junk
  let slots ← setSlot slots (envSz + 1) (.ptr .path)
  let slots ← setSlots slots (envSz + 2) (p.starts.map (fun o => .ptr (.bytes o)) ++ [.null])
  return ⟨slots, p.bytes, envSz + 1, .path⟩

/-- The loop that moves `argv` up by one slot. -/
def shiftLoop : Slot → List Slot → Run (List Slot)
  | _, [] => Except.error .overrun
  | .null, _ :: slots => Except.ok (.null :: slots)
  | .junk, _ :: _ => Except.error .badPointer
  | .ptr p, next :: slots => do
    let slots ← shiftLoop next slots
    return .ptr p :: slots

/-- ParaTos in front of the command line. -/
def prependParatos (a : Args) : Run Args := do
  let prev ← getSlot a.slots a.argv
  let slots ← shiftLoop prev (a.slots.drop (a.argv + 1))
  return { a with
    slots := a.slots.take a.argv ++ .ptr .paratosExe :: slots
    path := .paratosExe }

/-- `prepare_args(out_argv, out_env, pathp, cmdline, env)` -/
def prepareArgs (host : Host) (cmdline env : UInt32) (m : Memory) : Run Args := do
  let (slots, envSz) ← readEnv env m
  let found ← argvFromEnv host cmdline slots m
  let a ← match found with
    | some a => Except.ok a
    | none => argvFromTail cmdline slots envSz m
  if host.magic = some 0x601a then prependParatos a else return a

/-! ### What execve gets -/

/-- The pointers up to the null pointer. -/
def vector : List Slot → Run (List CharPtr)
  | [] => Except.error .overrun
  | .junk :: _ => Except.error .badPointer
  | .null :: _ => Except.ok []
  | .ptr p :: slots => do
    let ps ← vector slots
    return p :: ps

/-- The strings of `envp`. -/
def Args.envStrings (a : Args) (host : Host) (m : Memory) : Run (List (List UInt8)) := do
  let ps ← vector a.slots
  ps.mapM (deref host a.bytes m)

/-- The strings of `argv`. -/
def Args.argStrings (a : Args) (host : Host) (m : Memory) : Run (List (List UInt8)) := do
  let ps ← vector (a.slots.drop a.argv)
  ps.mapM (deref host a.bytes m)

end ParaTos.Pexec
