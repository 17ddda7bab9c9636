/-
  ParaTos/Mem.lean
  ================
  **The GEMDOS memory manager** (`gemdos/mem.c`).

  The emulated RAM between `0x10000` and `memory_sz` is described by two linked
  lists of `memblock_t` nodes that live in the host's heap: the free list,
  sorted by address, and the used list, most recent block first.  `rover`
  remembers where the next search for a free block starts.

  The definitions below are `InitMemory`, `Malloc`, `freeBlock`, `Mfree` and
  `Mshrink` statement by statement, on an explicit heap of nodes.  Host `malloc`
  always succeeds and never hands out the same node twice, so that a pointer to
  a released node can be told from a pointer to a live one; `free` removes the
  node, and following a pointer to it afterwards is a fault.  The loops take a
  bound on their number of rounds, which `MemLists.lean` shows is never reached.
-/
import ParaTos.LinkedList
import ParaTos.Words

namespace ParaTos.Mem

open LinkedList Words

/-- The address range a `memblock_t` describes. -/
structure Extent where
  start : UInt32
  size : Int32
deriving DecidableEq, Repr

/-- Where a `memblock_t` can live: the two list headers, or a node from host `malloc`. -/
inductive Ptr where
  | freeMem
  | usedMem
  | node (n : Nat)
deriving DecidableEq, Repr

/-- `memblock_t`: the next node, and the range. -/
abbrev Memblock := Node Ptr Extent

/-- A list node at its address. -/
abbrev Block := Cell Ptr Extent

/-- The state of `mem.c`: the nodes, the `rover` variable, and how many nodes host
    `malloc` has handed out. -/
structure State where
  heap : Heap Ptr Extent
  rover : Option Ptr
  fresh : Nat

/-- `memory_sz`, as `InitM68KMemory` sets it. -/
def memorySz : UInt32 := 16 * 1024 * 1024

/-- The error codes of `tos_errors.h` that `mem.c` returns. -/
def tosEOk : Int32 := 0
def tosEimba : Int32 := -40
def tosEgsbf : Int32 := -67

/-- The content of a list header. -/
def headerExtent : Extent := ⟨-1, -1⟩

/-- The one free block after `InitMemory`. -/
def firstExtent : Extent := ⟨0x10000, (memorySz - 0x10000).toInt32⟩

/-- The lists that `InitMemory` sets up. -/
def initMemory : State where
  heap
    | .freeMem => some ⟨some (.node 0), headerExtent⟩
    | .usedMem => some ⟨none, headerExtent⟩
    | .node 0 => some ⟨none, firstExtent⟩
    | .node _ => none
  rover := some .freeMem
  fresh := 1

/-! ### Malloc -/

/-- How the search of `Malloc` leaves its loop. -/
inductive Scan where
  /-- a block that is large enough, and the node before it -/
  | found (prev current : Ptr)
  /-- back at the rover, with the largest size seen -/
  | exhausted (max : UInt32)
deriving DecidableEq, Repr

/-- At the end of the list the search goes on behind the header. -/
def wrapAround (heap : Heap Ptr Extent) (prev : Ptr) : Option Ptr → Run (Ptr × Ptr)
  | some current => Except.ok (prev, current)
  | none => do
    let header ← load heap (some .freeMem)
    let current ← Run.ofOption .badPointer header.next
    return (.freeMem, current)

/-- The `do … while (prev != rover)` loop of `Malloc`. -/
def mallocLoop (s : State) (size : Int32) : Nat → Ptr → Option Ptr → UInt32 → Run Scan
  | 0, _, _, _ => Except.error .diverges
  | rounds + 1, prev, current, max => do
    let (prev, current) ← wrapAround s.heap prev current
    let block ← load s.heap (some current)
    if size = -1 then
      let max := if max < block.val.size.toUInt32 then block.val.size.toUInt32 else max
      if some current = s.rover then return .exhausted max
      mallocLoop s size rounds current block.next max
    else if size ≤ block.val.size then
      return .found prev current
    else
      if some current = s.rover then return .exhausted max
      mallocLoop s size rounds current block.next max

/-- Unlink a block that fits exactly, or cut `size` bytes off its front. -/
def cutBlock (s : State) (size : Int32) (prev current : Ptr) : Run State := do
  let block ← load s.heap (some current)
  if block.val.size = size then
    let heap ← storeNext s.heap prev block.next
    return { s with heap }
  else
    let new := Ptr.node s.fresh
    let heap ← storeNext s.heap prev (some new)
    let heap := Function.update heap new
      (some ⟨block.next, ⟨block.val.start + size.toUInt32, block.val.size - size⟩⟩)
    let heap ← storeVal heap current { block.val with size }
    return { s with heap, fresh := s.fresh + 1 }

/-- What `Malloc` does with the block its search found. -/
def takeBlock (s : State) (size : Int32) (prev current : Ptr) : Run (UInt32 × State) := do
  let s ← cutBlock s size prev current
  let header ← load s.heap (some .freeMem)
  let rover := if prev = .freeMem then header.next else some prev
  let used ← load s.heap (some .usedMem)
  let heap ← storeNext s.heap current used.next
  let heap ← storeNext heap .usedMem (some current)
  let block ← load heap (some current)
  return (block.val.start, { s with heap, rover })

/-- `Malloc(size)`; `Malloc(-1)` asks for the size of the largest free block. -/
def malloc (size : Int32) (s : State) : Run (UInt32 × State) := do
  let size := if size = -1 then size else roundUp4 size
  let header ← load s.heap (some .freeMem)
  if header.next = none then return (0, s)
  let prev ← Run.ofOption .badPointer s.rover
  let start ← load s.heap (some prev)
  match ← mallocLoop s size (s.fresh + 2) prev start.next 0 with
  | .found prev current => takeBlock s size prev current
  | .exhausted max => return (max, s)

/-! ### Mfree -/

/-- The `for` loop of `freeBlock`: the nodes before and at the place of `start`. -/
def freeBlockLoop (heap : Heap Ptr Extent) (start : UInt32) :
    Nat → Option Ptr → Option Ptr → Run (Option Ptr × Option Ptr)
  | 0, _, _ => Except.error .diverges
  | _ + 1, prev, none => Except.ok (prev, none)
  | rounds + 1, prev, some current => do
    let block ← load heap (some current)
    if start ≤ block.val.start then return (prev, some current)
    freeBlockLoop heap start rounds (some current) block.next

/-- The merging of two free blocks `a` and `b`, `b` directly behind `a` in the list:
    when the two touch, `a` grows over `b`, takes its link and its rover, and `b`
    is released. -/
def absorb (a b : Ptr) (s : State) : Run State := do
  let front ← load s.heap (some a)
  let back ← load s.heap (some b)
  if front.val.start + front.val.size.toUInt32 = back.val.start then
    let heap ← storeVal s.heap a { front.val with size := front.val.size + back.val.size }
    let heap ← storeNext heap a back.next
    let rover := if s.rover = some b then some a else s.rover
    let heap ← release heap b
    return { s with heap, rover }
  else
    return s

/-- `if (current && …)`: `freeme` absorbs the free block behind it. -/
def mergeNext (freeme : Ptr) (current : Option Ptr) (s : State) : Run State :=
  match current with
  | none => Except.ok s
  | some current => absorb freeme current s

/-- `if (prev && …)`: the free block in front of `freeme` absorbs it. -/
def mergePrev (freeme : Ptr) (prev : Option Ptr) (s : State) : Run State :=
  match prev with
  | none => Except.ok s
  | some prev => absorb prev freeme s

/-- `freeBlock(freeme)`: return a block to the free list. -/
def freeBlock (freeme : Ptr) (s : State) : Run State := do
  let block ← load s.heap (some freeme)
  let header ← load s.heap (some .freeMem)
  let (prev, current) ←
    freeBlockLoop s.heap block.val.start (s.fresh + 1) none header.next
  let heap ← storeNext s.heap freeme current
  let heap ← storeNext heap (prev.getD .freeMem) (some freeme)
  let rover := if s.rover = none then some freeme else s.rover
  let s ← mergeNext freeme current { s with heap, rover }
  mergePrev freeme prev s

/-- The search of `Mfree` and `Mshrink`: the first used block that starts at `block`,
    and the node before it. -/
def usedLoop (heap : Heap Ptr Extent) (block : UInt32) :
    Nat → Ptr → Option Ptr → Run (Option (Ptr × Ptr))
  | 0, _, _ => Except.error .diverges
  | _ + 1, _, none => Except.ok none
  | rounds + 1, prev, some current => do
    let node ← load heap (some current)
    if node.val.start = block then return some (prev, current)
    usedLoop heap block rounds current node.next

/-- `Mfree(block)`. -/
def mfree (block : UInt32) (s : State) : Run (Int32 × State) := do
  let header ← load s.heap (some .usedMem)
  match ← usedLoop s.heap block (s.fresh + 1) .usedMem header.next with
  | some (prev, current) =>
    let node ← load s.heap (some current)
    let heap ← storeNext s.heap prev node.next
    let s ← freeBlock current { s with heap }
    return (tosEOk, s)
  | none => return (tosEimba, s)

/-! ### Mshrink -/

/-- `Mshrink(block, newsiz)`. -/
def mshrink (block : UInt32) (newsiz : Int32) (s : State) : Run (Int32 × State) := do
  if newsiz = 0 then mfree block s else
  let newsiz := roundUp4 newsiz
  let header ← load s.heap (some .usedMem)
  match ← usedLoop s.heap block (s.fresh + 1) .usedMem header.next with
  | some (_, current) =>
    let node ← load s.heap (some current)
    if node.val.size < newsiz then return (tosEgsbf, s)
    let new := Ptr.node s.fresh
    let heap := Function.update s.heap new
      (some ⟨none, ⟨node.val.start + newsiz.toUInt32, node.val.size - newsiz⟩⟩)
    let heap ← storeVal heap current { node.val with size := newsiz }
    let s ← freeBlock new { s with heap, fresh := s.fresh + 1 }
    return (newsiz, s)
  | none => return (tosEimba, s)

/-! ### Calls -/

/-- The memory calls a program can make. -/
inductive Call where
  | malloc (size : Int32)
  | mfree (block : UInt32)
  | mshrink (block : UInt32) (newsiz : Int32)
deriving DecidableEq, Repr

/-- What a call returns: an address (or a size) from `Malloc`, a status otherwise. -/
inductive Reply where
  | address (a : UInt32)
  | status (r : Int32)
deriving DecidableEq, Repr

/-- One memory call. -/
def step (c : Call) (s : State) : Run (Reply × State) :=
  match c with
  | .malloc size => do
    let (a, s) ← malloc size s
    return (.address a, s)
  | .mfree block => do
    let (r, s) ← mfree block s
    return (.status r, s)
  | .mshrink block newsiz => do
    let (r, s) ← mshrink block newsiz s
    return (.status r, s)

/-! ### Reading the lists back -/

/-- The nodes of the list that starts at a pointer. -/
def walk (heap : Heap Ptr Extent) : Nat → Option Ptr → Run (List Block)
  | 0, _ => Except.error .diverges
  | _ + 1, none => Except.ok []
  | rounds + 1, some p => do
    let node ← load heap (some p)
    let rest ← walk heap rounds node.next
    return (p, node.val) :: rest

/-- The free list. -/
def State.freeList (s : State) : Run (List Block) := do
  let header ← load s.heap (some .freeMem)
  walk s.heap (s.fresh + 1) header.next

/-- The used list. -/
def State.usedList (s : State) : Run (List Block) := do
  let header ← load s.heap (some .usedMem)
  walk s.heap (s.fresh + 1) header.next

end ParaTos.Mem
