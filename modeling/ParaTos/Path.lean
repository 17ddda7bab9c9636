/-
  ParaTos/Path.lean
  =================
  **TOS paths to Unix paths** (`tos_path_to_unix` in `gemdos/path.c`).

  The function edits its result in place.  It appends a component to the buffer
  and asks `lstat` about the whole; where there is no such file it cuts the buffer
  in front of the component, so that its first half is the parent directory and
  its second half the name to look for, and writes the name of a matching entry
  over the component.  The definitions below do this on the bytes of the buffer,
  which is one host block that doubles when it gets too small.

  What the host answers about files is a parameter, and so is what a new block
  contains before it is written.
-/
import ParaTos.Filename

namespace ParaTos.Path

open CString Filename

/-- The host's files during a call: on which paths `lstat` succeeds, and which names
    `readdir` delivers, in this order, for a directory that `opendir` opens. -/
structure HostFiles where
  lstat : List UInt8 → Bool
  opendir : List UInt8 → Option (List (List UInt8))
  names : ∀ dir entries, opendir dir = some entries →
    ∀ entry ∈ entries, entry ≠ [] ∧ 0 ∉ entry ∧ slash ∉ entry

/-- The variables `result` and `result_len`; `result_sz` is the length of the block. -/
structure Result where
  block : List UInt8
  len : Nat

abbrev colon : UInt8 := 0x3a

/-- Bytes of a host block that nothing has been written to. -/
def junk (garbage : Nat → UInt8) (n : Nat) : List UInt8 := (List.range n).map garbage

@[simp] theorem length_junk (garbage : Nat → UInt8) (n : Nat) :
    (junk garbage n).length = n := by
  simp [junk]

/-! ### The result buffer -/

/-- `while (result_sz < o + l + 1) result_sz *= 2`. -/
def growTo (need : Nat) : Nat → Nat → Run Nat
  | 0, _ => Except.error .diverges
  | rounds + 1, resultSz =>
    if resultSz < need then growTo need rounds (resultSz * 2) else Except.ok resultSz

/-- The `append` macro: `src` goes to offset `o` of the result, and a NUL behind it. -/
def append (garbage : Nat → UInt8) (src : List UInt8) (o : Nat) (r : Result) : Run Result := do
  let need := o + src.length + 1
  let resultSz ← growTo need (need + 1) r.block.length
  let block := r.block ++ junk garbage (resultSz - r.block.length)
  let block ← overwrite block o src
  let block ← overwrite block (o + src.length) [0]
  return ⟨block, o + src.length⟩

/-! ### One component -/

/-- The `readdir` loop: the first entry whose name, or whose 8.3 name when the component
    is short enough to be one, is the component up to case. -/
def scanDir (uppercase : Bool) (curname : List UInt8) (l : Nat) :
    List (List UInt8) → Option (List UInt8)
  | [] => none
  | entry :: entries =>
    if CaseEq curname entry then some entry
    else if l ≤ 12 ∧ CaseEq curname (filename83 uppercase entry).1 then some entry
    else scanDir uppercase curname l entries

/-- `if (current) result[current-1] = c`. -/
def setBefore (current : Nat) (c : UInt8) (block : List UInt8) : Run (List UInt8) :=
  if current = 0 then Except.ok block else overwrite block (current - 1) [c]

/-- `curdir`: the directory to search, once the result is cut in front of the component. -/
def curdirOf (current : Nat) (block : List UInt8) : Run (List UInt8) :=
  if current = 0 then Except.ok [dot]
  else if current = 1 then Except.ok [slash]
  else cstr block

/-- From the `lstat` to the end of its branch: the component is at offset `current` of the
    result, and `l` long.  `last` says that nothing follows it. -/
def lookUp (fs : HostFiles) (uppercase : Bool) (garbage : Nat → UInt8) (current l : Nat)
    (last : Bool) (r : Result) : Run (Option Result) := do
  let path ← cstr r.block
  if fs.lstat path then return some r
  let block ← setBefore current 0 r.block
  let curname ← cstr (block.drop current)
  let curdir ← curdirOf current block
  match fs.opendir curdir with
  | none => return none
  | some entries =>
    match scanDir uppercase curname l entries with
    | some entry =>
      let block ← setBefore current slash block
      let r ← append garbage entry current { r with block }
      return some r
    | none =>
      if last then
        let block ← setBefore current slash block
        return some { r with block }
      else return none

/-! ### The whole path -/

/-- `next_path_sep(path, start)`. -/
def nextPathSep (path : List UInt8) (start : Nat) : Nat :=
  start + ((path.drop start).takeWhile (!endOfName ·)).length

/-- The `for` loop over the components. -/
def pathLoop (fs : HostFiles) (uppercase : Bool) (garbage : Nat → UInt8)
    (tosPath : List UInt8) : Nat → Nat → Nat → Result → Run (Option Result)
  | 0, _, _, _ => Except.error .diverges
  | rounds + 1, i, j, r =>
    if tosPath.length ≤ i then Except.ok (some r)
    else if i = j then
      pathLoop fs uppercase garbage tosPath rounds (j + 1) (nextPathSep tosPath (j + 1)) r
    else do
      let current := r.len
      let last := decide (tosPath.length ≤ j)
      let r ← append garbage ((tosPath.drop i).take (j - i)) current r
      match ← lookUp fs uppercase garbage current (j - i) last r with
      | none => return none
      | some r =>
        if last then return some r
        let r ← append garbage [slash] r.len r
        pathLoop fs uppercase garbage tosPath rounds (j + 1) (nextPathSep tosPath (j + 1)) r

/-- The result before the loop: a new block, and the slash of an absolute path. -/
def startResult (garbage : Nat → UInt8) (tosPath : List UInt8) : Run Result :=
  let r : Result := ⟨junk garbage (tosPath.length * 2), 0⟩
  if tosPath.head?.any pathSep then append garbage [slash] 0 r else Except.ok r

/-- What `tos_path_to_unix` does with the path behind the drive. -/
def convert (fs : HostFiles) (uppercase : Bool) (garbage : Nat → UInt8)
    (tosPath : List UInt8) : Run (Option (List UInt8)) := do
  let r ← startResult garbage tosPath
  match ← pathLoop fs uppercase garbage tosPath (tosPath.length + 1) 0 (nextPathSep tosPath 0) r with
  | none => return none
  | some r => return some r.block

/-- What is left of a path behind its drive, and `none` for a drive other than `U:`. -/
def stripDrive (tosPath : List UInt8) : Option (List UInt8) :=
  if tosPath[1]? = some colon then
    if tosPath[0]? = some 0x75 ∨ tosPath[0]? = some 0x55 then some (tosPath.drop 2) else none
  else some tosPath

/-- `tos_path_to_unix`: the block it returns a pointer to, or `NULL`. -/
def tosPathToUnix (fs : HostFiles) (uppercase : Bool) (garbage : Nat → UInt8)
    (tosPath : List UInt8) : Run (Option (List UInt8)) :=
  match stripDrive tosPath with
  | none => Except.ok none
  | some tosPath => convert fs uppercase garbage tosPath

end ParaTos.Path
