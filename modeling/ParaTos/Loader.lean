/-
  ParaTos/Loader.lean
  ===================
  **Loading a program** (`LoadExe` in `gemdos/loader.c`).

  `LoadExe` takes all free memory for the program, fills in a basepage at its start,
  copies the environment and the command line behind the basepage, and the text and
  data of the file behind these.  Then it adds the address of the text to the
  longwords that the rest of the file lists.

  A file is the list of its bytes.  `fread` of a header that is not complete leaves
  the rest of the variable as it was, which nobody has set; a read into pages that
  are not mapped is a fault.  `PRG_res1`, `PRGFLAGS` and `ABSFLAG` are read and not
  used.
-/
import ParaTos.ArgList

namespace ParaTos.Loader

open Bytes Memory CString ArgList

/-! ### The basepage -/

def sizeofBasepage : UInt32 := 260

/-- The offsets of the fields of `basepage_t`. -/
def pLowtpa : UInt32 := 0
def pHitpa : UInt32 := 4
def pTbase : UInt32 := 8
def pTlen : UInt32 := 12
def pDbase : UInt32 := 16
def pDlen : UInt32 := 20
def pBbase : UInt32 := 24
def pBlen : UInt32 := 28
def pDta : UInt32 := 32
def pParent : UInt32 := 36
def pEnv : UInt32 := 44
def pCmdlin : UInt32 := 128

/-- `WRITE_BASEPAGE(field, value)` and `READ_BASEPAGE(field)`. -/
def writeBasepage (baseTpa field value : UInt32) (m : Memory) : Run Memory :=
  writeMemory32 (baseTpa + field) value m

def readBasepage (baseTpa field : UInt32) (m : Memory) : Run UInt32 :=
  readMemory32 (baseTpa + field) m

/-! ### The header -/

/-- `tos_header_t`, as far as it is used. -/
structure TosHeader where
  magic : UInt16
  tsize : Int32
  dsize : Int32
  bsize : Int32
  ssize : Int32
deriving DecidableEq, Repr

def sizeofHeader : Nat := 28

/-- The bytes of the variable `header` after `fread`, `unset` being what was in it. -/
def headerBytes (file : List UInt8) (unset : Nat → UInt8) : List UInt8 :=
  (List.range sizeofHeader).map fun i => file[i]?.getD (unset i)

/-- A signed big-endian longword. -/
def longword (l : List UInt8) : Int32 := (UInt32.ofNat (ofBigEndian (l.take 4))).toInt32

def readHeader (file : List UInt8) (unset : Nat → UInt8) : TosHeader where
  magic := UInt16.ofNat (ofBigEndian ((headerBytes file unset).take 2))
  tsize := longword ((headerBytes file unset).drop 2)
  dsize := longword ((headerBytes file unset).drop 6)
  bsize := longword ((headerBytes file unset).drop 10)
  ssize := longword ((headerBytes file unset).drop 14)

/-! ### Environment and command line -/

/-- The loop that copies the environment. -/
def copyEnviron : List (List UInt8) → UInt32 → Memory → Run (UInt32 × Memory)
  | [], current, m => Except.ok (current, m)
  | ep :: environ, current, m => do
    let (current, m) ← writeChars ep current m
    let m ← writeMemory8 current 0 m
    copyEnviron environ (current + 1) m

/-- The environment, the command line and the NUL that ends the block; the address
    behind it. -/
def copyStrings (baseTpa : UInt32) (environ argv : List (List UInt8)) (m : Memory) :
    Run (UInt32 × Memory) := do
  let (current, m) ← copyEnviron environ (baseTpa + sizeofBasepage) m
  let (current, m) ← buildTosArglist (baseTpa + pCmdlin) argv current m
  let m ← writeMemory8 current 0 m
  return (current + 1, m)

theorem and_three (a : UInt32) : (a &&& 3).toNat = a.toNat % 4 := by
  rw [UInt32.toNat_and]
  exact Nat.and_two_pow_sub_one_eq_mod a.toNat 2

/-- `while((current & 3) != 0) current++;` -/
def alignLong (current : UInt32) : UInt32 :=
  if current &&& 3 = 0 then current else alignLong (current + 1)
termination_by (4 - current.toNat % 4) % 4
decreasing_by
  rename_i h
  have hmod := and_three current
  have hne : (current &&& 3).toNat ≠ 0 := fun h0 => h (UInt32.toNat_inj.mp h0)
  have hadd : (current + 1).toNat = (current.toNat + 1) % 2 ^ 32 := UInt32.toNat_add current 1
  omega

/-! ### Text and data -/

/-- The segment fields of the basepage, from `current` on. -/
def writeSegments (baseTpa current : UInt32) (header : TosHeader) (m : Memory) : Run Memory := do
  let m ← writeBasepage baseTpa pTbase current m
  let m ← writeBasepage baseTpa pTlen header.tsize.toUInt32 m
  let current := current + header.tsize.toUInt32
  let m ← writeBasepage baseTpa pDbase current m
  let m ← writeBasepage baseTpa pDlen header.dsize.toUInt32 m
  let current := current + header.dsize.toUInt32
  let m ← writeBasepage baseTpa pBbase current m
  let m ← writeBasepage baseTpa pBlen header.bsize.toUInt32 m
  let m ← writeBasepage baseTpa pDta (baseTpa + pCmdlin) m
  writeBasepage baseTpa pParent 0 m

/-- Everything in front of the text. -/
def setUp (baseTpa : UInt32) (header : TosHeader) (environ argv : List (List UInt8))
    (m : Memory) : Run Memory := do
  let m ← writeBasepage baseTpa pLowtpa baseTpa m
  let m ← writeBasepage baseTpa pHitpa Mem.memorySz m
  let m ← writeBasepage baseTpa pEnv (baseTpa + sizeofBasepage) m
  let (current, m) ← copyStrings baseTpa environ argv m
  writeSegments baseTpa (alignLong current) header m

/-- `fread(dest, sizeof(char), p_tlen + p_dlen, file)`: how many bytes were read. -/
def readSegments (baseTpa : UInt32) (rest : List UInt8) (m : Memory) : Run (Nat × Memory) := do
  let dest ← readBasepage baseTpa pTbase m
  let tlen ← readBasepage baseTpa pTlen m
  let dlen ← readBasepage baseTpa pDlen m
  let chars := rest.take (tlen + dlen).toNat
  let m ← poke dest.toNat chars m
  return (chars.length, m)

/-- How the part of `LoadExe` ends that sets up the program. -/
inductive Load where
  /-- `return 0` -/
  | failed (m : Memory)
  /-- on to the fixups, with the file read up to `position` -/
  | image (baseTpa : UInt32) (position : Nat) (header : TosHeader) (m : Memory)

/-- `LoadExe` up to the text and data, on memory and the state of `Malloc`.  The file is
    `none` when it cannot be opened. -/
def loadImage (file : Option (List UInt8)) (unset : Nat → UInt8)
    (environ argv : List (List UInt8)) (s : Mem.State) (m : Memory) :
    Run (Load × Mem.State) := do
  match file with
  | none => return (.failed m, s)
  | some file =>
    let header := readHeader file unset
    let (size, s) ← Mem.malloc (-1) s
    let (baseTpa, s) ← Mem.malloc size.toInt32 s
    let m ← setUp baseTpa header environ argv m
    let (count, m) ← readSegments baseTpa (file.drop sizeofHeader) m
    if count = 0 then return (.failed m, s)
    return (.image baseTpa (sizeofHeader + count) header m, s)

/-! ### Fixups -/

/-- The inner loop: `delta` and `fixup` after the bytes that give the next place.  At the
    end of the file `fread` leaves `delta` as it is. -/
def nextFixup : List UInt8 → UInt8 → UInt32 → Run (UInt8 × UInt32 × List UInt8)
  | [], delta, fixup =>
    if delta = 1 then Except.error .diverges else Except.ok (delta, fixup + delta.toUInt32, [])
  | delta :: stream, _, fixup =>
    if delta = 1 then nextFixup stream delta (fixup + 254)
    else Except.ok (delta, fixup + delta.toUInt32, stream)

theorem nextFixup_shorter {stream rest : List UInt8} {delta delta' : UInt8}
    {fixup fixup' : UInt32} (hdelta : delta = 0 ∨ delta = 1)
    (h : nextFixup stream delta fixup = Except.ok (delta', fixup', rest)) (hne : delta' ≠ 0) :
    rest.length < stream.length := by
  induction stream generalizing delta fixup with
  | nil =>
    unfold nextFixup at h
    split at h
    · cases h
    · rename_i hone
      cases h
      exact absurd (hdelta.resolve_right hone) hne
  | cons d stream ih =>
    unfold nextFixup at h
    split at h
    · rename_i hone
      have hlt := ih (Or.inr hone) h
      rw [List.length_cons]
      omega
    · cases h
      exact Nat.lt_succ_self _

/-- The outer loop: add the address of the text to the longword at `fixup`. -/
def fixupLoop (baseTpa : UInt32) (stream : List UInt8) (fixup : UInt32) (m : Memory) :
    Run Memory := do
  let unfixed ← readMemory32 fixup m
  let tbase ← readBasepage baseTpa pTbase m
  let m ← writeMemory32 fixup (unfixed + tbase) m
  match _ : nextFixup stream 0 fixup with
  | .error e => Except.error e
  | .ok (delta, fixup, rest) =>
    if delta ≠ 0 then fixupLoop baseTpa rest fixup m else return m
termination_by stream.length
decreasing_by exact nextFixup_shorter (Or.inl rfl) ‹nextFixup _ _ _ = _› ‹_›

/-- `fseek(file, offset, SEEK_CUR)`; to in front of the file it does not go. -/
def seek (position : Nat) (offset : Int32) : Nat :=
  if 0 ≤ (position : Int) + offset.toInt then ((position : Int) + offset.toInt).toNat
  else position

/-- `LoadExe` from the symbols on. -/
def relocate (file : List UInt8) (baseTpa : UInt32) (position : Nat) (header : TosHeader)
    (m : Memory) : Run Memory := do
  let stream := file.drop (seek position header.ssize)
  if stream.length < 4 then return m
  let fixup := UInt32.ofNat (ofBigEndian (stream.take 4))
  if fixup = 0 then return m
  let tbase ← readBasepage baseTpa pTbase m
  fixupLoop baseTpa (stream.drop 4) (fixup + tbase) m

/-- `LoadExe(filename, argv, argc)` -/
def loadExe (file : Option (List UInt8)) (unset : Nat → UInt8)
    (environ argv : List (List UInt8)) (s : Mem.State) (m : Memory) :
    Run (UInt32 × Mem.State × Memory) := do
  match ← loadImage file unset environ argv s m with
  | (.failed m, s) => return (0, s, m)
  | (.image baseTpa position header m, s) =>
    let m ← relocate (file.getD []) baseTpa position header m
    return (baseTpa, s, m)

/-! ### The strings in memory -/

theorem copyEnviron_eq_ok {environ : List (List UInt8)} {a : UInt32} {m : Memory}
    {r : UInt32 × Memory} (ha : a.toNat ≤ 0x1000000) :
    copyEnviron environ a m = Except.ok r ↔
      a.toNat + (pack environ).length ≤ 0x1000000 ∧
        r = (a + UInt32.ofNat (pack environ).length, write m a.toNat (pack environ)) := by
  induction environ generalizing a m with
  | nil => simp [copyEnviron, ha, eq_comm]
  | cons ep environ ih =>
    have hnul : ∀ {m' : Memory} {q : UInt32 × Memory}, a.toNat + ep.length ≤ 0x1000000 →
        q = (a + UInt32.ofNat ep.length, write m a.toNat ep) →
        (writeMemory8 q.1 0 q.2 = Except.ok m' ↔
          a.toNat + (ep ++ [0]).length ≤ 0x1000000 ∧ m' = write m a.toNat (ep ++ [0])) := by
      intro m' q hfit hq
      have haddr := toNat_advance hfit
      rw [hq]
      dsimp only
      rw [writeMemory8_eq_ok (by omega), haddr, write_append, List.length_append,
        List.length_singleton]
      rfl
    have hnext : a + UInt32.ofNat ep.length + 1 = a + UInt32.ofNat (ep ++ [0]).length := by
      rw [List.length_append]
      exact advance_advance a ep.length 1
    rw [pack_cons, List.length_append, ← advance_advance]
    simp only [copyEnviron, Run.bind_eq_ok]
    constructor
    · rintro ⟨q, hchars, m', hm', hrest⟩
      obtain ⟨hfit, rfl⟩ := (writeChars_eq_ok ha).mp hchars
      obtain ⟨hfit', rfl⟩ := (hnul hfit rfl).mp hm'
      have haddr := toNat_advance hfit'
      dsimp only at hrest
      rw [hnext, ih (by omega), haddr, write_append] at hrest
      exact ⟨by omega, hrest.2⟩
    · rintro ⟨hfit, rfl⟩
      have hfit' : a.toNat + (ep ++ [0]).length ≤ 0x1000000 := by omega
      have haddr := toNat_advance hfit'
      have hfit'' : a.toNat + ep.length ≤ 0x1000000 := by
        rw [List.length_append] at hfit'
        omega
      refine ⟨_, (writeChars_eq_ok ha).mpr ⟨hfit'', rfl⟩, _,
        (hnul hfit'' rfl).mpr ⟨hfit', rfl⟩, ?_⟩
      dsimp only
      rw [hnext, ih (by omega), haddr, write_append]
      exact ⟨by omega, rfl⟩

/-- The environment block that `LoadExe` leaves at `a`: the environment, `ARGV` and the
    arguments. -/
def envStrings (m : Memory) (a : Nat) (environ argv : List (List UInt8)) :
    List (List UInt8) :=
  environ ++ argvEntry m (a + (pack environ).length) argv :: argv.map shown

def envBlock (m : Memory) (a : Nat) (environ argv : List (List UInt8)) : List UInt8 :=
  pack (envStrings m a environ argv) ++ [0]

/-- Environment and command line are copied when they end inside the RAM. -/
theorem copyStrings_spec {baseTpa : UInt32} {environ argv : List (List UInt8)} (m : Memory)
    (hargc : argv.length < 2 ^ 31) (hbase : baseTpa.toNat + 260 ≤ 0x1000000) :
    ∃ m₁, TailHolds (baseTpa + pCmdlin) m (tailText argv.tail) m₁ ∧
      ∀ r, copyStrings baseTpa environ argv m = Except.ok r ↔
        baseTpa.toNat + 260 + (envBlock m (baseTpa.toNat + 260) environ argv).length ≤
            0x1000000 ∧
          r = (baseTpa + sizeofBasepage +
              UInt32.ofNat (envBlock m (baseTpa.toNat + 260) environ argv).length,
            write m₁ (baseTpa.toNat + 260) (envBlock m (baseTpa.toNat + 260) environ argv)) := by
  have hargs : (baseTpa + pCmdlin).toNat = baseTpa.toNat + 128 := @toNat_advance baseTpa 128 (by omega)
  have henv : (baseTpa + sizeofBasepage).toNat = baseTpa.toNat + 260 :=
    @toNat_advance baseTpa 260 hbase
  have hblock : envBlock m (baseTpa.toNat + 260) environ argv = pack environ ++
      (pack (argvEntry m (baseTpa.toNat + 260 + (pack environ).length) argv ::
        argv.map shown) ++ [0]) := by
    rw [envBlock, envStrings, pack_append, List.append_assoc]
  have hcopy := fun q => @copyEnviron_eq_ok environ (baseTpa + sizeofBasepage) m q (by omega)
  rw [hblock]
  rw [henv] at hcopy
  generalize pack environ = text at hcopy ⊢
  generalize hcurrent : baseTpa + sizeofBasepage + UInt32.ofNat text.length = current at hcopy
  by_cases hfit : baseTpa.toNat + 260 + text.length ≤ 0x1000000
  · have haddr : current.toNat = baseTpa.toNat + 260 + text.length := by
      rw [← hcurrent, toNat_advance (by omega), henv]
    obtain ⟨m₂, htail, hspec⟩ := @buildTosArglist_spec (baseTpa + pCmdlin) current argv
      (write m (baseTpa.toNat + 260) text) hargc (by omega) (by omega)
    obtain ⟨m₁, hholds, rfl⟩ := htail.first (by omega)
    refine ⟨m₁, hholds, ?_⟩
    have hentry : argvEntry (write m (baseTpa.toNat + 260) text) current.toNat argv =
        argvEntry m (baseTpa.toNat + 260 + text.length) argv := by
      rw [haddr]
      exact argvEntry_congr argv fun x hx => write_outside m (by omega)
    rw [hentry] at hspec
    generalize pack (argvEntry m (baseTpa.toNat + 260 + text.length) argv :: argv.map shown) =
      strings at hspec ⊢
    rw [haddr, write_append] at hspec
    intro r
    have hlen : (text ++ (strings ++ [0])).length = text.length + strings.length + 1 := by
      simp only [List.length_append, List.length_singleton, Nat.add_assoc]
    have hbehind : baseTpa + sizeofBasepage + UInt32.ofNat (text.length + strings.length + 1) =
        current + UInt32.ofNat strings.length + 1 := by
      rw [← hcurrent, advance_advance]
      exact (advance_advance _ _ 1).symm
    -- the NUL behind the strings
    have hnul : ∀ m', baseTpa.toNat + 260 + text.length + strings.length ≤ 0x1000000 →
        (writeMemory8 (current + UInt32.ofNat strings.length) 0
            (write m₁ (baseTpa.toNat + 260) (text ++ strings)) = Except.ok m' ↔
          baseTpa.toNat + 260 + (text.length + strings.length + 1) ≤ 0x1000000 ∧
            m' = write m₁ (baseTpa.toNat + 260) (text ++ (strings ++ [0]))) := by
      intro m' hroom
      have hend : (current + UInt32.ofNat strings.length).toNat =
          baseTpa.toNat + 260 + (text ++ strings).length := by
        rw [toNat_advance (by omega), haddr, List.length_append, Nat.add_assoc]
      rw [writeMemory8_eq_ok (by rw [hend, List.length_append]; omega), hend, write_append,
        List.length_append, List.append_assoc]
      simp only [Nat.add_assoc]
    rw [hlen, hbehind]
    unfold copyStrings
    simp only [Run.bind_eq_ok, hcopy]
    constructor
    · rintro ⟨_, ⟨-, rfl⟩, q, hbuild, m', hm', hr⟩
      obtain ⟨hroom, rfl⟩ := (hspec q).mp hbuild
      obtain ⟨hlast, rfl⟩ := (hnul m' hroom).mp hm'
      exact ⟨hlast, (Run.ok_inj.mp hr).symm⟩
    · rintro ⟨hlast, rfl⟩
      exact ⟨_, ⟨hfit, rfl⟩, _, (hspec _).mpr ⟨by omega, rfl⟩, _, (hnul _ (by omega)).mpr
        ⟨hlast, rfl⟩, rfl⟩
  · obtain ⟨m₁, -, hholds⟩ := @buildTail_spec (baseTpa + pCmdlin) (by omega) argv m
    refine ⟨m₁, hholds, ?_⟩
    intro r
    unfold copyStrings
    simp only [Run.bind_eq_ok, hcopy, List.length_append]
    constructor
    · rintro ⟨_, ⟨hroom, -⟩, -⟩
      exact absurd hroom hfit
    · rintro ⟨hroom, -⟩
      omega

end ParaTos.Loader
