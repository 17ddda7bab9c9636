/-
  ParaTos/LoaderBounds.lean
  =========================
  **Where `LoadExe` puts things.**

  `LoadExe` neither looks at the magic number nor at the signs of the sizes, and
  compares nothing with `memory_sz`.  It lays out a program properly when the
  environment block ends inside the RAM, the sizes are not negative, and all of it
  fits; and it gives up when there is nothing behind the header, or when the sizes
  of text and data sum to zero.
-/
import ParaTos.Loader
import ParaTos.MemRuns

namespace ParaTos.Loader

open Bytes Memory CString ArgList Words

/-! ### Fields -/

section Fields

variable {baseTpa : UInt32} {m : Memory}

theorem field_address (hbase : baseTpa.toNat + 260 ≤ 0x1000000) {field : UInt32}
    (hfield : field.toNat ≤ 260) : (baseTpa + field).toNat = baseTpa.toNat + field.toNat :=
  uint32_add (by omega)

theorem writeBasepage_ok (hbase : baseTpa.toNat + 260 ≤ 0x1000000) {field : UInt32}
    (hfield : field.toNat + 4 ≤ 260) (value : UInt32) (m : Memory) :
    writeBasepage baseTpa field value m =
      Except.ok (write m (baseTpa.toNat + field.toNat) (bigEndian 4 value.toNat)) := by
  rw [writeBasepage, writeMemory32, field_address hbase (by omega), poke_ok]
  rw [bigEndian_length]
  omega

theorem readBasepage_shows (hbase : baseTpa.toNat + 260 ≤ 0x1000000) {field value : UInt32}
    (hfield : field.toNat + 4 ≤ 260)
    (h : Shows m (baseTpa.toNat + field.toNat) (bigEndian 4 value.toNat)) :
    readBasepage baseTpa field m = Except.ok value := by
  have haddr := @field_address baseTpa hbase field (by omega)
  rw [← haddr] at h
  exact readMemory32_shows h (by omega)

/-- Longwords written to fields, one after the other. -/
def writeFields (base : Nat) (fields : List (UInt32 × UInt32)) (m : Memory) : Memory :=
  fields.foldl (fun m f => write m (base + f.1.toNat) (bigEndian 4 f.2.toNat)) m

theorem writeFields_outside {base x : Nat} {fields : List (UInt32 × UInt32)}
    (h : ∀ f ∈ fields, x < base + f.1.toNat ∨ base + f.1.toNat + 4 ≤ x) (m : Memory) :
    writeFields base fields m x = m x := by
  induction fields generalizing m with
  | nil => rfl
  | cons f fields ih =>
    have hrest := ih (fun g hg => h g (by simp [hg]))
      (write m (base + f.1.toNat) (bigEndian 4 f.2.toNat))
    refine hrest.trans ?_
    apply write_outside
    rw [bigEndian_length]
    exact h f (by simp)

/-- Fields in ascending order do not disturb each other. -/
theorem shows_writeFields {base : Nat} {fields : List (UInt32 × UInt32)}
    (h : fields.Pairwise fun f g => f.1.toNat + 4 ≤ g.1.toNat) {f : UInt32 × UInt32}
    (hf : f ∈ fields) (m : Memory) :
    Shows (writeFields base fields m) (base + f.1.toNat) (bigEndian 4 f.2.toNat) := by
  induction fields generalizing m with
  | nil => cases hf
  | cons g fields ih =>
    obtain ⟨hg, hrest⟩ := List.pairwise_cons.mp h
    rcases List.mem_cons.mp hf with rfl | hf
    · apply (shows_write m (base + f.1.toNat) (bigEndian 4 f.2.toNat)).congr
      intro x hlo hhi
      rw [bigEndian_length] at hhi
      have hbehind : ∀ k ∈ fields, x < base + k.1.toNat ∨ base + k.1.toNat + 4 ≤ x := by
        intro k hk
        have hk' := hg k hk
        omega
      exact writeFields_outside hbehind _
    · exact ih hrest hf _

/-- The fields that `writeSegments` fills in. -/
def segmentFields (baseTpa current : UInt32) (header : TosHeader) : List (UInt32 × UInt32) :=
  [(pTbase, current), (pTlen, header.tsize.toUInt32),
    (pDbase, current + header.tsize.toUInt32), (pDlen, header.dsize.toUInt32),
    (pBbase, current + header.tsize.toUInt32 + header.dsize.toUInt32),
    (pBlen, header.bsize.toUInt32), (pDta, baseTpa + pCmdlin), (pParent, 0)]

theorem writeSegments_ok (hbase : baseTpa.toNat + 260 ≤ 0x1000000) (current : UInt32)
    (header : TosHeader) (m : Memory) :
    writeSegments baseTpa current header m =
      Except.ok (writeFields baseTpa.toNat (segmentFields baseTpa current header) m) := by
  simp (disch := decide) only [writeSegments, writeBasepage_ok hbase, Run.ok_bind]
  rfl

theorem segmentFields_pairwise (current : UInt32) (header : TosHeader) :
    (segmentFields baseTpa current header).Pairwise fun f g => f.1.toNat + 4 ≤ g.1.toNat := by
  simp [segmentFields, pTbase, pTlen, pDbase, pDlen, pBbase, pBlen, pDta, pParent]

theorem segmentFields_bounds {current : UInt32} {header : TosHeader} :
    ∀ f ∈ segmentFields baseTpa current header, 8 ≤ f.1.toNat ∧ f.1.toNat + 4 ≤ 40 := by
  simp [segmentFields, pTbase, pTlen, pDbase, pDlen, pBbase, pBlen, pDta, pParent]

end Fields

/-! ### Rounding up -/

theorem alignLong_toNat {a : UInt32} (h : a.toNat ≤ 0x1000000) :
    (alignLong a).toNat = (a.toNat + 3) / 4 * 4 := by
  induction hn : (4 - a.toNat % 4) % 4 using Nat.strongRecOn generalizing a with
  | ind n ih =>
    have hmod := and_three a
    unfold alignLong
    split
    · rename_i hzero
      rw [hzero] at hmod
      have hzero' : a.toNat % 4 = 0 := hmod.symm
      omega
    · rename_i hne
      have hne' : (a &&& 3).toNat ≠ 0 := fun h0 => hne (UInt32.toNat_inj.mp h0)
      have hnext : (a + 1).toNat = a.toNat + 1 := @toNat_advance a 1 (by omega)
      rw [ih _ (by omega) (by omega) rfl, hnext]
      omega

/-! ### A proper layout -/

/-- The fields of the basepage that describe the program. -/
structure Basepage where
  lowtpa : UInt32
  hitpa : UInt32
  tbase : UInt32
  tlen : Int32
  dbase : UInt32
  dlen : Int32
  bbase : UInt32
  blen : Int32
  env : UInt32
deriving DecidableEq, Repr

def Basepage.read (baseTpa : UInt32) (m : Memory) : Run Basepage := do
  let lowtpa ← readBasepage baseTpa pLowtpa m
  let hitpa ← readBasepage baseTpa pHitpa m
  let tbase ← readBasepage baseTpa pTbase m
  let tlen ← readBasepage baseTpa pTlen m
  let dbase ← readBasepage baseTpa pDbase m
  let dlen ← readBasepage baseTpa pDlen m
  let bbase ← readBasepage baseTpa pBbase m
  let blen ← readBasepage baseTpa pBlen m
  let env ← readBasepage baseTpa pEnv m
  return ⟨lowtpa, hitpa, tbase, tlen.toInt32, dbase, dlen.toInt32, bbase, blen.toInt32, env⟩

/-- Text, data and BSS follow each other behind the basepage and end inside the TPA. -/
structure Layout (b : Basepage) : Prop where
  text : b.lowtpa.toNat + sizeofBasepage.toNat ≤ b.tbase.toNat
  tlen : 0 ≤ b.tlen.toInt
  dlen : 0 ≤ b.dlen.toInt
  blen : 0 ≤ b.blen.toInt
  data : (b.dbase.toNat : Int) = b.tbase.toNat + b.tlen.toInt
  bss : (b.bbase.toNat : Int) = b.dbase.toNat + b.dlen.toInt
  fits : b.bbase.toNat + b.blen.toInt ≤ b.hitpa.toNat

/-- Nothing outside the TPA has changed. -/
def Confined (baseTpa : UInt32) (m m' : Memory) : Prop :=
  ∀ x, x < baseTpa.toNat ∨ 0x1000000 ≤ x → m' x = m x

/-- The file has a header with the magic number, and the program is laid out properly
    behind an environment block that is complete. -/
structure Accepted (file : List UInt8) (environ argv : List (List UInt8)) (baseTpa : UInt32)
    (m m' : Memory) : Prop where
  complete : sizeofHeader ≤ file.length
  magic : ofBigEndian (file.take 2) = 0x601a
  layout : ∃ b, Basepage.read baseTpa m' = Except.ok b ∧ Layout b ∧
    Shows m' b.env.toNat (envBlock m b.env.toNat environ argv) ∧
    b.env.toNat + (envBlock m b.env.toNat environ argv).length ≤ b.tbase.toNat

/-- The first part of `LoadExe` is safe: it returns 0, or goes on with a program that it
    has accepted, and has stored nothing outside the TPA, which starts at `baseTpa`. -/
def SafeLoad (baseTpa : UInt32) (file : Option (List UInt8)) (environ argv : List (List UInt8))
    (m : Memory) : Run (Load × Mem.State) → Prop
  | Except.error _ => False
  | Except.ok (.failed m', _) => Confined baseTpa m m'
  | Except.ok (.image base _ _ m', _) =>
    base = baseTpa ∧ Confined baseTpa m m' ∧
      ∃ bytes, file = some bytes ∧ Accepted bytes environ argv baseTpa m m'

/-- Where the environment block ends. -/
def blockEnd (baseTpa : UInt32) (environ argv : List (List UInt8)) (m : Memory) : Nat :=
  baseTpa.toNat + 260 + (envBlock m (baseTpa.toNat + 260) environ argv).length

/-- The sizes of the header are not negative, and from `start` on there is room for them. -/
structure Sizes (header : TosHeader) (start : Nat) : Prop where
  tsize : 0 ≤ header.tsize.toInt
  dsize : 0 ≤ header.dsize.toInt
  bsize : 0 ≤ header.bsize.toInt
  room : start + header.tsize.toInt + header.dsize.toInt + header.bsize.toInt ≤ 0x1000000

/-- The inputs that `LoadExe` handles properly: the file cannot be opened; or the
    environment fits, and either nothing is read for text and data, or the file is a
    program whose sizes fit behind the environment. -/
def Loadable (baseTpa : UInt32) (file : Option (List UInt8)) (environ argv : List (List UInt8))
    (m : Memory) : Prop :=
  ∀ bytes, file = some bytes → blockEnd baseTpa environ argv m ≤ 0x1000000 ∧
    (bytes.length ≤ sizeofHeader ∨
      (readHeader bytes fun _ => 0).tsize + (readHeader bytes fun _ => 0).dsize = 0 ∨
      ofBigEndian (bytes.take 2) = 0x601a ∧
        Sizes (readHeader bytes fun _ => 0) ((blockEnd baseTpa environ argv m + 3) / 4 * 4))

/-- The basepage that `LoadExe` fills in. -/
def filledIn (baseTpa current : UInt32) (header : TosHeader) : Basepage where
  lowtpa := baseTpa
  hitpa := Mem.memorySz
  tbase := current
  tlen := header.tsize
  dbase := current + header.tsize.toUInt32
  dlen := header.dsize
  bbase := current + header.tsize.toUInt32 + header.dsize.toUInt32
  blen := header.bsize
  env := baseTpa + sizeofBasepage

/-- The layout is proper exactly when the sizes are. -/
theorem layout_iff {baseTpa current : UInt32} {header : TosHeader}
    (hlo : baseTpa.toNat + 260 ≤ current.toNat) :
    Layout (filledIn baseTpa current header) ↔ Sizes header current.toNat := by
  have hend : Mem.memorySz.toNat = 0x1000000 := rfl
  have hsize : sizeofBasepage.toNat = 260 := rfl
  constructor
  · rintro ⟨-, htlen, hdlen, hblen, hdata, hbss, hfits⟩
    simp only [filledIn, hend] at htlen hdlen hblen hdata hbss hfits
    constructor
    · exact htlen
    · exact hdlen
    · exact hblen
    · omega
  · rintro ⟨htsize, hdsize, hbsize, hroom⟩
    have ht := toNat_toUInt32_of_nonneg htsize
    have hd := toNat_toUInt32_of_nonneg hdsize
    have hdata : (current + header.tsize.toUInt32).toNat =
        current.toNat + header.tsize.toUInt32.toNat := uint32_add (by omega)
    have hbss : (current + header.tsize.toUInt32 + header.dsize.toUInt32).toNat =
        (current + header.tsize.toUInt32).toNat + header.dsize.toUInt32.toNat :=
      uint32_add (by omega)
    constructor <;> simp only [filledIn, hend, hsize] <;> omega

/-! ### The memory that is set up -/

/-- All fields that are written. -/
def allFields (baseTpa current : UInt32) (header : TosHeader) : List (UInt32 × UInt32) :=
  [(pLowtpa, baseTpa), (pHitpa, Mem.memorySz), (pEnv, baseTpa + sizeofBasepage)] ++
    segmentFields baseTpa current header

/-- The basepage is filled in, the block stands behind it, and nothing else has changed. -/
structure SetUp (baseTpa current : UInt32) (header : TosHeader) (block : List UInt8)
    (m m' : Memory) : Prop where
  fields : ∀ f ∈ allFields baseTpa current header,
    Shows m' (baseTpa.toNat + f.1.toNat) (bigEndian 4 f.2.toNat)
  block : Shows m' (baseTpa.toNat + 260) block
  confined : Confined baseTpa m m'

theorem allFields_bounds {baseTpa current : UInt32} {header : TosHeader} :
    ∀ f ∈ allFields baseTpa current header, f.1.toNat + 4 ≤ 128 := by
  simp [allFields, segmentFields, pLowtpa, pHitpa, pEnv, pTbase, pTlen, pDbase, pDlen, pBbase,
    pBlen, pDta, pParent]

/-- What is read from a field. -/
theorem SetUp.field {baseTpa current : UInt32} {header : TosHeader} {block : List UInt8}
    {m m' : Memory} (h : SetUp baseTpa current header block m m')
    (hbase : baseTpa.toNat + 260 ≤ 0x1000000) {field value : UInt32}
    (hmem : (field, value) ∈ allFields baseTpa current header) :
    readBasepage baseTpa field m' = Except.ok value := by
  have hbound : field.toNat + 4 ≤ 128 := allFields_bounds _ hmem
  exact readBasepage_shows hbase (by omega) (h.fields _ hmem)

theorem SetUp.read {baseTpa current : UInt32} {header : TosHeader} {block : List UInt8}
    {m m' : Memory} (h : SetUp baseTpa current header block m m')
    (hbase : baseTpa.toNat + 260 ≤ 0x1000000) :
    Basepage.read baseTpa m' = Except.ok (filledIn baseTpa current header) := by
  have hread : ∀ field value, (field, value) ∈ allFields baseTpa current header →
      readBasepage baseTpa field m' = Except.ok value := fun _ _ => h.field hbase
  unfold Basepage.read
  rw [hread pLowtpa baseTpa (by simp [allFields]), Run.ok_bind,
    hread pHitpa Mem.memorySz (by simp [allFields]), Run.ok_bind,
    hread pTbase current (by simp [allFields, segmentFields]), Run.ok_bind,
    hread pTlen header.tsize.toUInt32 (by simp [allFields, segmentFields]), Run.ok_bind,
    hread pDbase (current + header.tsize.toUInt32) (by simp [allFields, segmentFields]),
    Run.ok_bind,
    hread pDlen header.dsize.toUInt32 (by simp [allFields, segmentFields]), Run.ok_bind,
    hread pBbase (current + header.tsize.toUInt32 + header.dsize.toUInt32)
      (by simp [allFields, segmentFields]), Run.ok_bind,
    hread pBlen header.bsize.toUInt32 (by simp [allFields, segmentFields]), Run.ok_bind,
    hread pEnv (baseTpa + sizeofBasepage) (by simp [allFields]), Run.ok_bind]
  rfl

/-- Text that is stored behind the block and inside the RAM leaves it all in place. -/
theorem SetUp.store {baseTpa current : UInt32} {header : TosHeader} {block chars : List UInt8}
    {m m' : Memory} (h : SetUp baseTpa current header block m m') {a : Nat}
    (ha : baseTpa.toNat + 260 + block.length ≤ a) (hend : a + chars.length ≤ 0x1000000) :
    SetUp baseTpa current header block m (write m' a chars) := by
  constructor
  · intro f hf
    have hbound := allFields_bounds f hf
    apply (h.fields f hf).write
    rw [bigEndian_length]
    omega
  · exact h.block.write (Or.inl ha)
  · intro x hx
    rw [write_outside m' (by omega)]
    exact h.confined x hx

/-- The fields that are written in front of the strings. -/
def firstFields (baseTpa : UInt32) : List (UInt32 × UInt32) :=
  [(pLowtpa, baseTpa), (pHitpa, Mem.memorySz), (pEnv, baseTpa + sizeofBasepage)]

theorem firstFields_bounds {baseTpa : UInt32} :
    ∀ f ∈ firstFields baseTpa, f.1.toNat + 4 ≤ 8 ∨ 40 ≤ f.1.toNat ∧ f.1.toNat + 4 ≤ 128 := by
  simp [firstFields, pLowtpa, pHitpa, pEnv]

theorem setUp_eq {baseTpa : UInt32} {environ argv : List (List UInt8)} {header : TosHeader}
    {m : Memory} (hbase : baseTpa.toNat + 260 ≤ 0x1000000) :
    setUp baseTpa header environ argv m =
      (copyStrings baseTpa environ argv (writeFields baseTpa.toNat (firstFields baseTpa) m) >>=
        fun r => writeSegments baseTpa (alignLong r.1) header r.2) := by
  simp (disch := decide) only [setUp, writeBasepage_ok hbase, Run.ok_bind]
  rfl

theorem envBlock_firstFields {baseTpa : UInt32} (environ argv : List (List UInt8)) (m : Memory) :
    envBlock (writeFields baseTpa.toNat (firstFields baseTpa) m) (baseTpa.toNat + 260)
      environ argv = envBlock m (baseTpa.toNat + 260) environ argv := by
  unfold envBlock envStrings
  rw [argvEntry_congr]
  intro x hx
  apply writeFields_outside
  intro f hf
  have hbound := firstFields_bounds f hf
  omega

/-- When the environment block fits, everything in front of the text is set up. -/
theorem setUp_fits {baseTpa : UInt32} {environ argv : List (List UInt8)} (header : TosHeader)
    {m : Memory} (hargc : argv.length < 2 ^ 31) (hbase : baseTpa.toNat + 260 ≤ 0x1000000)
    (hfit : blockEnd baseTpa environ argv m ≤ 0x1000000) :
    ∃ current m', setUp baseTpa header environ argv m = Except.ok m' ∧
      current.toNat = (blockEnd baseTpa environ argv m + 3) / 4 * 4 ∧
      SetUp baseTpa current header (envBlock m (baseTpa.toNat + 260) environ argv) m m' := by
  obtain ⟨m₁, htail, hspec⟩ := @copyStrings_spec baseTpa environ argv
    (writeFields baseTpa.toNat (firstFields baseTpa) m) hargc hbase
  rw [envBlock_firstFields] at hspec
  have hcopy := (hspec _).mpr ⟨hfit, rfl⟩
  have hargs : (baseTpa + pCmdlin).toNat = baseTpa.toNat + 128 :=
    @toNat_advance baseTpa 128 (by omega)
  have henv : (baseTpa + sizeofBasepage).toNat = baseTpa.toNat + 260 :=
    @toNat_advance baseTpa 260 hbase
  unfold blockEnd at hfit ⊢
  generalize envBlock m (baseTpa.toNat + 260) environ argv = block at hfit hcopy ⊢
  have hcurrent : (baseTpa + sizeofBasepage + UInt32.ofNat block.length).toNat =
      baseTpa.toNat + 260 + block.length := by
    rw [toNat_advance (by omega), henv]
  -- what the segment fields, the block and the command tail leave alone
  have hsame : ∀ current x, (x < baseTpa.toNat + 8 ∨ baseTpa.toNat + 40 ≤ x) →
      (x < baseTpa.toNat + 128 ∨ baseTpa.toNat + 260 + block.length ≤ x) →
      writeFields baseTpa.toNat (segmentFields baseTpa current header)
          (write m₁ (baseTpa.toNat + 260) block) x =
        writeFields baseTpa.toNat (firstFields baseTpa) m x := by
    intro current x hx hx'
    rw [writeFields_outside, write_outside, htail.outside]
    · omega
    · omega
    · intro f hf
      have hbound := segmentFields_bounds f hf
      omega
  refine ⟨alignLong (baseTpa + sizeofBasepage + UInt32.ofNat block.length),
    writeFields baseTpa.toNat (segmentFields baseTpa (alignLong (baseTpa + sizeofBasepage +
      UInt32.ofNat block.length)) header) (write m₁ (baseTpa.toNat + 260) block), ?_, ?_, ?_, ?_, ?_⟩
  · rw [setUp_eq hbase, hcopy]
    exact writeSegments_ok hbase _ header _
  · rw [alignLong_toNat (by omega), hcurrent]
  · intro f hf
    rcases List.mem_append.mp hf with hf | hf
    · have hbound := firstFields_bounds f hf
      have hpairwise : (firstFields baseTpa).Pairwise fun f g => f.1.toNat + 4 ≤ g.1.toNat := by
        simp [firstFields, pLowtpa, pHitpa, pEnv]
      apply (shows_writeFields hpairwise hf m).congr
      intro x hlo hhi
      rw [bigEndian_length] at hhi
      exact hsame _ x (by omega) (by omega)
    · exact shows_writeFields (segmentFields_pairwise _ header) hf _
  · apply (shows_write m₁ (baseTpa.toNat + 260) block).congr
    intro x hlo hhi
    apply writeFields_outside
    intro f hf
    have hbound := segmentFields_bounds f hf
    omega
  · intro x hx
    rw [hsame _ x (by omega) (by omega)]
    apply writeFields_outside
    intro f hf
    have hbound := firstFields_bounds f hf
    omega

/-- When it does not fit, the copying leaves the RAM. -/
theorem setUp_overrun {baseTpa : UInt32} {environ argv : List (List UInt8)}
    {header : TosHeader} {m : Memory} (hargc : argv.length < 2 ^ 31)
    (hbase : baseTpa.toNat + 260 ≤ 0x1000000)
    (hfit : ¬ blockEnd baseTpa environ argv m ≤ 0x1000000) (m' : Memory) :
    setUp baseTpa header environ argv m ≠ Except.ok m' := by
  obtain ⟨m₁, -, hspec⟩ := @copyStrings_spec baseTpa environ argv
    (writeFields baseTpa.toNat (firstFields baseTpa) m) hargc hbase
  rw [envBlock_firstFields] at hspec
  intro hrun
  rw [setUp_eq hbase] at hrun
  obtain ⟨r, hcopy, -⟩ := Run.bind_eq_ok.mp hrun
  exact hfit ((hspec r).mp hcopy).1

/-! ### The contract -/

theorem readHeader_complete {bytes : List UInt8} (h : sizeofHeader ≤ bytes.length)
    (unset unset' : Nat → UInt8) : readHeader bytes unset = readHeader bytes unset' := by
  have hbytes : headerBytes bytes unset = headerBytes bytes unset' := by
    apply List.map_congr_left
    intro i hi
    have hlt := List.mem_range.mp hi
    rw [List.getElem?_eq_getElem (by omega)]
    rfl
  unfold readHeader
  rw [hbytes]

/-- `Malloc(Malloc(-1))` after `InitCookieJar`. -/
theorem malloc_tpa {s : Mem.State}
    (hboot : Mem.malloc 0x800 Mem.initMemory = Except.ok (0x10000, s)) :
    ∃ s₁ s₂, Mem.malloc (-1) s = Except.ok (0xfef800, s₁) ∧
      Mem.malloc (0xfef800 : UInt32).toInt32 s₁ = Except.ok (0x10800, s₂) := by
  have hrun : Mem.malloc 0x800 Mem.initMemory = Except.ok _ := rfl
  rw [hrun] at hboot
  cases hboot
  exact ⟨_, _, rfl, rfl⟩

/-- The `fread` of text and data goes to where the text starts. -/
theorem readSegments_setUp {baseTpa current : UInt32} {header : TosHeader}
    {block : List UInt8} {m m' : Memory} (h : SetUp baseTpa current header block m m')
    (hbase : baseTpa.toNat + 260 ≤ 0x1000000) (rest : List UInt8) :
    readSegments baseTpa rest m' =
      (poke current.toNat
        (rest.take (header.tsize.toUInt32 + header.dsize.toUInt32).toNat) m' >>=
        fun m => Except.ok
          ((rest.take (header.tsize.toUInt32 + header.dsize.toUInt32).toNat).length, m)) := by
  have hread : ∀ field value, (field, value) ∈ allFields baseTpa current header →
      readBasepage baseTpa field m' = Except.ok value := fun _ _ => h.field hbase
  unfold readSegments
  rw [hread pTbase current (by simp [allFields, segmentFields]), Run.ok_bind,
    hread pTlen header.tsize.toUInt32 (by simp [allFields, segmentFields]), Run.ok_bind,
    hread pDlen header.dsize.toUInt32 (by simp [allFields, segmentFields]), Run.ok_bind]
  rfl

theorem toUInt32_add_eq_zero {a b : Int32} : a.toUInt32 + b.toUInt32 = 0 ↔ a + b = 0 := by
  rw [← Int32.toUInt32_add]
  exact ⟨fun h => congrArg UInt32.toInt32 h, fun h => congrArg Int32.toUInt32 h⟩

/-- Nothing is read for text and data. -/
theorem take_segments_eq_nil {bytes : List UInt8} {header : TosHeader} :
    (bytes.drop sizeofHeader).take
        (header.tsize.toUInt32 + header.dsize.toUInt32).toNat = [] ↔
      bytes.length ≤ sizeofHeader ∨ header.tsize + header.dsize = 0 := by
  rw [List.take_eq_nil_iff, List.drop_eq_nil_iff, ← toUInt32_add_eq_zero, ← UInt32.toNat_inj]
  exact or_comm

section Contract

variable {s : Mem.State} {environ argv : List (List UInt8)} {m : Memory}

/-- Text and data end in front of the end of the RAM. -/
theorem Sizes.chars_fit {header : TosHeader} {start count : Nat} (h : Sizes header start)
    (hcount : count ≤ (header.tsize.toUInt32 + header.dsize.toUInt32).toNat) :
    start + count ≤ 0x1000000 := by
  obtain ⟨htsize, hdsize, hbsize, hroom⟩ := h
  have ht := toNat_toUInt32_of_nonneg htsize
  have hd := toNat_toUInt32_of_nonneg hdsize
  rw [uint32_add (by omega)] at hcount
  omega

/-- `LoadExe` behind its two calls of `Malloc`. -/
theorem loadImage_some (hboot : Mem.malloc 0x800 Mem.initMemory = Except.ok (0x10000, s))
    (bytes : List UInt8) (unset : Nat → UInt8) (environ argv : List (List UInt8)) (m : Memory) :
    ∃ s₂, loadImage (some bytes) unset environ argv s m =
      (setUp 0x10800 (readHeader bytes unset) environ argv m >>= fun m =>
        readSegments 0x10800 (bytes.drop sizeofHeader) m >>= fun r =>
          if r.1 = 0 then Except.ok (.failed r.2, s₂)
          else Except.ok
            (.image 0x10800 (sizeofHeader + r.1) (readHeader bytes unset) r.2, s₂)) := by
  obtain ⟨s₁, s₂, hmax, htpa⟩ := malloc_tpa hboot
  refine ⟨s₂, ?_⟩
  unfold loadImage
  dsimp only
  rw [hmax, Run.ok_bind]
  dsimp only
  rw [htpa, Run.ok_bind]
  rfl

/-- A program whose sizes fit behind the environment is laid out properly. -/
theorem accepted_iff {bytes : List UInt8} {current : UInt32} {unset : Nat → UInt8}
    {m' : Memory}
    (hset : SetUp 0x10800 current (readHeader bytes unset)
      (envBlock m (0x10800 + 260) environ argv) m m')
    (hblock : 0x10800 + 260 + (envBlock m (0x10800 + 260) environ argv).length ≤ current.toNat)
    (hlong : sizeofHeader < bytes.length) :
    Accepted bytes environ argv 0x10800 m m' ↔
      ofBigEndian (bytes.take 2) = 0x601a ∧ Sizes (readHeader bytes unset) current.toNat := by
  have hread := hset.read (by decide)
  have hbase : (0x10800 : UInt32).toNat = 0x10800 := rfl
  constructor
  · rintro ⟨-, hmagic, b, hb, hlayout, -, -⟩
    rw [hread] at hb
    cases hb
    exact ⟨hmagic, (layout_iff (by omega)).mp hlayout⟩
  · rintro ⟨hmagic, hsizes⟩
    have henv : (filledIn 0x10800 current (readHeader bytes unset)).env.toNat = 0x10800 + 260 :=
      rfl
    refine ⟨Nat.le_of_lt hlong, hmagic, _, hread, (layout_iff (by omega)).mpr hsizes, ?_, ?_⟩
    · rw [henv]
      exact hset.block
    · rw [henv]
      exact hblock

/-- The text and the data that were read go where they belong if and only if the sizes fit. -/
theorem segments_safe_iff {bytes chars : List UInt8} {current : UInt32} {unset : Nat → UInt8}
    {m₁ : Memory} {s₂ : Mem.State} (file : TosHeader) (position : Nat)
    (hset : SetUp 0x10800 current (readHeader bytes unset)
      (envBlock m (0x10800 + 260) environ argv) m m₁)
    (hblock : 0x10800 + 260 + (envBlock m (0x10800 + 260) environ argv).length ≤ current.toNat)
    (hram : current.toNat ≤ 0x1000000) (hlong : sizeofHeader < bytes.length)
    (hle : chars.length ≤ ((readHeader bytes unset).tsize.toUInt32 +
      (readHeader bytes unset).dsize.toUInt32).toNat) :
    SafeLoad 0x10800 (some bytes) environ argv m (poke current.toNat chars m₁ >>= fun m' =>
        Except.ok (.image 0x10800 position file m', s₂)) ↔
      ofBigEndian (bytes.take 2) = 0x601a ∧ Sizes (readHeader bytes unset) current.toNat := by
  constructor
  · intro hsafe
    cases hpoke : poke current.toNat chars m₁ with
    | error e =>
      rw [hpoke] at hsafe
      cases hsafe
    | ok m' =>
      obtain ⟨hroom, rfl⟩ := (poke_eq_ok (by omega)).mp hpoke
      rw [hpoke, Run.ok_bind] at hsafe
      obtain ⟨-, -, bytes', hbytes, haccepted⟩ := hsafe
      cases hbytes
      exact (accepted_iff (hset.store hblock hroom) hblock hlong).mp haccepted
  · intro hprogram
    have hroom := hprogram.2.chars_fit hle
    have hstore := hset.store hblock hroom
    rw [poke_ok hroom, Run.ok_bind]
    exact ⟨rfl, hstore.confined, bytes, rfl, (accepted_iff hstore hblock hlong).mpr hprogram⟩

/-- `LoadExe` lays a program out properly, or gives up, exactly on the inputs that are
    loadable. -/
theorem load_safe_iff (hboot : Mem.malloc 0x800 Mem.initMemory = Except.ok (0x10000, s))
    (file : Option (List UInt8)) (unset : Nat → UInt8) (environ argv : List (List UInt8))
    (m : Memory) (hargc : argv.length < 2 ^ 31) :
    SafeLoad 0x10800 file environ argv m (loadImage file unset environ argv s m) ↔
      Loadable 0x10800 file environ argv m := by
  cases file with
  | none =>
    constructor
    · intro _ bytes hbytes
      cases hbytes
    · intro _ x _
      rfl
  | some bytes =>
    obtain ⟨s₂, hload⟩ := loadImage_some hboot bytes unset environ argv m
    rw [hload]
    have hloadable : Loadable 0x10800 (some bytes) environ argv m ↔
        blockEnd 0x10800 environ argv m ≤ 0x1000000 ∧
          (bytes.length ≤ sizeofHeader ∨
            (readHeader bytes fun _ => 0).tsize + (readHeader bytes fun _ => 0).dsize = 0 ∨
            ofBigEndian (bytes.take 2) = 0x601a ∧ Sizes (readHeader bytes fun _ => 0)
              ((blockEnd 0x10800 environ argv m + 3) / 4 * 4)) :=
      ⟨fun h => h bytes rfl, fun h bytes' hbytes => by cases hbytes; exact h⟩
    rw [hloadable]
    by_cases hfit : blockEnd 0x10800 environ argv m ≤ 0x1000000
    · obtain ⟨current, m₁, hsetUp, hcurrent, hset⟩ :=
        setUp_fits (readHeader bytes unset) hargc (by decide) hfit
      have hblock : 0x10800 + 260 + (envBlock m (0x10800 + 260) environ argv).length ≤
          current.toNat := by
        have hend : blockEnd 0x10800 environ argv m =
          0x10800 + 260 + (envBlock m (0x10800 + 260) environ argv).length := rfl
        omega
      rw [hsetUp, Run.ok_bind, readSegments_setUp hset (by decide)]
      by_cases hnone : (bytes.drop sizeofHeader).take ((readHeader bytes unset).tsize.toUInt32 +
          (readHeader bytes unset).dsize.toUInt32).toNat = []
      · -- nothing was read
        have hnothing := take_segments_eq_nil.mp hnone
        rw [hnone]
        constructor
        · intro _
          refine ⟨hfit, ?_⟩
          rcases Nat.lt_or_ge sizeofHeader bytes.length with hlong | hshort
          · rw [readHeader_complete (Nat.le_of_lt hlong) (fun _ => 0) unset]
            exact hnothing.elim Or.inl fun h => Or.inr (Or.inl h)
          · exact Or.inl hshort
        · intro _
          rw [poke_nil, Run.ok_bind, Run.ok_bind]
          exact hset.confined
      · have hsome := mt take_segments_eq_nil.mpr hnone
        rw [not_or] at hsome
        obtain ⟨hlong, hsum⟩ := hsome
        rw [Nat.not_le] at hlong
        rw [readHeader_complete (Nat.le_of_lt hlong) (fun _ => 0) unset, ← hcurrent]
        have hle : ((bytes.drop sizeofHeader).take ((readHeader bytes unset).tsize.toUInt32 +
            (readHeader bytes unset).dsize.toUInt32).toNat).length ≤
            ((readHeader bytes unset).tsize.toUInt32 +
              (readHeader bytes unset).dsize.toUInt32).toNat := List.length_take_le _ _
        generalize (bytes.drop sizeofHeader).take ((readHeader bytes unset).tsize.toUInt32 +
          (readHeader bytes unset).dsize.toUInt32).toNat = chars at hnone hle ⊢
        have hcount : chars.length ≠ 0 := mt List.length_eq_zero_iff.mp hnone
        simp only [bind_assoc, Run.ok_bind, if_neg hcount]
        rw [segments_safe_iff _ _ hset hblock (by omega) hlong hle]
        constructor
        · intro hprogram
          exact ⟨hfit, Or.inr (Or.inr hprogram)⟩
        · rintro ⟨-, hshort | hzero | hprogram⟩
          · exact absurd hshort (Nat.not_le.mpr hlong)
          · exact absurd hzero hsum
          · exact hprogram
    · -- the environment does not fit
      constructor
      · intro hsafe
        cases hrun : setUp 0x10800 (readHeader bytes unset) environ argv m with
        | error e =>
          rw [hrun] at hsafe
          cases hsafe
        | ok m' => exact absurd hrun (setUp_overrun hargc (by decide) hfit m')
      · rintro ⟨h, -⟩
        exact absurd h hfit

end Contract

/-- One byte of text, and a BSS whose size has the given high byte. -/
def sampleFile (bsize : UInt8) : List UInt8 :=
  [0x60, 0x1a, 0, 0, 0, 1, 0, 0, 0, 0, bsize] ++ List.replicate 17 0 ++ [0x4e]

def sampleArgv : List (List UInt8) := [[0x70]]

/-- Without a BSS there is room. -/
theorem load_safe_small :
    ∃ s, SafeLoad 0x10800 (some (sampleFile 0)) [] sampleArgv initM68KMemory
      (loadImage (some (sampleFile 0)) (fun _ => 0) [] sampleArgv s initM68KMemory) := by
  obtain ⟨s, hboot⟩ : ∃ s, Mem.malloc 0x800 Mem.initMemory = Except.ok (0x10000, s) :=
    ⟨_, rfl⟩
  refine ⟨s, (load_safe_iff hboot (some (sampleFile 0)) (fun _ => 0) [] sampleArgv
    initM68KMemory (by decide)).mpr ?_⟩
  intro bytes hbytes
  cases hbytes
  refine ⟨by decide +kernel, Or.inr (Or.inr ⟨by decide +kernel, ?_⟩)⟩
  constructor <;> decide +kernel

/-- A BSS of 2130706432 bytes is accepted as well. -/
theorem bss_too_large :
    ∃ s, Mem.malloc 0x800 Mem.initMemory = Except.ok (0x10000, s) ∧
      ¬ SafeLoad 0x10800 (some (sampleFile 0x7f)) [] sampleArgv initM68KMemory
        (loadImage (some (sampleFile 0x7f)) (fun _ => 0) [] sampleArgv s initM68KMemory) := by
  have hrun : (do
      let booted ← Mem.malloc 0x800 Mem.initMemory
      let (load, _) ← loadImage (some (sampleFile 0x7f)) (fun _ => 0) [] sampleArgv booted.2
        initM68KMemory
      match load with
      | .failed _ => Except.error .diverges
      | .image base _ _ m => do
        let b ← Basepage.read base m
        return (booted.1, b)) =
      Except.ok (0x10000,
        ⟨0x10800, 0x1000000, 0x10910, 1, 0x10911, 0, 0x10911, 0x7f000000, 0x10904⟩) := by
    decide +kernel
  obtain ⟨⟨address, s⟩, hboot, hrun⟩ := Run.bind_eq_ok.mp hrun
  obtain ⟨⟨load, s'⟩, hload, hrun⟩ := Run.bind_eq_ok.mp hrun
  cases load with
  | failed m => cases hrun
  | image base position header m =>
    obtain ⟨b, hread, hpair⟩ := Run.bind_eq_ok.mp hrun
    cases hpair
    refine ⟨s, hboot, ?_⟩
    rw [hload]
    rintro ⟨rfl, -, bytes, -, haccepted⟩
    obtain ⟨b, hb, hlayout, -⟩ := haccepted.layout
    rw [hread] at hb
    cases hb
    exact absurd hlayout.fits (by decide)

end ParaTos.Loader
