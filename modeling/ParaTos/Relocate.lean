/-
  ParaTos/Relocate.lean
  =====================
  **The fixup loops of `LoadExe`** (`gemdos/loader.c`), step by step.

  Behind the symbols a program file lists the longwords of text and data that the
  address of the text is added to: the first one by its offset, every other one by
  its distance from the one before, a byte each, where 1 stands for 254 and no
  longword.  A byte 0 ends the list.

  `Loop.step` does one round of the inner loop, or the patch in front of it, so that
  steps can be counted and every state in between has a memory.  `value_start` and
  `value_iterate` say that these steps compute what `relocate` does.  A file that
  keeps to the format is relocated exactly (`relocate_encoded`).  Any other file can
  keep the inner loop from ending (`fixups_end_iff`) or reach outside of text and
  data (`frame_iff`).
-/
import ParaTos.Halting
import ParaTos.LoaderBounds

namespace ParaTos.Relocate

open Bytes Memory Words Loader Halting

/-! ### The loops -/

/-- `unfixed = m68k_read_memory_32(fixup); … m68k_write_memory_32(fixup, fixed);` -/
def patch (baseTpa fixup : UInt32) (m : Memory) : Run Memory := do
  let unfixed ← readMemory32 fixup m
  let tbase ← readBasepage baseTpa pTbase m
  writeMemory32 fixup (unfixed + tbase) m

/-- Where the loops stand: in front of a patch, in front of the `fread` of the inner loop,
    behind both loops with the rest of the file, or dead. -/
inductive Loop where
  | patch (stream : List UInt8) (fixup : UInt32) (m : Memory)
  | read (delta : UInt8) (stream : List UInt8) (fixup : UInt32) (m : Memory)
  | done (stream : List UInt8) (m : Memory)
  | fault (e : Fault) (m : Memory)

namespace Loop

def memory : Loop → Memory
  | .patch _ _ m | .read _ _ _ m | .done _ m | .fault _ m => m

/-- The loops are over. -/
def Final : Loop → Prop
  | .done _ _ | .fault _ _ => True
  | _ => False

end Loop

/-- `fread(&delta, sizeof(uint8_t), 1, file);` leaves `delta` at the end of the file. -/
def readDelta (delta : UInt8) : List UInt8 → UInt8 × List UInt8
  | [] => (delta, [])
  | d :: stream => (d, stream)

/-- A patch, or a round of the inner loop. -/
def Loop.step (baseTpa : UInt32) : Loop → Loop
  | .patch stream fixup m =>
    match Relocate.patch baseTpa fixup m with
    | .ok m => .read 0 stream fixup m
    | .error e => .fault e m
  | .read delta stream fixup m =>
    let (delta, stream) := readDelta delta stream
    let fixup := fixup + if delta = 1 then 254 else delta.toUInt32
    if delta = 1 then .read delta stream fixup m
    else if delta ≠ 0 then .patch stream fixup m
    else .done stream m
  | s => s

/-- `LoadExe` from the symbols to the loops. -/
def start (file : List UInt8) (baseTpa : UInt32) (position : Nat) (header : TosHeader)
    (m : Memory) : Loop :=
  let stream := file.drop (seek position header.ssize)
  if stream.length < 4 then .done [] m
  else
    let fixup := UInt32.ofNat (ofBigEndian (stream.take 4))
    if fixup = 0 then .done (stream.drop 4) m
    else
      match readBasepage baseTpa pTbase m with
      | .ok tbase => .patch (stream.drop 4) (fixup + tbase) m
      | .error e => .fault e m

/-! ### What the steps compute -/

/-- What `LoadExe` comes to from a state on. -/
def Loop.value (baseTpa : UInt32) : Loop → Run Memory
  | .patch stream fixup m => fixupLoop baseTpa stream fixup m
  | .read delta stream fixup m =>
    match nextFixup stream delta fixup with
    | .error e => Except.error e
    | .ok (delta, fixup, rest) =>
      if delta ≠ 0 then fixupLoop baseTpa rest fixup m else Except.ok m
  | .done _ m => Except.ok m
  | .fault e _ => Except.error e

section

variable {file : List UInt8} {baseTpa : UInt32} {position : Nat} {header : TosHeader}
  {m : Memory}

theorem value_start :
    (start file baseTpa position header m).value baseTpa =
      relocate file baseTpa position header m := by
  unfold start relocate
  simp only
  split
  · rfl
  · split
    · rfl
    · cases readBasepage baseTpa pTbase m with
      | error e => rfl
      | ok tbase => rfl

/-- The outer loop is a patch and the inner loop. -/
theorem fixupLoop_eq (stream : List UInt8) (fixup : UInt32) (m : Memory) :
    fixupLoop baseTpa stream fixup m =
      patch baseTpa fixup m >>= fun m => (Loop.read 0 stream fixup m).value baseTpa := by
  rw [fixupLoop]
  unfold patch Loop.value
  simp only [bind_assoc]
  refine bind_congr fun unfixed => bind_congr fun tbase => bind_congr fun m => ?_
  split
  · rename_i e he
    rw [he]
  · rename_i delta fixup rest hok
    rw [hok]
    rfl

theorem value_patch (stream : List UInt8) (fixup : UInt32) (m : Memory) :
    ((Loop.patch stream fixup m).step baseTpa).value baseTpa =
      (Loop.patch stream fixup m).value baseTpa := by
  change _ = fixupLoop baseTpa stream fixup m
  rw [fixupLoop_eq, Loop.step]
  cases patch baseTpa fixup m with
  | error e => rfl
  | ok m' => rfl

theorem value_step (s : Loop) : (s.step baseTpa).value baseTpa = s.value baseTpa := by
  cases s with
  | patch stream fixup m => exact value_patch stream fixup m
  | read delta stream fixup m =>
    cases stream with
    | nil =>
      by_cases hone : delta = 1
      · subst hone
        rfl
      · by_cases hzero : delta = 0
        · subst hzero
          rfl
        · simp [Loop.step, Loop.value, readDelta, nextFixup, hone, hzero]
    | cons d stream =>
      by_cases hone : d = 1
      · subst hone
        simp [Loop.step, Loop.value, readDelta, nextFixup]
      · by_cases hzero : d = 0
        · subst hzero
          simp [Loop.step, Loop.value, readDelta, nextFixup]
        · simp [Loop.step, Loop.value, readDelta, nextFixup, hone, hzero]
  | done stream m => rfl
  | fault e m => rfl

/-- The steps compute what the loops do. -/
theorem value_iterate (k : Nat) (s : Loop) :
    ((Loop.step baseTpa)^[k] s).value baseTpa = s.value baseTpa := by
  induction k generalizing s with
  | zero => rfl
  | succ k ih => rw [Function.iterate_succ_apply, ih, value_step]

/-! ### A patch -/

/-- A longword can be read and written. -/
def LongMapped (a : UInt32) : Prop := ∀ i < 4, Mapped (a.toNat + i)

theorem patch_eq_ok {fixup : UInt32} {m' : Memory} :
    patch baseTpa fixup m = Except.ok m' ↔
      LongMapped fixup ∧ LongMapped (baseTpa + pTbase) ∧
        m' = write m fixup.toNat (bigEndian 4
          (longAt m fixup.toNat + longAt m (baseTpa + pTbase).toNat).toNat) := by
  simp only [patch, readBasepage, Run.bind_eq_ok, readMemory32_eq_ok, writeMemory32_eq_ok]
  constructor
  · rintro ⟨_, ⟨hmap, rfl⟩, _, ⟨hfield, rfl⟩, -, rfl⟩
    exact ⟨hmap, hfield, rfl⟩
  · rintro ⟨hmap, hfield, rfl⟩
    exact ⟨_, ⟨hmap, rfl⟩, _, ⟨hfield, rfl⟩, hmap, rfl⟩

/-- The memory that the loops find: `p_tbase` is filled in and lies outside of the `n` bytes
    of text and data. -/
structure Entry (baseTpa tbase : UInt32) (n : Nat) (m : Memory) : Prop where
  mapped : LongMapped (baseTpa + pTbase)
  field : longAt m (baseTpa + pTbase).toNat = tbase
  apart : (baseTpa + pTbase).toNat + 4 ≤ tbase.toNat ∨
    tbase.toNat + n ≤ (baseTpa + pTbase).toNat

variable {tbase : UInt32} {n : Nat}

theorem Entry.read (h : Entry baseTpa tbase n m) :
    readBasepage baseTpa pTbase m = Except.ok tbase :=
  readMemory32_eq_ok.mpr ⟨h.mapped, h.field.symm⟩

/-- Adding the address of the text to a longword. -/
def fix (tbase : UInt32) (a : Nat) (m : Memory) : Memory :=
  write m a (bigEndian 4 (longAt m a + tbase).toNat)

theorem Entry.patch_eq_ok (h : Entry baseTpa tbase n m) {fixup : UInt32} {m' : Memory} :
    patch baseTpa fixup m = Except.ok m' ↔
      LongMapped fixup ∧ m' = fix tbase fixup.toNat m := by
  rw [Relocate.patch_eq_ok, h.field]
  exact and_congr_right fun _ => and_iff_right h.mapped

/-- A patch inside text and data leaves `p_tbase`. -/
theorem Entry.fix (h : Entry baseTpa tbase n m) {a : Nat} (hlo : tbase.toNat ≤ a)
    (hhi : a + 4 ≤ tbase.toNat + n) : Entry baseTpa tbase n (fix tbase a m) := by
  refine ⟨h.mapped, ?_, h.apart⟩
  rw [← h.field]
  apply longAt_write_apart
  have hapart := h.apart
  rw [bigEndian_length]
  omega

/-- `LoadExe` comes to the loops with such a memory, for a program of any size. -/
theorem entry_of_loadImage {s s' : Mem.State} {bytes : List UInt8} {unset : Nat → UInt8}
    {environ argv : List (List UInt8)} {m₀ : Memory}
    (hboot : Mem.malloc 0x800 Mem.initMemory = Except.ok (0x10000, s))
    (hargc : argv.length < 2 ^ 31)
    (h : loadImage (some bytes) unset environ argv s m₀ =
      Except.ok (.image baseTpa position header m, s')) :
    ∃ tbase, (∀ n, Entry baseTpa tbase n m) ∧
      readBasepage baseTpa pTlen m = Except.ok header.tsize.toUInt32 ∧
      readBasepage baseTpa pDlen m = Except.ok header.dsize.toUInt32 := by
  obtain ⟨s₂, hload⟩ := loadImage_some hboot bytes unset environ argv m₀
  rw [hload] at h
  obtain ⟨m₁, hsetUp, h⟩ := Run.bind_eq_ok.mp h
  have hfit : blockEnd 0x10800 environ argv m₀ ≤ 0x1000000 := by
    by_contra hover
    exact setUp_overrun hargc (by decide) hover m₁ hsetUp
  obtain ⟨current, m₂, hsetUp', hcurrent, hset⟩ :=
    setUp_fits (readHeader bytes unset) hargc (by decide) hfit
  rw [hsetUp, Run.ok_inj] at hsetUp'
  subst hsetUp'
  have hblock : 0x10800 + 260 + (envBlock m₀ (0x10800 + 260) environ argv).length ≤
      current.toNat := by
    have hend : blockEnd 0x10800 environ argv m₀ =
      0x10800 + 260 + (envBlock m₀ (0x10800 + 260) environ argv).length := rfl
    omega
  rw [readSegments_setUp hset (by decide), bind_assoc] at h
  obtain ⟨m₃, hpoke, h⟩ := Run.bind_eq_ok.mp h
  obtain ⟨hroom, rfl⟩ := (poke_eq_ok (by omega)).mp hpoke
  rw [Run.ok_bind] at h
  split at h
  · cases h
  · cases h
    have hstore := hset.store hblock hroom
    have hread : ∀ field value, (field, value) ∈ allFields 0x10800 current
        (readHeader bytes unset) → readBasepage 0x10800 field _ = Except.ok value :=
      fun _ _ => hstore.field (by decide)
    have htbase := readMemory32_eq_ok.mp
      (hread pTbase current (by simp [allFields, segmentFields]))
    refine ⟨current, fun n => ⟨htbase.1, htbase.2.symm, Or.inl ?_⟩,
      hread pTlen _ (by simp [allFields, segmentFields]),
      hread pDlen _ (by simp [allFields, segmentFields])⟩
    have haddr : ((0x10800 : UInt32) + pTbase).toNat = 0x10808 := rfl
    omega

/-! ### Files that keep to the format -/

/-- A distance between two longwords: bytes 1 and what is left, which is at least 2. -/
def gapBytes (g : Nat) : List UInt8 :=
  List.replicate ((g - 2) / 254) 1 ++ [UInt8.ofNat ((g - 2) % 254 + 2)]

/-- The bytes behind the first offset. -/
def gapsFrom : Nat → List Nat → List UInt8
  | _, [] => [0]
  | o, o' :: os => gapBytes (o' - o) ++ gapsFrom o' os

/-- A list of offsets in the format of a program file. -/
def encode : List Nat → List UInt8
  | [] => bigEndian 4 0
  | o :: os => bigEndian 4 o ++ gapsFrom o os

/-- Offsets of separate longwords in `n` bytes, an even number of bytes apart. -/
structure Offsets (n : Nat) (os : List Nat) : Prop where
  pos : ∀ o ∈ os, 0 < o
  gaps : os.IsChain fun o o' => o + 4 ≤ o' ∧ 2 ∣ o' - o
  inside : ∀ o ∈ os, o + 4 ≤ n

theorem Offsets.tail {o : Nat} {os : List Nat} (h : Offsets n (o :: os)) : Offsets n os :=
  ⟨fun o' ho' => h.pos o' (List.mem_cons_of_mem o ho'), h.gaps.of_cons,
    fun o' ho' => h.inside o' (List.mem_cons_of_mem o ho')⟩

theorem step_one (delta : UInt8) (stream : List UInt8) (fixup : UInt32) (m : Memory) :
    (Loop.read delta (1 :: stream) fixup m).step baseTpa = .read 1 stream (fixup + 254) m := rfl

theorem step_place {delta d : UInt8} {stream : List UInt8} {fixup : UInt32} {m : Memory}
    (hzero : d ≠ 0) (hone : d ≠ 1) :
    (Loop.read delta (d :: stream) fixup m).step baseTpa =
      .patch stream (fixup + d.toUInt32) m := by
  simp [Loop.step, readDelta, hone, hzero]

/-- A run of bytes 1 moves on by 254 each. -/
theorem steps_ones (k : Nat) (stream : List UInt8) (m : Memory) :
    ∀ delta fixup, ∃ delta',
      (Loop.step baseTpa)^[k] (.read delta (List.replicate k 1 ++ stream) fixup m) =
        .read delta' stream (fixup + UInt32.ofNat (254 * k)) m := by
  induction k with
  | zero =>
    intro delta fixup
    exact ⟨delta, by simp⟩
  | succ k ih =>
    intro delta fixup
    obtain ⟨delta', h⟩ := ih 1 (fixup + 254)
    refine ⟨delta', ?_⟩
    rw [Function.iterate_succ_apply, List.replicate_succ, List.cons_append, step_one, h,
      Nat.mul_succ, Nat.add_comm (254 * k)]
    exact congrArg (Loop.read delta' stream · m) (advance_advance fixup 254 (254 * k))

/-- The bytes of a distance lead to the patch at that distance. -/
theorem steps_gap {g : Nat} (hg : 4 ≤ g) (heven : 2 ∣ g) (delta : UInt8)
    (stream : List UInt8) (fixup : UInt32) (m : Memory) :
    ∃ k, (Loop.step baseTpa)^[k] (.read delta (gapBytes g ++ stream) fixup m) =
      .patch stream (fixup + UInt32.ofNat g) m := by
  obtain ⟨delta', hones⟩ := @steps_ones baseTpa ((g - 2) / 254)
    (UInt8.ofNat ((g - 2) % 254 + 2) :: stream) m delta fixup
  refine ⟨(g - 2) / 254 + 1, ?_⟩
  rw [Function.iterate_succ_apply', gapBytes, List.append_assoc, List.singleton_append, hones]
  have hlt : (g - 2) % 254 + 2 < 256 := by omega
  have hbyte : (UInt8.ofNat ((g - 2) % 254 + 2)).toNat = (g - 2) % 254 + 2 :=
    UInt8.toNat_ofNat_of_lt' hlt
  generalize UInt8.ofNat ((g - 2) % 254 + 2) = d at hbyte
  have hone : d ≠ 1 := by
    rintro rfl
    change 1 = _ at hbyte
    omega
  have hzero : d ≠ 0 := by
    rintro rfl
    change 0 = _ at hbyte
    omega
  have hd : d.toUInt32 = UInt32.ofNat ((g - 2) % 254 + 2) := by
    rw [← hbyte]
    exact (UInt32.ofNat_uInt8ToNat d).symm
  rw [step_place hzero hone, hd, advance_advance]
  congr 3
  omega

/-- What the loops leave of an image with the given offsets. -/
def fixAll (tbase : UInt32) (os : List Nat) (m : Memory) : Memory :=
  os.foldl (fun m o => fix tbase (tbase.toNat + o) m) m

/-- Text and data are mapped. -/
def ImageMapped (tbase : UInt32) (n : Nat) : Prop := ∀ i < n, Mapped (tbase.toNat + i)

theorem ImageMapped.address (h : ImageMapped tbase n) {o : Nat} (ho : o + 4 ≤ n) :
    (tbase + UInt32.ofNat o).toNat = tbase.toNat + o := by
  have hlt := mapped_lt (h o (by omega))
  have hsize : (UInt32.ofNat o).toNat = o := by
    apply UInt32.toNat_ofNat_of_lt'
    unfold UInt32.size
    omega
  rw [uint32_add (by omega), hsize]

/-- The patch of a longword of the image. -/
theorem Entry.patch_image (hentry : Entry baseTpa tbase n m) (himage : ImageMapped tbase n)
    {o : Nat} (ho : o + 4 ≤ n) :
    patch baseTpa (tbase + UInt32.ofNat o) m =
      Except.ok (Relocate.fix tbase (tbase.toNat + o) m) := by
  have haddr := himage.address ho
  rw [← haddr]
  apply hentry.patch_eq_ok.mpr
  refine ⟨?_, rfl⟩
  intro i hi
  rw [haddr, Nat.add_assoc]
  exact himage _ (by omega)

/-- The loops on the rest of a list. -/
theorem steps_gaps (himage : ImageMapped tbase n) (junk : List UInt8) (os : List Nat) :
    ∀ o m, Entry baseTpa tbase n m → Offsets n (o :: os) →
      ∃ k, (Loop.step baseTpa)^[k]
        (.patch (gapsFrom o os ++ junk) (tbase + UInt32.ofNat o) m) =
          .done junk (fixAll tbase (o :: os) m) := by
  induction os with
  | nil =>
    intro o m hentry hoff
    have hpatch := hentry.patch_image himage (hoff.inside o List.mem_cons_self)
    refine ⟨2, ?_⟩
    rw [Function.iterate_succ_apply, Loop.step, hpatch]
    rfl
  | cons o' os ih =>
    intro o m hentry hoff
    have hin := hoff.inside o List.mem_cons_self
    have hpatch := hentry.patch_image himage hin
    obtain ⟨⟨hgap, heven⟩, -⟩ := List.isChain_cons_cons.mp hoff.gaps
    obtain ⟨k₁, hsteps⟩ := @steps_gap baseTpa (o' - o) (by omega) heven 0
      (gapsFrom o' os ++ junk) (tbase + UInt32.ofNat o) (fix tbase (tbase.toNat + o) m)
    obtain ⟨k₂, hrest⟩ := ih o' (fix tbase (tbase.toNat + o) m)
      (hentry.fix (by omega) (by omega)) hoff.tail
    have hnext : tbase + UInt32.ofNat o + UInt32.ofNat (o' - o) = tbase + UInt32.ofNat o' := by
      rw [advance_advance, Nat.add_sub_cancel' (by omega)]
    refine ⟨k₂ + k₁ + 1, ?_⟩
    rw [Function.iterate_succ_apply, Loop.step, hpatch, gapsFrom, List.append_assoc,
      Function.iterate_add_apply]
    dsimp only
    rw [hsteps, hnext, hrest]
    rfl

/-- The longwords of a list do not overlap. -/
theorem Offsets.apart {o : Nat} {os : List Nat} (h : Offsets n (o :: os)) :
    ∀ o' ∈ os, o + 4 ≤ o' := by
  have htrans : ∀ {a b c : Nat}, a + 4 ≤ b ∧ 2 ∣ b - a → b + 4 ≤ c ∧ 2 ∣ c - b →
      a + 4 ≤ c ∧ 2 ∣ c - a := by
    intro a b c hab hbc
    omega
  have _htrans : Trans (fun o o' => o + 4 ≤ o' ∧ 2 ∣ o' - o) (fun o o' => o + 4 ≤ o' ∧ 2 ∣ o' - o)
      (fun o o' : Nat => o + 4 ≤ o' ∧ 2 ∣ o' - o) := ⟨htrans⟩
  intro o' ho'
  exact ((List.pairwise_cons.mp h.gaps.pairwise).1 o' ho').1

theorem fixAll_outside {os : List Nat} {x : Nat} :
    ∀ m, (∀ o ∈ os, x < tbase.toNat + o ∨ tbase.toNat + o + 4 ≤ x) →
      fixAll tbase os m x = m x := by
  induction os with
  | nil => exact fun _ _ => rfl
  | cons o os ih =>
    intro m hx
    change fixAll tbase os (fix tbase (tbase.toNat + o) m) x = m x
    rw [ih _ fun o' ho' => hx o' (List.mem_cons_of_mem o ho')]
    apply write_outside
    rw [bigEndian_length]
    exact hx o List.mem_cons_self

/-- Each longword gets the address of the text once. -/
theorem fixAll_longAt {os : List Nat} : ∀ m, Offsets n os → ∀ o ∈ os,
    longAt (fixAll tbase os m) (tbase.toNat + o) = longAt m (tbase.toNat + o) + tbase := by
  induction os with
  | nil =>
    intro m _ o ho
    cases ho
  | cons o os ih =>
    intro m hoff o' ho'
    change longAt (fixAll tbase os (fix tbase (tbase.toNat + o) m)) _ = _
    rcases List.mem_cons.mp ho' with rfl | ho'
    · have hrest : longAt (fixAll tbase os (fix tbase (tbase.toNat + o') m)) (tbase.toNat + o') =
          longAt (fix tbase (tbase.toNat + o') m) (tbase.toNat + o') := by
        apply longAt_congr
        intro i hi
        apply fixAll_outside
        intro o ho
        have hlt := hoff.apart o ho
        omega
      rw [hrest]
      exact longAt_write m _ _
    · have hlt := hoff.apart o' ho'
      have hother : longAt (fix tbase (tbase.toNat + o) m) (tbase.toNat + o') =
          longAt m (tbase.toNat + o') :=
        longAt_write_apart m (by rw [bigEndian_length]; omega)
      rw [ih _ hoff.tail o' ho', hother]

/-- The loops start at the first longword of a list. -/
theorem start_encoded {o : Nat} {os : List Nat} {junk : List UInt8}
    (hfile : file.drop (seek position header.ssize) = encode (o :: os) ++ junk)
    (hpos : 0 < o) (ho : o < 2 ^ 32) (hentry : Entry baseTpa tbase n m) :
    start file baseTpa position header m =
      .patch (gapsFrom o os ++ junk) (tbase + UInt32.ofNat o) m := by
  have hlong : ¬(encode (o :: os) ++ junk).length < 4 := by
    rw [encode, List.append_assoc, List.length_append, bigEndian_length]
    omega
  have htake : (encode (o :: os) ++ junk).take 4 = bigEndian 4 o := by
    rw [encode, List.append_assoc, List.take_append_of_le_length (by simp),
      List.take_of_length_le (by simp)]
  have hdrop : (encode (o :: os) ++ junk).drop 4 = gapsFrom o os ++ junk := by
    rw [encode, List.append_assoc, List.drop_append_of_le_length (by simp),
      List.drop_of_length_le (by simp), List.nil_append]
  have hpow : 256 ^ 4 = 2 ^ 32 := by decide
  have hne : UInt32.ofNat o ≠ 0 := by
    intro h
    have hnat := congrArg UInt32.toNat h
    rw [UInt32.toNat_ofNat_of_lt' ho] at hnat
    exact absurd hnat (Nat.pos_iff_ne_zero.mp hpos)
  unfold start
  simp only [hfile]
  rw [if_neg hlong, htake, hdrop, ofBigEndian_bigEndian, hpow, Nat.mod_eq_of_lt ho, if_neg hne,
    hentry.read]
  dsimp only
  rw [UInt32.add_comm]

/-- A file in the format is relocated: the address of the text is added once to each
    longword that it lists, nothing else changes, and the loops stop behind the byte 0,
    whatever the file holds from there on. -/
theorem relocate_encoded {os : List Nat} {junk : List UInt8}
    (hfile : file.drop (seek position header.ssize) = encode os ++ junk) (hoff : Offsets n os)
    (himage : ImageMapped tbase n) (hentry : Entry baseTpa tbase n m) :
    ∃ m', relocate file baseTpa position header m = Except.ok m' ∧
      (∃ k, (Loop.step baseTpa)^[k] (start file baseTpa position header m) = .done junk m') ∧
      (∀ o ∈ os, longAt m' (tbase.toNat + o) = longAt m (tbase.toNat + o) + tbase) ∧
      ∀ x, (∀ o ∈ os, x < tbase.toNat + o ∨ tbase.toNat + o + 4 ≤ x) → m' x = m x := by
  have hsteps : ∃ k, (Loop.step baseTpa)^[k] (start file baseTpa position header m) =
      .done junk (fixAll tbase os m) := by
    cases os with
    | nil =>
      refine ⟨0, ?_⟩
      unfold start
      simp only [hfile]
      rfl
    | cons o os =>
      have hin := hoff.inside o List.mem_cons_self
      have hlt := mapped_lt (himage o (by omega))
      rw [start_encoded hfile (hoff.pos o List.mem_cons_self) (by omega) hentry]
      exact steps_gaps himage junk os o m hentry hoff
  obtain ⟨k, hk⟩ := hsteps
  refine ⟨_, ?_, ⟨k, hk⟩, fixAll_longAt m hoff, fun x hx => fixAll_outside m hx⟩
  rw [← value_start, ← value_iterate k, hk]
  rfl

end

/-- Longwords at 4 and 300, and a byte that the loops do not read. -/
theorem relocate_encoded_two : ∃ m', relocate (encode [4, 300] ++ [7]) 0x10000 0
    ⟨0x601a, 304, 0, 0, 0⟩ (write initM68KMemory 0x10008 (bigEndian 4 0x10200)) = Except.ok m' ∧
    longAt m' 0x10204 = 0x10200 ∧ longAt m' 0x1032c = 0x10200 := by
  have hentry : Entry 0x10000 0x10200 304
      (write initM68KMemory 0x10008 (bigEndian 4 0x10200)) := by
    refine ⟨fun i hi => mapped_of_lt ?_, longAt_write _ _ 0x10200, Or.inl (by decide)⟩
    change 0x10008 + i < 0x1000000
    omega
  have himage : ImageMapped 0x10200 304 := by
    intro i hi
    apply mapped_of_lt
    change 0x10200 + i < 0x1000000
    omega
  have hoff : Offsets 304 [4, 300] := by
    refine ⟨by decide, ?_, by decide⟩
    exact List.isChain_cons_cons.mpr ⟨by decide, List.IsChain.singleton 300⟩
  obtain ⟨m', hrun, -, hfix, -⟩ := @relocate_encoded (encode [4, 300] ++ [7]) 0x10000 0
    ⟨0x601a, 304, 0, 0, 0⟩ _ 0x10200 304 [4, 300] [7] rfl hoff himage hentry
  exact ⟨m', hrun, hfix 4 (by decide), hfix 300 (by decide)⟩

/-! ### How long the loops run -/

section

variable {file : List UInt8} {baseTpa : UInt32} {position : Nat} {header : TosHeader}
  {m : Memory} {tbase : UInt32} {n : Nat}

/-- The addresses that bytes of the list lead to, from `fixup` on. -/
def places : UInt32 → List UInt8 → List UInt32
  | _, [] => []
  | fixup, d :: stream =>
    if d = 0 then []
    else if d = 1 then places (fixup + 254) stream
    else (fixup + d.toUInt32) :: places (fixup + d.toUInt32) stream

/-- The inner loop finds the end of the file behind a byte 1, which is the last byte of the
    stream or was read in front of it, and nothing stops the loops before. -/
def Stuck (delta : UInt8) (fixup : UInt32) (stream : List UInt8) : Prop :=
  0 ∉ stream ∧ stream.getLastD delta = 1 ∧ ∀ a ∈ places fixup stream, LongMapped a

theorem stuck_one {delta : UInt8} {fixup : UInt32} {stream : List UInt8} :
    Stuck 1 (fixup + 254) stream ↔ Stuck delta fixup (1 :: stream) := by
  have hplaces : places fixup (1 :: stream) = places (fixup + 254) stream := rfl
  rw [Stuck, Stuck, hplaces, List.getLastD_cons]
  simp

/-- At the end of the stream only a 1 in front of it counts. -/
theorem getLastD_eq_one {d e : UInt8} (hd : d ≠ 1) (he : e ≠ 1) (stream : List UInt8) :
    stream.getLastD d = 1 ↔ stream.getLastD e = 1 := by
  cases stream with
  | nil => simp [hd, he]
  | cons b stream => rfl

theorem stuck_place {delta d : UInt8} {fixup : UInt32} {stream : List UInt8} (hzero : d ≠ 0)
    (hone : d ≠ 1) :
    LongMapped (fixup + d.toUInt32) ∧ Stuck 0 (fixup + d.toUInt32) stream ↔
      Stuck delta fixup (d :: stream) := by
  have hplaces : places fixup (d :: stream) =
      (fixup + d.toUInt32) :: places (fixup + d.toUInt32) stream := by
    rw [places, if_neg hzero, if_neg hone]
  have hlast := @getLastD_eq_one 0 d (by decide) hone stream
  rw [Stuck, Stuck, hplaces, List.getLastD_cons, hlast, List.forall_mem_cons, List.mem_cons,
    not_or]
  have hne : ¬0 = d := fun h => hzero h.symm
  constructor
  · rintro ⟨hmap, hmem, hone', hall⟩
    exact ⟨⟨hne, hmem⟩, hone', hmap, hall⟩
  · rintro ⟨⟨-, hmem⟩, hone', hmap, hall⟩
    exact ⟨hmap, hmem, hone', hall⟩

/-- At the end of the file `delta` stays 1 for ever. -/
theorem never_final (fixup : UInt32) (m : Memory) :
    Never (Loop.step baseTpa) Loop.Final (.read 1 [] fixup m) := by
  have hstep : ∀ s, (∃ fixup, s = .read 1 [] fixup m) →
      ∃ fixup, Loop.step baseTpa s = .read 1 [] fixup m := by
    rintro s ⟨fixup, rfl⟩
    exact ⟨fixup + 254, rfl⟩
  have hrest : ∀ s, (∃ fixup, s = .read 1 [] fixup m) → ¬Loop.Final s := by
    rintro s ⟨fixup, rfl⟩
    exact id
  exact Never.of_invariant hstep hrest ⟨fixup, rfl⟩

/-- A patch faults or goes on to the inner loop. -/
theorem fate_patch (hfield : LongMapped (baseTpa + pTbase)) {stream : List UInt8}
    {fixup : UInt32} {k : Nat} {P : Prop}
    (h : ∀ m, Fate (Loop.step baseTpa) Loop.Final (.read 0 stream fixup m) k P) (m : Memory) :
    Fate (Loop.step baseTpa) Loop.Final (.patch stream fixup m) (k + 1)
      (LongMapped fixup ∧ P) := by
  apply Fate.of_step id
  cases hpatch : patch baseTpa fixup m with
  | ok m' =>
    have hmap := (patch_eq_ok.mp hpatch).1
    rw [Loop.step, hpatch]
    exact (h m').congr (and_iff_right hmap).symm
  | error e =>
    rw [Loop.step, hpatch]
    apply Fate.of_final trivial
    rintro ⟨hmap, -⟩
    have hok : patch baseTpa fixup m = Except.ok _ := patch_eq_ok.mpr ⟨hmap, hfield, rfl⟩
    rw [hpatch] at hok
    cases hok

/-- The inner loop, and everything behind it: two steps at most for each byte. -/
theorem fate_read (hfield : LongMapped (baseTpa + pTbase)) (stream : List UInt8) :
    ∀ delta fixup m, delta = 0 ∨ delta = 1 →
      Fate (Loop.step baseTpa) Loop.Final (.read delta stream fixup m) (2 * stream.length + 1)
        (Stuck delta fixup stream) := by
  induction stream with
  | nil =>
    rintro delta fixup m (rfl | rfl)
    · apply Fate.of_step id
      apply Fate.of_final trivial
      rintro ⟨-, hone, -⟩
      cases hone
    · refine ⟨fun _ => never_final fixup m, fun h => absurd ?_ h⟩
      exact ⟨List.not_mem_nil, rfl, fun a ha => absurd ha List.not_mem_nil⟩
  | cons d stream ih =>
    intro delta fixup m _
    have hlen : 2 * (d :: stream).length + 1 = 2 * stream.length + 1 + 1 + 1 := by
      rw [List.length_cons]
      omega
    by_cases hone : d = 1
    · subst hone
      have hnext : Fate (Loop.step baseTpa) Loop.Final
          ((Loop.read delta (1 :: stream) fixup m).step baseTpa) (2 * stream.length + 1)
          (Stuck delta fixup (1 :: stream)) :=
        (ih 1 (fixup + 254) m (Or.inr rfl)).congr stuck_one
      rw [hlen]
      exact (Fate.of_step id hnext).mono (Nat.le_succ _)
    · by_cases hzero : d = 0
      · subst hzero
        have hnext : Fate (Loop.step baseTpa) Loop.Final
            ((Loop.read delta (0 :: stream) fixup m).step baseTpa) 0
            (Stuck delta fixup (0 :: stream)) :=
          Fate.of_final trivial fun h => h.1 List.mem_cons_self
        exact (Fate.of_step id hnext).mono (Nat.le_add_left 1 _)
      · rw [hlen]
        apply Fate.of_step id
        rw [step_place hzero hone]
        exact (fate_patch hfield (fun m => ih 0 _ m (Or.inl rfl)) m).congr
          (stuck_place hzero hone)

/-- The first longword behind the symbols. -/
def firstOffset (stream : List UInt8) : UInt32 := UInt32.ofNat (ofBigEndian (stream.take 4))

/-- The loops are entered and get stuck. -/
def Stalls (tbase : UInt32) (stream : List UInt8) : Prop :=
  4 ≤ stream.length ∧ firstOffset stream ≠ 0 ∧ LongMapped (firstOffset stream + tbase) ∧
    Stuck 0 (firstOffset stream + tbase) (stream.drop 4)

theorem start_final {file : List UInt8} {position : Nat} {header : TosHeader} {m : Memory}
    (h : ¬(4 ≤ (file.drop (seek position header.ssize)).length ∧
      firstOffset (file.drop (seek position header.ssize)) ≠ 0)) :
    (start file baseTpa position header m).Final := by
  unfold start
  simp only
  split
  · trivial
  · rename_i hlong
    rw [if_pos]
    · trivial
    · by_contra hne
      exact h ⟨Nat.not_lt.mp hlong, hne⟩

theorem start_patch {file : List UInt8} {position : Nat} {header : TosHeader} {m : Memory}
    {stream : List UInt8} (hstream : stream = file.drop (seek position header.ssize))
    (htbase : readBasepage baseTpa pTbase m = Except.ok tbase) (hlong : 4 ≤ stream.length)
    (hfirst : firstOffset stream ≠ 0) :
    start file baseTpa position header m =
      .patch (stream.drop 4) (firstOffset stream + tbase) m := by
  unfold start
  simp only [← hstream]
  unfold firstOffset at hfirst ⊢
  rw [if_neg (Nat.not_lt.mpr hlong), if_neg hfirst, htbase]

theorem start_fate (htbase : readBasepage baseTpa pTbase m = Except.ok tbase) :
    Fate (Loop.step baseTpa) Loop.Final (start file baseTpa position header m)
      (2 * (file.drop (seek position header.ssize)).length + 2)
      (Stalls tbase (file.drop (seek position header.ssize))) := by
  have hfield := (readMemory32_eq_ok.mp htbase).1
  by_cases henter : 4 ≤ (file.drop (seek position header.ssize)).length ∧
      firstOffset (file.drop (seek position header.ssize)) ≠ 0
  · generalize hstream : file.drop (seek position header.ssize) = stream at henter ⊢
    rw [start_patch hstream.symm htbase henter.1 henter.2]
    have hfate := fate_patch hfield (fun m => fate_read hfield (stream.drop 4) 0
      (firstOffset stream + tbase) m (Or.inl rfl)) m
    refine (hfate.congr ?_).mono ?_
    · rw [Stalls, and_iff_right henter.1, and_iff_right henter.2]
    · rw [List.length_drop]
      omega
  · exact Fate.of_final (start_final henter) fun h => henter ⟨h.1, h.2.1⟩

/-- The loops end within two steps for each byte left in the file and two more, exactly where
    the list is empty or ends with a byte 0 before the file does, or the last byte of the
    file is not 1, or an access outside the memory ends the program before. -/
theorem fixups_end_iff {stream : List UInt8}
    (hstream : stream = file.drop (seek position header.ssize))
    (htbase : readBasepage baseTpa pTbase m = Except.ok tbase) :
    Within (Loop.step baseTpa) Loop.Final (2 * stream.length + 2)
        (start file baseTpa position header m) ↔
      stream.length < 4 ∨ firstOffset stream = 0 ∨ 0 ∈ stream.drop 4 ∨
        (stream.drop 4).getLastD 0 ≠ 1 ∨
        ∃ a ∈ (firstOffset stream + tbase) :: places (firstOffset stream + tbase) (stream.drop 4),
          ¬LongMapped a := by
  subst hstream
  rw [(start_fate htbase).within_iff, Stalls, Stuck]
  simp only [not_and_or, Nat.not_le, not_not, not_forall, List.exists_mem_cons_iff, exists_prop]
  constructor
  · rintro (h | h | h | h | h | h)
    · exact Or.inl h
    · exact Or.inr (Or.inl h)
    · exact Or.inr (Or.inr (Or.inr (Or.inr (Or.inl h))))
    · exact Or.inr (Or.inr (Or.inl h))
    · exact Or.inr (Or.inr (Or.inr (Or.inl h)))
    · exact Or.inr (Or.inr (Or.inr (Or.inr (Or.inr h))))
  · rintro (h | h | h | h | h | h)
    · exact Or.inl h
    · exact Or.inr (Or.inl h)
    · exact Or.inr (Or.inr (Or.inr (Or.inl h)))
    · exact Or.inr (Or.inr (Or.inr (Or.inr (Or.inl h))))
    · exact Or.inr (Or.inr (Or.inl h))
    · exact Or.inr (Or.inr (Or.inr (Or.inr (Or.inr h))))

end

/-- A program with a text of eight bytes, and a list of fixups behind it. -/
def programFile (fixups : List UInt8) : List UInt8 :=
  [0x60, 0x1a, 0, 0, 0, 8] ++ List.replicate 22 0 ++ List.replicate 8 0 ++ fixups

/-- The basepage at 0x10000 says that the text starts at 0x10200. -/
def sampleMemory : Memory := write initM68KMemory 0x10008 (bigEndian 4 0x10200)

theorem sampleMemory_read : readBasepage 0x10000 pTbase sampleMemory = Except.ok 0x10200 := rfl

/-- A list that is cut off behind a byte 1. -/
theorem fixups_hang : ∃ file, ∀ k, ¬((Loop.step 0x10000)^[k] (start file 0x10000 36
    (readHeader file fun _ => 0) sampleMemory)).Final := by
  refine ⟨programFile [0, 0, 0, 4, 1], ?_⟩
  have hfate := @start_fate (programFile [0, 0, 0, 4, 1]) 0x10000 36
    (readHeader (programFile [0, 0, 0, 4, 1]) fun _ => 0) _ 0x10200 sampleMemory_read
  refine hfate.never ⟨by decide, by decide, ?_, by decide, by decide, ?_⟩
  · intro i hi
    exact mapped_of_lt (by change 0x10204 + i < 0x1000000; omega)
  · intro a ha
    cases ha

/-- The same list with a byte 0 at its end. -/
theorem fixups_end_small : Within (Loop.step 0x10000) Loop.Final 14 (start
    (programFile [0, 0, 0, 4, 1, 0]) 0x10000 36
    (readHeader (programFile [0, 0, 0, 4, 1, 0]) fun _ => 0) sampleMemory) := by
  refine (@fixups_end_iff (programFile [0, 0, 0, 4, 1, 0]) 0x10000 36
    (readHeader (programFile [0, 0, 0, 4, 1, 0]) fun _ => 0) _ 0x10200
    [0, 0, 0, 4, 1, 0] ?_ sampleMemory_read).mpr (Or.inr (Or.inr (Or.inl (by decide))))
  decide

/-! ### What the loops change -/

section

variable {file : List UInt8} {baseTpa : UInt32} {position : Nat} {header : TosHeader}
  {m m' : Memory} {tbase : UInt32} {n : Nat}

/-- Not a byte of text and data. -/
def Outside (tbase : UInt32) (n x : Nat) : Prop := x < tbase.toNat ∨ tbase.toNat + n ≤ x

/-- A byte of a longword, the most significant one first. -/
theorem longAt_byte (m : Memory) (a : Nat) {i : Nat} (hi : i < 4) :
    (m (a + i)).toNat = (longAt m a).toNat / 256 ^ (3 - i) % 256 := by
  have h0 := (m a).toNat_lt
  have h1 := (m (a + 1)).toNat_lt
  have h2 := (m (a + 2)).toNat_lt
  have h3 := (m (a + 3)).toNat_lt
  rw [longAt_toNat]
  match i, hi with
  | 0, _ => rw [Nat.add_zero]; omega
  | 1, _ => omega
  | 2, _ => omega
  | 3, _ => omega

/-- Adding to a number changes one of its bytes by what reaches it from below. -/
theorem add_byte_eq {v t b : Nat} (hb : 0 < b) :
    (v + t) / b % 256 = v / b % 256 ↔ (v % b + t) / b % 256 = 0 := by
  have hsum : (v + t) / b = v / b + (v % b + t) / b := by
    conv_lhs => rw [← Nat.div_add_mod v b, Nat.add_assoc, Nat.mul_add_div hb]
  rw [hsum]
  omega

/-- What a patch does to a byte of its longword. -/
theorem fix_byte_eq (tbase : UInt32) (a : Nat) (m : Memory) {i : Nat} (hi : i < 4) :
    fix tbase a m (a + i) = m (a + i) ↔
      ((longAt m a).toNat % 256 ^ (3 - i) + tbase.toNat) / 256 ^ (3 - i) % 256 = 0 := by
  have hafter : (fix tbase a m (a + i)).toNat =
      ((longAt m a).toNat + tbase.toNat) / 256 ^ (3 - i) % 256 := by
    have hlong : longAt (fix tbase a m) a = longAt m a + tbase := longAt_write m a _
    rw [longAt_byte _ _ hi, hlong, UInt32.toNat_add]
    match i, hi with
    | 0, _ => omega
    | 1, _ => omega
    | 2, _ => omega
    | 3, _ => omega
  rw [← UInt8.toNat_inj, hafter, longAt_byte m a hi, add_byte_eq (Nat.pow_pos (by decide))]

/-- The next step leaves the bytes outside of text and data alone: what a patch adds does not
    reach any of them. -/
def Harmless (tbase : UInt32) (n : Nat) : Loop → Prop
  | .patch _ fixup m => LongMapped fixup → ∀ i < 4, Outside tbase n (fixup.toNat + i) →
    ((longAt m fixup.toNat).toNat % 256 ^ (3 - i) + tbase.toNat) / 256 ^ (3 - i) % 256 = 0
  | _ => True

/-- A patch inside text and data is harmless. -/
theorem harmless_of_inside {stream : List UInt8} {fixup : UInt32}
    (hlo : tbase.toNat ≤ fixup.toNat) (hhi : fixup.toNat + 4 ≤ tbase.toNat + n) :
    Harmless tbase n (.patch stream fixup m) := by
  rintro - i hi (hout | hout)
  · omega
  · omega

/-- A patch that has no byte inside is not. -/
theorem not_harmless_of_outside {stream : List UInt8} {fixup : UInt32} (hne : tbase ≠ 0)
    (hmap : LongMapped fixup) (hout : ∀ i < 4, Outside tbase n (fixup.toNat + i)) :
    ¬Harmless tbase n (.patch stream fixup m) := by
  intro h
  have hzero : ∀ i < 4, _ := fun i hi => h hmap i hi (hout i hi)
  have h0 := hzero 0 (by decide)
  have h1 := hzero 1 (by decide)
  have h2 := hzero 2 (by decide)
  have h3 := hzero 3 (by decide)
  have hlt := tbase.toNat_lt
  apply hne
  apply UInt32.toNat_inj.mp
  change tbase.toNat = 0
  omega

theorem Entry.congr (h : Entry baseTpa tbase n m) (hm : ∀ x, Outside tbase n x → m' x = m x) :
    Entry baseTpa tbase n m' := by
  refine ⟨h.mapped, ?_, h.apart⟩
  rw [← h.field]
  apply longAt_congr
  intro i hi
  apply hm
  have hapart := h.apart
  unfold Outside
  omega

/-- A step leaves the outside alone exactly where it is harmless. -/
theorem step_outside_iff {s : Loop} (h : Entry baseTpa tbase n s.memory) :
    (∀ x, Outside tbase n x → (s.step baseTpa).memory x = s.memory x) ↔ Harmless tbase n s := by
  cases s with
  | patch stream fixup m =>
    cases hpatch : patch baseTpa fixup m with
    | ok m' =>
      obtain ⟨hmap, rfl⟩ := h.patch_eq_ok.mp hpatch
      rw [Loop.step, hpatch, Harmless]
      change (∀ x, Outside tbase n x → fix tbase fixup.toNat m x = m x) ↔ _
      constructor
      · intro hkept _ i hi hout
        exact (fix_byte_eq tbase fixup.toNat m hi).mp (hkept _ hout)
      · intro hharmless x hout
        by_cases hin : fixup.toNat ≤ x ∧ x < fixup.toNat + 4
        · obtain ⟨i, rfl⟩ : ∃ i, x = fixup.toNat + i := ⟨x - fixup.toNat, by omega⟩
          have hi : i < 4 := by omega
          exact (fix_byte_eq tbase fixup.toNat m hi).mpr (hharmless hmap i hi hout)
        · apply write_outside
          rw [bigEndian_length]
          omega
    | error e =>
      rw [Loop.step, hpatch, Harmless]
      refine iff_of_true (fun x _ => rfl) fun hmap => ?_
      have hok := h.patch_eq_ok.mpr ⟨hmap, rfl⟩
      rw [show Loop.memory (.patch stream fixup m) = m from rfl, hpatch] at hok
      cases hok
  | read delta stream fixup m =>
    refine iff_of_true (fun x _ => ?_) trivial
    unfold Loop.step
    dsimp only
    split
    · rfl
    · split <;> rfl
  | done stream m => exact iff_of_true (fun x _ => rfl) trivial
  | fault e m => exact iff_of_true (fun x _ => rfl) trivial

/-- Outside of text and data the memory is as it was in any state that the loops come to. -/
def Framed (baseTpa tbase : UInt32) (n : Nat) (m : Memory) (s : Loop) : Prop :=
  ∀ k x, Outside tbase n x → ((Loop.step baseTpa)^[k] s).memory x = m x

theorem start_memory : (start file baseTpa position header m).memory = m := by
  unfold start
  simp only
  split
  · rfl
  · split
    · rfl
    · split <;> rfl

/-- The loops change no byte outside of text and data, whatever state they come to, exactly
    where no patch on the way reaches one: a longword that lies inside does not, and one
    over an edge only where nothing but 0 is added to the bytes outside. -/
theorem frame_iff (hentry : Entry baseTpa tbase n m) :
    Framed baseTpa tbase n m (start file baseTpa position header m) ↔
      ∀ k, Harmless tbase n ((Loop.step baseTpa)^[k] (start file baseTpa position header m)) := by
  have hstart := @start_memory file baseTpa position header m
  generalize start file baseTpa position header m = s at hstart
  constructor
  · intro hframed k
    rw [← step_outside_iff (hentry.congr (hframed k))]
    intro x hout
    rw [← Function.iterate_succ_apply' (Loop.step baseTpa), hframed (k + 1) x hout,
      hframed k x hout]
  · intro hharmless k
    induction k with
    | zero =>
      intro x _
      rw [Function.iterate_zero_apply, hstart]
    | succ k ih =>
      intro x hout
      rw [Function.iterate_succ_apply', ← ih x hout]
      exact (step_outside_iff (hentry.congr ih)).mpr (hharmless k) x hout

/-- Every longword that is still to be patched is in the list. -/
def Ahead (l : List UInt32) : Loop → Prop
  | .patch stream fixup _ => fixup ∈ l ∧ ∀ a ∈ places fixup stream, a ∈ l
  | .read delta stream fixup _ => (delta = 0 ∨ delta = 1) ∧ ∀ a ∈ places fixup stream, a ∈ l
  | _ => True

theorem Ahead.step {l : List UInt32} {s : Loop} (h : Ahead l s) : Ahead l (s.step baseTpa) := by
  cases s with
  | patch stream fixup m =>
    rw [Loop.step]
    cases patch baseTpa fixup m with
    | ok m' => exact ⟨Or.inl rfl, h.2⟩
    | error e => trivial
  | read delta stream fixup m =>
    obtain ⟨hdelta, hall⟩ := h
    cases stream with
    | nil =>
      rcases hdelta with rfl | rfl
      · trivial
      · exact ⟨Or.inr rfl, hall⟩
    | cons d stream =>
      by_cases hzero : d = 0
      · subst hzero
        trivial
      · by_cases hone : d = 1
        · subst hone
          exact ⟨Or.inr rfl, hall⟩
        · rw [places, if_neg hzero, if_neg hone, List.forall_mem_cons] at hall
          have hstep : (Loop.read delta (d :: stream) fixup m).step baseTpa =
              .patch stream (fixup + d.toUInt32) m := step_place hzero hone
          rw [hstep]
          exact hall
  | done stream m => trivial
  | fault e m => trivial

/-- All patches are harmless when all longwords that the file names lie inside. -/
theorem harmless_of_places {stream : List UInt8}
    (hstream : stream = file.drop (seek position header.ssize)) (hentry : Entry baseTpa tbase n m)
    (hinside : ∀ a ∈ (firstOffset stream + tbase) ::
      places (firstOffset stream + tbase) (stream.drop 4),
      tbase.toNat ≤ a.toNat ∧ a.toNat + 4 ≤ tbase.toNat + n) (k : Nat) :
    Harmless tbase n ((Loop.step baseTpa)^[k] (start file baseTpa position header m)) := by
  generalize hl : (firstOffset stream + tbase) ::
    places (firstOffset stream + tbase) (stream.drop 4) = l at hinside
  have hahead : Ahead l ((Loop.step baseTpa)^[k] (start file baseTpa position header m)) := by
    induction k with
    | zero =>
      by_cases henter : 4 ≤ stream.length ∧ firstOffset stream ≠ 0
      · have hstart := start_patch hstream hentry.read henter.1 henter.2
        rw [Function.iterate_zero_apply, hstart, ← hl]
        exact ⟨List.mem_cons_self, fun a ha => List.mem_cons_of_mem _ ha⟩
      · have hfinal : (start file baseTpa position header m).Final :=
          start_final (hstream ▸ henter)
        rw [Function.iterate_zero_apply]
        generalize start file baseTpa position header m = s at hfinal
        cases s with
        | done stream m => trivial
        | fault e m => trivial
        | patch stream fixup m => exact absurd hfinal id
        | read delta stream fixup m => exact absurd hfinal id
    | succ k ih =>
      rw [Function.iterate_succ_apply']
      exact ih.step
  generalize (Loop.step baseTpa)^[k] (start file baseTpa position header m) = s at hahead
  cases s with
  | patch stream fixup m =>
    have hin := hinside fixup hahead.1
    exact harmless_of_inside hin.1 hin.2
  | read delta stream fixup m => trivial
  | done stream m => trivial
  | fault e m => trivial

end

theorem sampleMemory_entry : Entry 0x10000 0x10200 8 sampleMemory := by
  refine ⟨fun i hi => mapped_of_lt ?_, longAt_write _ _ 0x10200, Or.inl (by decide)⟩
  change 0x10008 + i < 0x1000000
  omega

/-- A first offset that leads back to `p_hitpa` in the basepage. -/
theorem fixups_reach_basepage : ∃ file, ¬Framed 0x10000 0x10200 8 sampleMemory
    (start file 0x10000 36 (readHeader file fun _ => 0) sampleMemory) := by
  refine ⟨programFile [0xff, 0xff, 0xfe, 0x04, 0], fun hframed => ?_⟩
  refine absurd (hframed 1 0x10005 (Or.inl (by decide))) ?_
  decide +kernel

/-- A list that names the second longword of the text. -/
theorem frame_small : Framed 0x10000 0x10200 8 sampleMemory
    (start (programFile [0, 0, 0, 4, 0]) 0x10000 36
      (readHeader (programFile [0, 0, 0, 4, 0]) fun _ => 0) sampleMemory) := by
  refine (frame_iff sampleMemory_entry).mpr ?_
  have hstream : [0, 0, 0, 4, 0] = (programFile [0, 0, 0, 4, 0]).drop
      (seek 36 (readHeader (programFile [0, 0, 0, 4, 0]) fun _ => 0).ssize) := by
    decide +kernel
  have hplaces : (firstOffset [0, 0, 0, 4, 0] + 0x10200) ::
      places (firstOffset [0, 0, 0, 4, 0] + 0x10200) [0] = [0x10204] := by
    decide +kernel
  refine harmless_of_places hstream sampleMemory_entry ?_
  rintro a ha
  rw [List.drop_succ_cons, List.drop_succ_cons, List.drop_succ_cons, List.drop_succ_cons,
    List.drop_zero, hplaces, List.mem_singleton] at ha
  subst ha
  decide

end ParaTos.Relocate
