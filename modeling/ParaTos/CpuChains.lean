/-
  ParaTos/CpuChains.lean
  ======================
  **Long sums and differences in memory** (`mushashi/m68k_in.c`: `addx`, `subx`).

  `addx -(Ay),-(Ax)` adds one limb and the extend flag of the limb before.  A program
  repeats it from the low end of two numbers to their high end; the zero flag is only
  ever cleared, so that in the end it speaks of the whole result.

  `Limb` says what one limb does, for any number of bytes, and two of them, one above
  the other, are one (`Limb.trans`).  So a run of `addx` adds two numbers of any length
  (`addx_run`), and a run of `subx` subtracts them (`subx_run`).  The numbers may lie on
  each other, as long as no limb of the source is overwritten before it is read.
-/
import ParaTos.CpuFlags
import ParaTos.Limbs

namespace ParaTos.Cpu

open Bytes Limbs Memory WordBits

/-! ### The instructions -/

/-- The result of `addx` of a size, and the flags that it leaves. -/
def addx (sz : Size) (src dst : UInt32) (s : Cpu) : UInt32 × Cpu :=
  let res := src + dst + s.xflagAs1
  (maskOutAbove sz res,
    { s with
      nFlag := nflag sz res
      vFlag := vflagAdd sz src dst res
      xFlag := cflagAdd sz src dst res
      cFlag := cflagAdd sz src dst res
      notZFlag := s.notZFlag ||| maskOutAbove sz res })

def subx (sz : Size) (src dst : UInt32) (s : Cpu) : UInt32 × Cpu :=
  let res := dst - src - s.xflagAs1
  (maskOutAbove sz res,
    { s with
      nFlag := nflag sz res
      vFlag := vflagSub sz src dst res
      xFlag := cflagSub sz src dst res
      cFlag := cflagSub sz src dst res
      notZFlag := s.notZFlag ||| maskOutAbove sz res })

/-- The forms `rr`: from one data register to another. -/
def limbRr (op : UInt32 → UInt32 → Cpu → UInt32 × Cpu) (sz : Size) (s : Cpu) : Cpu :=
  let (res, t) := op (low sz (s.dar s.dy)) (low sz (s.dar s.dx)) s
  t.setReg s.dx (maskInto sz (s.dar s.dx) res)

/-- The forms `mm`: both registers go down, the source first, and the result replaces the
    second operand. -/
def limbMm (op : UInt32 → UInt32 → Cpu → UInt32 × Cpu) (sz : Size) (ry : Fin 16) (ky : UInt32)
    (rx : Fin 16) (kx : UInt32) (s : Cpu) : Run Cpu := do
  let (ea, s) := eaPd ry ky s
  let src ← read sz ea s
  let (ea, s) := eaPd rx kx s
  let dst ← read sz ea s
  let (res, s) := op src dst s
  write sz ea res s

/-- `addx, 8, rr, .` to `addx, 32, rr, .`. -/
def addxRr (sz : Size) : Cpu → Cpu := limbRr (addx sz) sz

/-- `addx, 8, mm, .`, and its forms for the stack pointer, which stays even. -/
def addx8Mm (s : Cpu) : Run Cpu := limbMm (addx .byte) .byte s.ay 1 s.ax 1 s
def addx8MmAx7 (s : Cpu) : Run Cpu := limbMm (addx .byte) .byte s.ay 1 regSp 2 s
def addx8MmAy7 (s : Cpu) : Run Cpu := limbMm (addx .byte) .byte regSp 2 s.ax 1 s
def addx8MmAxy7 (s : Cpu) : Run Cpu := limbMm (addx .byte) .byte regSp 2 regSp 2 s

def addx16Mm (s : Cpu) : Run Cpu := limbMm (addx .word) .word s.ay 2 s.ax 2 s
def addx32Mm (s : Cpu) : Run Cpu := limbMm (addx .long) .long s.ay 4 s.ax 4 s

def subxRr (sz : Size) : Cpu → Cpu := limbRr (subx sz) sz

def subx8Mm (s : Cpu) : Run Cpu := limbMm (subx .byte) .byte s.ay 1 s.ax 1 s
def subx8MmAx7 (s : Cpu) : Run Cpu := limbMm (subx .byte) .byte s.ay 1 regSp 2 s
def subx8MmAy7 (s : Cpu) : Run Cpu := limbMm (subx .byte) .byte regSp 2 s.ax 1 s
def subx8MmAxy7 (s : Cpu) : Run Cpu := limbMm (subx .byte) .byte regSp 2 regSp 2 s
def subx16Mm (s : Cpu) : Run Cpu := limbMm (subx .word) .word s.ay 2 s.ax 2 s
def subx32Mm (s : Cpu) : Run Cpu := limbMm (subx .long) .long s.ay 4 s.ax 4 s

/-- The memory forms of a size, for registers that go down by the size. -/
def addxMm : Size → Cpu → Run Cpu
  | .byte => addx8Mm
  | .word => addx16Mm
  | .long => addx32Mm

def subxMm : Size → Cpu → Run Cpu
  | .byte => subx8Mm
  | .word => subx16Mm
  | .long => subx32Mm

/-! ### Limbs -/

/-- What an operation on registers and memory leaves alone: all but them and the flags. -/
def rest (s : Cpu) : Cpu :=
  { s with
    dar := m68kiCpu.dar
    xFlag := m68kiCpu.xFlag
    nFlag := m68kiCpu.nFlag
    notZFlag := m68kiCpu.notZFlag
    vFlag := m68kiCpu.vFlag
    cFlag := m68kiCpu.cFlag
    memory := m68kiCpu.memory }

theorem rest_setReg (r : Fin 16) (v : UInt32) (s : Cpu) : rest (s.setReg r v) = rest s := rfl

theorem rest_setMemory (m : Memory) (s : Cpu) : rest (s.setMemory m) = rest s := rfl

theorem ir_eq_of_rest {s t : Cpu} (h : rest t = rest s) : t.ir = s.ir := by
  have hir : (rest t).ir = (rest s).ir := by rw [h]
  exact hir

/-- The limb `l` was put below `Ax`, from the limbs below `Ax` and `Ay`. -/
structure Limb (R : Nat → Nat → Nat → Nat → Bool → Bool → Prop) (base : Nat)
    (digit : UInt8 → Nat) (k : Nat) (s t : Cpu) (l : List UInt8) : Prop where
  length : l.length = k
  rest : rest t = rest s
  src : (t.dar s.ay).toNat + k = (s.dar s.ay).toNat
  dst : (t.dar s.ax).toNat + k = (s.dar s.ax).toNat
  others : ∀ r, r ≠ s.ax → r ≠ s.ay → t.dar r = s.dar r
  memory : t.memory = Bytes.write s.memory (t.dar s.ax).toNat l
  carry : R (base ^ k) (positional base digit (slice s.memory (t.dar s.ax).toNat k))
    (positional base digit (slice s.memory (t.dar s.ay).toNat k)) (positional base digit l)
    (bit s.xFlag 8) (bit t.xFlag 8)
  zero : t.notZFlag = 0 ↔ s.notZFlag = 0 ∧ positional base digit l = 0

section Limbs

variable {R : Nat → Nat → Nat → Nat → Bool → Bool → Prop} {base : Nat} {digit : UInt8 → Nat}

theorem Limb.ir {k : Nat} {s t : Cpu} {l : List UInt8} (h : Limb R base digit k s t l) :
    t.ir = s.ir := ir_eq_of_rest h.rest

theorem Limb.refl (hR : Chains R) (s : Cpu) : Limb R base digit 0 s s [] where
  length := rfl
  rest := rfl
  src := rfl
  dst := rfl
  others _ _ _ := rfl
  memory := (write_nil _ _).symm
  carry := hR.nil _
  zero := by simp

/-- A store leaves a stretch of memory that it does not touch. -/
theorem slice_write_apart (m : Memory) {a a' n : Nat} {l : List UInt8}
    (h : a + n ≤ a' ∨ a' + l.length ≤ a) : slice (Bytes.write m a' l) a n = slice m a n := by
  apply slice_eq_iff.mpr
  intro i hi
  exact write_outside m (by omega)

/-- Two limbs, the second one above the first. -/
theorem Limb.trans (hR : Chains R) (hbase : 0 < base) {k k' : Nat} {s t u : Cpu}
    {l l' : List UInt8} (h : Limb R base digit k s t l) (h' : Limb R base digit k' t u l')
    (happ : (t.dar s.ay).toNat ≤ (t.dar s.ax).toNat ∨
      (s.dar s.ax).toNat ≤ (u.dar s.ay).toNat) :
    Limb R base digit (k' + k) s u (l' ++ l) := by
  have hax : t.ax = s.ax := by rw [ax, ax, h.ir]
  have hay : t.ay = s.ay := by rw [ay, ay, h.ir]
  have hsrc := h.src
  have hdst := h.dst
  have hsrc' := hay ▸ h'.src
  have hdst' := hax ▸ h'.dst
  have hlen := h.length
  have hbelow : (u.dar s.ax).toNat + l'.length = (t.dar s.ax).toNat := h'.length ▸ hdst'
  refine ⟨?_, h'.rest.trans h.rest, by omega, by omega, ?_, ?_, ?_, ?_⟩
  · rw [List.length_append, h'.length, h.length]
  · intro r hx hy
    exact (h'.others r (hax ▸ hx) (hay ▸ hy)).trans (h.others r hx hy)
  · rw [h'.memory, hax, h.memory, write_comm _ (by omega), ← hbelow, write_append]
  · have hcarry := h'.carry
    rw [hax, hay, h.memory, slice_write_apart _ (by omega), slice_write_apart _ (by omega)] at hcarry
    have hsum := hR.append h.carry hcarry
    rw [slice_append, slice_append, positional_append, positional_append, positional_append,
      slice_length, slice_length, hlen, hdst', hsrc', Nat.pow_add]
    exact hsum
  · rw [h'.zero, h.zero, positional_append, and_assoc]
    have hpow : 0 < base ^ l.length := Nat.pow_pos hbase
    simp only [Nat.add_eq_zero_iff, Nat.mul_eq_zero, hpow.ne', or_false]
    tauto

/-- What an operation does with the bytes of its operands; `Good` says which bytes are
    digits. -/
structure LimbOp (R : Nat → Nat → Nat → Nat → Bool → Bool → Prop) (base : Nat)
    (digit : UInt8 → Nat) (Good : UInt8 → Prop) (k : Nat)
    (op : UInt32 → UInt32 → Cpu → UInt32 × Cpu) : Prop where
  rest : ∀ src dst s, rest (op src dst s).2 = rest s
  dar : ∀ src dst s, (op src dst s).2.dar = s.dar
  memory : ∀ src dst s, (op src dst s).2.memory = s.memory
  result : ∀ src dst s, src.toNat < 256 ^ k → dst.toNat < 256 ^ k →
    (∀ b ∈ bigEndian k src.toNat, Good b) → (∀ b ∈ bigEndian k dst.toNat, Good b) →
    R (base ^ k) (positional base digit (bigEndian k dst.toNat))
        (positional base digit (bigEndian k src.toNat))
        (positional base digit (bigEndian k (op src dst s).1.toNat))
        (bit s.xFlag 8) (bit (op src dst s).2.xFlag 8) ∧
      ((op src dst s).2.notZFlag = 0 ↔
        s.notZFlag = 0 ∧ positional base digit (bigEndian k (op src dst s).1.toNat) = 0) ∧
      ∀ b ∈ bigEndian k (op src dst s).1.toNat, Good b

variable {Good : UInt8 → Prop}

/-- The bytes below a register are mapped, and digits. -/
def Below (Good : UInt8 → Prop) (s : Cpu) (r : Fin 16) (n : Nat) : Prop :=
  n ≤ (s.dar r).toNat ∧ ∀ i < n, Mapped ((s.dar r).toNat - n + i) ∧
    Good (s.memory ((s.dar r).toNat - n + i))

instance [DecidablePred Good] (s : Cpu) (r : Fin 16) (n : Nat) : Decidable (Below Good s r n) :=
  inferInstanceAs (Decidable (_ ∧ _))

theorem Below.good {s : Cpu} {r : Fin 16} {n : Nat} (h : Below Good s r n) :
    ∀ b ∈ slice s.memory ((s.dar r).toNat - n) n, Good b := by
  intro b hb
  simp only [slice, List.mem_map, List.mem_range] at hb
  obtain ⟨i, hi, rfl⟩ := hb
  exact (h.2 i hi).2

/-- What is read is the number that the bytes make. -/
theorem read_below {sz : Size} {s t : Cpu} {r : Fin 16} {a : UInt32} (h : Below Good s r sz.bytes)
    (ha : a.toNat = (s.dar r).toNat - sz.bytes) (ht : t.memory = s.memory) :
    ∃ v, read sz a t = Except.ok v ∧ v.toNat < 256 ^ sz.bytes ∧
      bigEndian sz.bytes v.toNat = slice s.memory ((s.dar r).toNat - sz.bytes) sz.bytes := by
  have hlt := ofBigEndian_lt (slice s.memory a.toNat sz.bytes)
  rw [slice_length] at hlt
  have hword : 256 ^ sz.bytes ≤ 2 ^ 32 := by cases sz <;> decide
  have hval := UInt32.toNat_ofNat_of_lt' (lt_of_lt_of_le hlt hword)
  refine ⟨UInt32.ofNat (ofBigEndian (slice s.memory a.toNat sz.bytes)), ?_, ?_, ?_⟩
  · refine read_eq_ok.mpr ⟨?_, ?_⟩
    · intro i hi
      rw [ha]
      exact (h.2 i hi).1
    · rw [hval, ht]
  · rwa [hval]
  · rw [hval, ha]
    exact (congrArg (bigEndian · _) (slice_length s.memory _ sz.bytes).symm).trans
      (bigEndian_ofBigEndian _)

/-- **One limb.** -/
theorem limbMm_limb {op : UInt32 → UInt32 → Cpu → UInt32 × Cpu} {sz : Size}
    (hop : LimbOp R base digit Good sz.bytes op) {s : Cpu} (hne : s.ax ≠ s.ay)
    (hx : Below Good s s.ax sz.bytes) (hy : Below Good s s.ay sz.bytes) :
    ∃ t l, limbMm op sz s.ay (UInt32.ofNat sz.bytes) s.ax (UInt32.ofNat sz.bytes) s = Except.ok t ∧
      Limb R base digit sz.bytes s t l ∧ ∀ b ∈ l, Good b := by
  obtain ⟨k, hk⟩ : ∃ k, k = UInt32.ofNat sz.bytes := ⟨_, rfl⟩
  have hkn : k.toNat = sz.bytes := by
    subst hk
    cases sz <;> rfl
  have hdown : ∀ v : UInt32, sz.bytes ≤ v.toNat → (v - k).toNat = v.toNat - sz.bytes := by
    intro v hv
    have hle : k ≤ v := UInt32.le_iff_toNat_le.mpr (by omega)
    rw [UInt32.toNat_sub_of_le _ _ hle, hkn]
  have hdx := hdown _ hx.1
  have hdy := hdown _ hy.1
  -- the two operands
  obtain ⟨s', hs'⟩ : ∃ s', s' = (s.setReg s.ay (s.dar s.ay - k)).setReg s.ax (s.dar s.ax - k) :=
    ⟨_, rfl⟩
  have hmem : s'.memory = s.memory := by rw [hs', setReg_memory, setReg_memory]
  obtain ⟨src, hsrc, hsrclt, hsrcl⟩ := read_below (t := s.setReg s.ay (s.dar s.ay - k)) hy hdy rfl
  obtain ⟨dst, hdst, hdstlt, hdstl⟩ := read_below hx hdx hmem
  -- the result
  have hres := hop.result src dst s' hsrclt hdstlt (by rw [hsrcl]; exact hy.good)
    (by rw [hdstl]; exact hx.good)
  obtain ⟨t, ht⟩ : ∃ t, t = (op src dst s').2.setMemory (Bytes.write s.memory
    (s.dar s.ax - k).toNat (bigEndian sz.bytes (op src dst s').1.toNat)) := ⟨_, rfl⟩
  have hdar : t.dar = s'.dar := by rw [ht, setMemory_dar, hop.dar]
  have htx : t.dar s.ax = s.dar s.ax - k := by rw [hdar, hs', setReg_self]
  have hty : t.dar s.ay = s.dar s.ay - k := by
    rw [hdar, hs', setReg_of_ne hne.symm, setReg_self]
  have hwrite : write sz (s.dar s.ax - k) (op src dst s').1 (op src dst s').2 = Except.ok t := by
    refine write_eq_ok.mpr ⟨?_, ?_⟩
    · intro i hi
      rw [hdx]
      exact (hx.2 i hi).1
    · rw [ht, hop.memory, hmem]
  refine ⟨t, bigEndian sz.bytes (op src dst s').1.toNat, ?_, ⟨?_, ?_, ?_, ?_, ?_, ?_, ?_, ?_⟩,
    hres.2.2⟩
  · rw [← hk]
    simp only [limbMm, eaPd, hsrc, Run.ok_bind, setReg_of_ne hne, ← hs', hdst, hwrite]
  · exact bigEndian_length ..
  · rw [ht, rest_setMemory, hop.rest, hs', rest_setReg, rest_setReg]
  · rw [hty, hdy, Nat.sub_add_cancel hy.1]
  · rw [htx, hdx, Nat.sub_add_cancel hx.1]
  · intro r hrx hry
    rw [hdar, hs', setReg_of_ne hrx, setReg_of_ne hry]
  · rw [htx, ht, setMemory_memory]
  · have hcarry := hres.1
    rw [hsrcl, hdstl] at hcarry
    have hflag : s'.xFlag = s.xFlag := by rw [hs']; rfl
    rw [htx, hty, hdx, hdy, ht, ← hflag]
    exact hcarry
  · have hflag : s'.notZFlag = s.notZFlag := by rw [hs']; rfl
    rw [ht, ← hflag]
    exact hres.2.1

/-- The bytes below a register that lie above another stretch. -/
theorem Below.mono {s : Cpu} {r : Fin 16} {n k : Nat} (h : Below Good s r n) (hk : k ≤ n) :
    Below Good s r k := by
  refine ⟨le_trans hk h.1, ?_⟩
  intro i hi
  have hle := h.1
  have hsum : (s.dar r).toNat - k + i = (s.dar r).toNat - n + (n - k + i) := by omega
  rw [hsum]
  exact h.2 _ (by omega)

/-- **A run of limbs.**  The source lies at or below the destination, or is apart from it. -/
theorem limb_run (hR : Chains R) (hbase : 0 < base) {k n : Nat} {step : Cpu → Run Cpu} {s : Cpu}
    (hstep : ∀ t, t.ir = s.ir → Below Good t s.ax k → Below Good t s.ay k →
      ∃ u l, step t = Except.ok u ∧ Limb R base digit k t u l ∧ ∀ b ∈ l, Good b)
    (hx : Below Good s s.ax (k * n)) (hy : Below Good s s.ay (k * n))
    (happ : (s.dar s.ay).toNat ≤ (s.dar s.ax).toNat ∨
      (s.dar s.ax).toNat + k * n ≤ (s.dar s.ay).toNat) :
    ∃ t l, times step n s = Except.ok t ∧ Limb R base digit (k * n) s t l ∧ ∀ b ∈ l, Good b := by
  induction n generalizing s with
  | zero => exact ⟨s, [], rfl, Limb.refl hR s, by simp⟩
  | succ n ih =>
    rw [Nat.mul_succ] at hx hy happ ⊢
    obtain ⟨t, l, ht, hlimb, hgood⟩ := hstep s rfl (hx.mono (by omega)) (hy.mono (by omega))
    have hax : t.ax = s.ax := by rw [ax, ax, hlimb.ir]
    have hay : t.ay = s.ay := by rw [ay, ay, hlimb.ir]
    have hsrc := hlimb.src
    have hdst := hlimb.dst
    -- what is left of the two numbers was not touched, or is a result
    have hrest : ∀ r, (t.dar r).toNat + k = (s.dar r).toNat →
        ((s.dar r).toNat ≤ (s.dar s.ax).toNat ∨ (s.dar s.ax).toNat + (k * n + k) ≤ (s.dar r).toNat) →
        Below Good s r (k * n + k) → Below Good t r (k * n) := by
      intro r hr hplace hbelow
      have hle := hbelow.1
      refine ⟨by omega, ?_⟩
      intro i hi
      have hsame : (t.dar r).toNat - k * n + i = (s.dar r).toNat - (k * n + k) + i := by omega
      rw [hsame, hlimb.memory, write_outside]
      · exact hbelow.2 i (by omega)
      · rw [hlimb.length]
        omega
    obtain ⟨u, l', hu, hlimb', hgood'⟩ := ih (s := t) (by rw [hlimb.ir, hax, hay]; exact hstep)
      (by rw [hax]; exact hrest _ hdst (Or.inl le_rfl) hx)
      (by rw [hay]; exact hrest _ hsrc happ hy)
      (by rw [hax, hay]; omega)
    refine ⟨u, l' ++ l, times_succ ht hu, hlimb.trans hR hbase hlimb' ?_, ?_⟩
    · have hsrc' := hay ▸ hlimb'.src
      omega
    · intro b hb
      rcases List.mem_append.mp hb with hb | hb
      · exact hgood' b hb
      · exact hgood b hb

/-- The `k` bytes below `Ax` became `R` of themselves and the bytes below `Ay`, with the
    extend flag going in and out; both registers went down to the low addresses. -/
structure LongResult (R : Nat → Nat → Nat → Nat → Bool → Bool → Prop) (base : Nat)
    (digit : UInt8 → Nat) (Good : UInt8 → Prop) (k : Nat) (s t : Cpu) : Prop where
  src : (t.dar s.ay).toNat + k = (s.dar s.ay).toNat
  dst : (t.dar s.ax).toNat + k = (s.dar s.ax).toNat
  value : R (base ^ k) (positional base digit (slice s.memory (t.dar s.ax).toNat k))
    (positional base digit (slice s.memory (t.dar s.ay).toNat k))
    (positional base digit (slice t.memory (t.dar s.ax).toNat k)) (bit s.xFlag 8) (bit t.xFlag 8)
  digits : ∀ b ∈ slice t.memory (t.dar s.ax).toNat k, Good b
  zero : t.notZFlag = 0 ↔
    s.notZFlag = 0 ∧ positional base digit (slice t.memory (t.dar s.ax).toNat k) = 0
  others : ∀ r, r ≠ s.ax → r ≠ s.ay → t.dar r = s.dar r
  memory : ∀ a, a < (t.dar s.ax).toNat ∨ (s.dar s.ax).toNat ≤ a → t.memory a = s.memory a
  rest : rest t = rest s

theorem Limb.longResult {k : Nat} {s t : Cpu} {l : List UInt8} (h : Limb R base digit k s t l)
    (hgood : ∀ b ∈ l, Good b) : LongResult R base digit Good k s t := by
  have hl : slice t.memory (t.dar s.ax).toNat k = l := by
    rw [h.memory, ← h.length]
    exact (shows_write _ _ l).slice_eq
  refine ⟨h.src, h.dst, ?_, ?_, ?_, h.others, ?_, h.rest⟩
  · rw [hl]
    exact h.carry
  · rw [hl]
    exact hgood
  · rw [hl]
    exact h.zero
  · intro a ha
    have hdst := h.dst
    have hlen := h.length
    rw [h.memory]
    exact write_outside _ (by omega)

/-- **A run of an instruction of two limbs.** -/
theorem limbMm_run (hR : Chains R) (hbase : 0 < base)
    {op : UInt32 → UInt32 → Cpu → UInt32 × Cpu} {sz : Size} {step : Cpu → Run Cpu}
    (hop : LimbOp R base digit Good sz.bytes op)
    (hstep : ∀ t, step t =
      limbMm op sz t.ay (UInt32.ofNat sz.bytes) t.ax (UInt32.ofNat sz.bytes) t)
    (n : Nat) {s : Cpu} (hne : s.ax ≠ s.ay) (hx : Below Good s s.ax (sz.bytes * n))
    (hy : Below Good s s.ay (sz.bytes * n))
    (happ : (s.dar s.ay).toNat ≤ (s.dar s.ax).toNat ∨
      (s.dar s.ax).toNat + sz.bytes * n ≤ (s.dar s.ay).toNat) :
    ∃ t, times step n s = Except.ok t ∧ LongResult R base digit Good (sz.bytes * n) s t := by
  have hone : ∀ t, t.ir = s.ir → Below Good t s.ax sz.bytes → Below Good t s.ay sz.bytes →
      ∃ u l, step t = Except.ok u ∧ Limb R base digit sz.bytes t u l ∧ ∀ b ∈ l, Good b := by
    intro t hir htx hty
    have hax : t.ax = s.ax := by rw [ax, ax, hir]
    have hay : t.ay = s.ay := by rw [ay, ay, hir]
    rw [hstep]
    exact limbMm_limb hop (by rwa [hax, hay]) (by rwa [hax]) (by rwa [hay])
  obtain ⟨t, l, ht, hlimb, hgood⟩ := limb_run hR hbase hone hx hy happ
  exact ⟨t, ht, hlimb.longResult hgood⟩

end Limbs

/-! ### Binary numbers -/

theorem positional_bigEndian (k v : Nat) :
    positional 256 UInt8.toNat (bigEndian k v) = v % 256 ^ k := by
  rw [positional_bytes, ofBigEndian_bigEndian]

/-- `notZFlag` collects what is not zero. -/
theorem or_eq_zero (v w : UInt32) : v ||| w = 0 ↔ v = 0 ∧ w.toNat = 0 := by
  simp [← UInt32.toNat_inj, UInt32.toNat_or, Nat.or_eq_zero_iff]

theorem addx_limbOp (sz : Size) : LimbOp Adds 256 UInt8.toNat (fun _ => True) sz.bytes (addx sz) where
  rest _ _ _ := rfl
  dar _ _ _ := rfl
  memory _ _ _ := rfl
  result := by
    intro src dst s hs hd _ _
    have hsrc : src.toNat < 2 ^ sz.bits := by rwa [size_bits]
    have hdst : dst.toNat < 2 ^ sz.bits := by rwa [size_bits]
    have hlt := maskOutAbove_lt sz (src + dst + s.xflagAs1)
    have hsum := add_carry sz hsrc hdst (xflagAs1_le s)
    rw [size_bits] at hlt hsum
    rw [toNat_xflagAs1] at hsum
    simp only [addx, positional_bigEndian, Nat.mod_eq_of_lt hs, Nat.mod_eq_of_lt hd,
      Nat.mod_eq_of_lt hlt]
    refine ⟨?_, or_eq_zero _ _, fun _ _ => trivial⟩
    rw [Adds, hsum, Nat.add_comm dst.toNat]

theorem subx_limbOp (sz : Size) : LimbOp Subs 256 UInt8.toNat (fun _ => True) sz.bytes (subx sz) where
  rest _ _ _ := rfl
  dar _ _ _ := rfl
  memory _ _ _ := rfl
  result := by
    intro src dst s hs hd _ _
    have hsrc : src.toNat < 2 ^ sz.bits := by rwa [size_bits]
    have hdst : dst.toNat < 2 ^ sz.bits := by rwa [size_bits]
    have hlt := maskOutAbove_lt sz (dst - src - s.xflagAs1)
    have hdiff := sub_borrow sz hsrc hdst (xflagAs1_le s)
    rw [size_bits] at hlt hdiff
    rw [toNat_xflagAs1] at hdiff
    simp only [subx, positional_bigEndian, Nat.mod_eq_of_lt hs, Nat.mod_eq_of_lt hd,
      Nat.mod_eq_of_lt hlt]
    exact ⟨hdiff, or_eq_zero _ _, fun _ _ => trivial⟩

theorem addxMm_eq (sz : Size) (s : Cpu) : addxMm sz s =
    limbMm (addx sz) sz s.ay (UInt32.ofNat sz.bytes) s.ax (UInt32.ofNat sz.bytes) s := by
  cases sz <;> rfl

theorem subxMm_eq (sz : Size) (s : Cpu) : subxMm sz s =
    limbMm (subx sz) sz s.ay (UInt32.ofNat sz.bytes) s.ax (UInt32.ofNat sz.bytes) s := by
  cases sz <;> rfl

/-- **Long sums.**  `n` times `addx -(Ay),-(Ax)` adds two numbers of `n` limbs, with the extend
    flag as the carry on both sides; the zero flag is left set when it was set and the sum is
    zero, and nothing else changes. -/
theorem addx_run (sz : Size) (n : Nat) {s : Cpu} (hne : s.ax ≠ s.ay)
    (hx : Below (fun _ => True) s s.ax (sz.bytes * n))
    (hy : Below (fun _ => True) s s.ay (sz.bytes * n))
    (happ : (s.dar s.ay).toNat ≤ (s.dar s.ax).toNat ∨
      (s.dar s.ax).toNat + sz.bytes * n ≤ (s.dar s.ay).toNat) :
    ∃ t, times (addxMm sz) n s = Except.ok t ∧
      LongResult Adds 256 UInt8.toNat (fun _ => True) (sz.bytes * n) s t :=
  limbMm_run adds_chains (by decide) (addx_limbOp sz) (addxMm_eq sz) n hne hx hy happ

/-- The processor before `addx.l -(A1),-(A0)`, with two numbers of twelve bytes. -/
def beforeAddx : Cpu :=
  { m68kiCpu with
    ir := 0xd189
    dar := fun r => if r = 8 then 0x1000c else if r = 9 then 0x2000c else 0
    memory := Bytes.write (Bytes.write initM68KMemory 0x10000 (List.replicate 12 0xff)) 0x2000b [1] }

theorem addx_run_three : ∃ t, times (addxMm .long) 3 beforeAddx = Except.ok t ∧
    LongResult Adds 256 UInt8.toNat (fun _ => True) 12 beforeAddx t :=
  addx_run .long 3 (by decide) (by decide) (by decide) (by decide)

/-- **Long differences.** -/
theorem subx_run (sz : Size) (n : Nat) {s : Cpu} (hne : s.ax ≠ s.ay)
    (hx : Below (fun _ => True) s s.ax (sz.bytes * n))
    (hy : Below (fun _ => True) s s.ay (sz.bytes * n))
    (happ : (s.dar s.ay).toNat ≤ (s.dar s.ax).toNat ∨
      (s.dar s.ax).toNat + sz.bytes * n ≤ (s.dar s.ay).toNat) :
    ∃ t, times (subxMm sz) n s = Except.ok t ∧
      LongResult Subs 256 UInt8.toNat (fun _ => True) (sz.bytes * n) s t :=
  limbMm_run subs_chains (by decide) (subx_limbOp sz) (subxMm_eq sz) n hne hx hy happ

theorem subx_run_three : ∃ t, times (subxMm .long) 3 beforeAddx = Except.ok t ∧
    LongResult Subs 256 UInt8.toNat (fun _ => True) 12 beforeAddx t :=
  subx_run .long 3 (by decide) (by decide) (by decide) (by decide)

end ParaTos.Cpu
