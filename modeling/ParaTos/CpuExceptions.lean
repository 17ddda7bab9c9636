/-
  ParaTos/CpuExceptions.lean
  ==========================
  **Exceptions and the return from them** (`mushashi/m68kcpu.h`; `rte` of
  `mushashi/m68k_in.c`).

  An exception saves the status register, enters supervisor mode, pushes a frame and
  goes to the address in its vector.  A frame is the status register, the program
  counter and a format word; format 2 adds the address of the instruction.  An interrupt
  with `M` set leaves two of them: one on the master stack, and a throwaway frame on the
  interrupt stack.

  The first half is the code.  The second says what is on the stack after an exception
  (`frame0000_eq_ok`, `frame0010_eq_ok`), and what `rte` does with it (`rteLoop_normal`,
  `rteLoop_trap`, `rteLoop_throwaway`).  The host's traps 33, 34, 45 and 46 are no
  exceptions of the processor; tracing and address errors are not compiled in.
-/
import ParaTos.CpuStatus

namespace ParaTos.Cpu

open Bytes Memory WordBits

/-! ### Frames -/

/-- `m68ki_jump_vector`. -/
def jumpVector (vector : UInt32) (s : Cpu) : Run Cpu := do
  let pc ← read32 ((vector <<< 2) + s.vbr) s
  return s.setPc pc

/-- `m68ki_init_exception`: the old status register, and supervisor mode. -/
def initException (s : Cpu) : UInt32 × Cpu :=
  (getSr s, setSFlag 4 { s with t1Flag := 0, t0Flag := 0 })

/-- `m68ki_stack_frame_0000`. -/
def stackFrame0000 (pc sr vector : UInt32) (s : Cpu) : Run Cpu := do
  let s ← push16 (vector <<< 2) s
  let s ← push32 pc s
  push16 sr s

/-- `m68ki_stack_frame_0001`. -/
def stackFrame0001 (pc sr vector : UInt32) (s : Cpu) : Run Cpu := do
  let s ← push16 ((0x1000 : UInt32) ||| (vector <<< 2)) s
  let s ← push32 pc s
  push16 sr s

/-- `m68ki_stack_frame_0010`. -/
def stackFrame0010 (sr vector : UInt32) (s : Cpu) : Run Cpu := do
  let s ← push32 s.ppc s
  let s ← push16 ((0x2000 : UInt32) ||| (vector <<< 2)) s
  let s ← push32 s.pc s
  push16 sr s

/-! ### Exceptions -/

/-- `m68ki_exception_trap`. -/
def exceptionTrap (vector : UInt32) (s : Cpu) : Run Cpu := do
  let (sr, s) := initException s
  let s ← stackFrame0010 sr vector s
  jumpVector vector s

/-- A frame of format 0 with the given program counter. -/
def exceptionNormal (pc vector : UInt32) (s : Cpu) : Run Cpu := do
  let (sr, s) := initException s
  let s ← stackFrame0000 pc sr vector s
  jumpVector vector s

/-- The default case of `m68ki_exception_trapN`. -/
def exceptionTrapN (vector : UInt32) (s : Cpu) : Run Cpu := exceptionNormal s.pc vector s

/-- `m68ki_exception_privilege_violation`. -/
def exceptionPrivilegeViolation (s : Cpu) : Run Cpu := exceptionNormal s.ppc 8 s

/-- `m68ki_exception_illegal`. -/
def exceptionIllegal (s : Cpu) : Run Cpu := exceptionNormal s.ppc 4 s

/-- `m68ki_exception_format_error`. -/
def exceptionFormatError (s : Cpu) : Run Cpu := exceptionNormal s.pc 14 s

/-- The new program counter of an interrupt: an empty vector is replaced by that of
    uninitialized interrupts. -/
def interruptPc (vector : UInt32) (s : Cpu) : Run UInt32 := do
  let newPc ← read32 ((vector <<< 2) + s.vbr) s
  if newPc = 0 then read32 (((15 : UInt32) <<< 2) + s.vbr) s else return newPc

/-- The frames of an interrupt.  With `M` set there is a second one, on the interrupt stack;
    its status register says supervisor. -/
def interruptFrames (sr vector : UInt32) (s : Cpu) : Run Cpu := do
  let s ← stackFrame0000 s.pc sr vector s
  if s.mFlag ≠ 0 then
    let s := setSmFlag s.sFlag s
    stackFrame0001 s.pc (sr ||| 0x2000) vector s
  else return s

/-- The state in which an interrupt pushes its frames. -/
def interruptBase (intLevel : UInt32) (s : Cpu) : Cpu :=
  { (initException s).2 with intMask := intLevel <<< 8 }

/-- `m68ki_exception_interrupt`, with the callback that `m68k_init` sets: the level is
    cleared, and the vector is the autovector of the level. -/
def exceptionInterrupt (intLevel : UInt32) (s : Cpu) : Run Cpu :=
  let s := { s with stopped := s.stopped &&& ~~~1 }
  if s.stopped ≠ 0 then return s
  else do
    let s := { s with intLevel := 0 }
    let newPc ← interruptPc (24 + intLevel) (interruptBase intLevel s)
    let t ← interruptFrames (getSr s) (24 + intLevel) (interruptBase intLevel s)
    return t.setPc newPc

/-- `m68ki_check_interrupts`. -/
def checkInterrupts (s : Cpu) : Run Cpu :=
  if s.intLevel > s.intMask then exceptionInterrupt (s.intLevel >>> 8) s else return s

/-- `m68ki_set_sr`. -/
def setSr (value : UInt32) (s : Cpu) : Run Cpu := checkInterrupts (setSrNoint value s)

/-- `m68k_set_irq`. -/
def setIrq (intLevel : UInt32) (s : Cpu) : Run Cpu :=
  let t := { s with intLevel := intLevel <<< 8 }
  if s.intLevel ≠ 0x0700 ∧ t.intLevel = 0x0700 then exceptionInterrupt 7 t else checkInterrupts t

/-! ### The return -/

/-- `m68ki_fake_pull_16` and `m68ki_fake_pull_32`. -/
def fakePull16 (s : Cpu) : Cpu := s.setReg regSp (s.dar regSp + 2)
def fakePull32 (s : Cpu) : Cpu := s.setReg regSp (s.dar regSp + 4)

/-- `rte_loop`, for at most so many frames. -/
def rteLoop : Nat → Cpu → Run Cpu
  | 0, _ => Except.error .diverges
  | n + 1, s => do
    let word ← read16 (s.dar regSp + 6) s
    let formatWord := word >>> 12
    if formatWord = 0 then do
      let (newSr, s) ← pull16 s
      let (newPc, s) ← pull32 s
      setSr newSr ((fakePull16 s).setPc newPc)
    else if formatWord = 1 then do
      let (newSr, s) ← pull16 s
      rteLoop n (setSrNoint newSr (fakePull16 (fakePull32 s)))
    else if formatWord = 2 then do
      let (newSr, s) ← pull16 s
      let (newPc, s) ← pull32 s
      setSr newSr ((fakePull32 (fakePull16 s)).setPc newPc)
    else exceptionFormatError s

/-- `rte, 32`.  No stack holds more frames than this many. -/
def rte (s : Cpu) : Run Cpu :=
  if s.sFlag ≠ 0 then rteLoop 0x1000000 s else exceptionPrivilegeViolation s

/-! ### What is pushed -/

/-- A frame: status register, program counter and format word. -/
def frame (sr pc word : UInt32) : List UInt8 :=
  bigEndian 2 sr.toNat ++ bigEndian 4 pc.toNat ++ bigEndian 2 word.toNat

@[simp] theorem frame_length (sr pc word : UInt32) : (frame sr pc word).length = 8 := by
  simp [frame]

/-- Bytes were pushed on the active stack. -/
def pushed (k : UInt32) (l : List UInt8) (s : Cpu) : Cpu :=
  (s.setReg regSp (s.dar regSp - k)).setMemory (Bytes.write s.memory (s.dar regSp - k).toNat l)

theorem pushed_pushed {k k' : UInt32} {l l' : List UInt8} {s : Cpu}
    (hl : l'.length = k'.toNat) (h : k.toNat + k'.toNat ≤ (s.dar regSp).toNat) :
    (s.pushed k l).pushed k' l' = s.pushed (k' + k) (l' ++ l) := by
  have hlt := (s.dar regSp).toNat_lt
  have hsub : s.dar regSp - k - k' = s.dar regSp - (k' + k) := by
    apply UInt32.toNat_inj.mp
    simp only [UInt32.toNat_sub, UInt32.toNat_add]
    omega
  have haddr : (s.dar regSp - k).toNat = (s.dar regSp - (k' + k)).toNat + l'.length := by
    rw [hl]
    simp only [UInt32.toNat_sub, UInt32.toNat_add]
    omega
  have hdar : (s.pushed k l).dar regSp = s.dar regSp - k := by
    rw [pushed, setMemory_dar, setReg_self]
  have hmem : (s.pushed k l).memory = Bytes.write s.memory (s.dar regSp - k).toNat l := rfl
  rw [pushed, hdar, hmem, hsub, pushed, pushed, setReg_setMemory, setReg_setReg,
    setMemory_setMemory, haddr, write_prepend]

theorem pushed_sp (k : UInt32) (l : List UInt8) (s : Cpu) :
    (s.pushed k l).dar regSp = s.dar regSp - k := by
  rw [pushed, setMemory_dar, setReg_self]

/-- A word that lies below the stack pointer. -/
theorem toNat_below {v k : UInt32} (h : k.toNat ≤ v.toNat) : (v - k).toNat = v.toNat - k.toNat :=
  UInt32.toNat_sub_of_le _ _ (UInt32.le_iff_toNat_le.mpr h)

theorem pushed_memory {k : UInt32} {s : Cpu} (l : List UInt8) (h : k.toNat ≤ (s.dar regSp).toNat) :
    (s.pushed k l).memory = Bytes.write s.memory ((s.dar regSp).toNat - k.toNat) l := by
  rw [← toNat_below h]
  rfl

/-- Where there is room, `f` pushes the `k` bytes `l`, and it needs them to be mapped. -/
structure Pushes (f : Cpu → Run Cpu) (k : UInt32) (l : List UInt8) : Prop where
  length : l.length = k.toNat
  eq_ok : ∀ {s t : Cpu}, k.toNat ≤ (s.dar regSp).toNat → (f s = Except.ok t ↔
    (∀ i < k.toNat, Mapped ((s.dar regSp).toNat - k.toNat + i)) ∧ t = s.pushed k l)

theorem push16_pushes (v : UInt32) : Pushes (push16 v) 2 (bigEndian 2 v.toNat) where
  length := bigEndian_length ..
  eq_ok := by
    intro s t h
    rw [← toNat_below h]
    exact @write_eq_ok .word (s.dar regSp - 2) v (s.setReg regSp (s.dar regSp - 2)) t

theorem push32_pushes (v : UInt32) : Pushes (push32 v) 4 (bigEndian 4 v.toNat) where
  length := bigEndian_length ..
  eq_ok := by
    intro s t h
    rw [← toNat_below h]
    exact @write_eq_ok .long (s.dar regSp - 4) v (s.setReg regSp (s.dar regSp - 4)) t

theorem Pushes.comp {f g : Cpu → Run Cpu} {k k' : UInt32} {l l' : List UInt8} (hf : Pushes f k l)
    (hg : Pushes g k' l') (hk : (k' + k).toNat = k'.toNat + k.toNat) :
    Pushes (fun s => f s >>= g) (k' + k) (l' ++ l) where
  length := by rw [List.length_append, hf.length, hg.length, hk]
  eq_ok := by
    intro s t h
    rw [hk] at h ⊢
    have hsp : (s.pushed k l).dar regSp = s.dar regSp - k := pushed_sp ..
    have hsp' : ((s.pushed k l).dar regSp).toNat = (s.dar regSp).toNat - k.toNat := by
      rw [hsp, toNat_below (by omega)]
    have hroom : k'.toNat ≤ ((s.pushed k l).dar regSp).toNat := by omega
    have hpush := pushed_pushed (s := s) hg.length (k := k) (l := l) (by omega)
    have haddr : (s.dar regSp).toNat - (k'.toNat + k.toNat) + k'.toNat =
        (s.dar regSp).toNat - k.toNat := by omega
    have haddr' : (s.dar regSp).toNat - k.toNat - k'.toNat =
        (s.dar regSp).toNat - (k'.toNat + k.toNat) := by omega
    rw [mapped_append, haddr, ← hpush]
    simp only [Run.bind_eq_ok]
    constructor
    · rintro ⟨_, hfs, hgs⟩
      obtain ⟨hmap, rfl⟩ := (hf.eq_ok (by omega)).mp hfs
      obtain ⟨hmap', rfl⟩ := (hg.eq_ok hroom).mp hgs
      rw [hsp', haddr'] at hmap'
      exact ⟨⟨hmap', hmap⟩, rfl⟩
    · rintro ⟨⟨hmap', hmap⟩, rfl⟩
      refine ⟨_, (hf.eq_ok (by omega)).mpr ⟨hmap, rfl⟩, (hg.eq_ok hroom).mpr ⟨?_, rfl⟩⟩
      rwa [hsp', haddr']

/-- The status register, the program counter and a word, in this order from below. -/
theorem frame_pushes (sr pc word : UInt32) :
    Pushes (fun s => push16 word s >>= fun s => push32 pc s >>= push16 sr) 8 (frame sr pc word) := by
  have h := ((push16_pushes word).comp (push32_pushes pc) rfl).comp (push16_pushes sr) rfl
  simp only [bind_assoc] at h
  rw [frame, List.append_assoc]
  exact h

theorem stackFrame0000_pushes (pc sr vector : UInt32) :
    Pushes (stackFrame0000 pc sr vector) 8 (frame sr pc (vector <<< 2)) :=
  frame_pushes sr pc (vector <<< 2)

theorem stackFrame0001_pushes (pc sr vector : UInt32) :
    Pushes (stackFrame0001 pc sr vector) 8
      (frame sr pc ((0x1000 : UInt32) ||| (vector <<< 2))) :=
  frame_pushes sr pc _

theorem stackFrame0010_eq_ok {sr vector : UInt32} {s t : Cpu} (h : 12 ≤ (s.dar regSp).toNat) :
    stackFrame0010 sr vector s = Except.ok t ↔
      (∀ i < 12, Mapped ((s.dar regSp).toNat - 12 + i)) ∧
        t = s.pushed 12
          (frame sr s.pc ((0x2000 : UInt32) ||| (vector <<< 2)) ++ bigEndian 4 s.ppc.toNat) := by
  have hpush := (push32_pushes s.ppc).comp
    (frame_pushes sr s.pc ((0x2000 : UInt32) ||| (vector <<< 2))) rfl
  refine Iff.trans ?_ (hpush.eq_ok h)
  -- the pushes leave the program counter
  have hpc : ∀ {v s₁}, push32 v s = Except.ok s₁ → ∀ {v' s₂}, push16 v' s₁ = Except.ok s₂ →
      s₂.pc = s.pc := by
    intro v s₁ h₁ v' s₂ h₂
    rw [(@write_eq_ok .long _ _ _ _).mp h₁ |>.2] at h₂
    rw [(@write_eq_ok .word _ _ _ _).mp h₂ |>.2]
    rfl
  unfold stackFrame0010
  simp only [Run.bind_eq_ok]
  constructor
  · rintro ⟨s₁, h₁, s₂, h₂, h₃⟩
    exact ⟨s₁, h₁, s₂, h₂, hpc h₁ h₂ ▸ h₃⟩
  · rintro ⟨s₁, h₁, s₂, h₂, h₃⟩
    exact ⟨s₁, h₁, s₂, h₂, (hpc h₁ h₂).symm ▸ h₃⟩

/-! ### Supervisor mode -/

theorem changeSp_dar_of_ne {r : Fin 16} (h : r ≠ regSp) (sFlag mFlag : UInt32) (s : Cpu) :
    (changeSp sFlag mFlag s).dar r = s.dar r := setReg_of_ne h ..

/-- The bank on which an exception leaves its frame. -/
def exceptionBank (s : Cpu) : Bank := bankOf 4 s.mFlag

theorem clearTrace_status {s : Cpu} (h : Status s) : Status { s with t1Flag := 0, t0Flag := 0 } where
  t1 := UInt32.zero_and
  t0 := UInt32.zero_and
  sFlag := h.sFlag
  mFlag := h.mFlag
  intMask := h.intMask

theorem initException_status {s : Cpu} (h : Status s) : Status (initException s).2 where
  t1 := UInt32.zero_and
  t0 := UInt32.zero_and
  sFlag := UInt32.and_self (a := 4)
  mFlag := h.mFlag
  intMask := h.intMask

theorem initException_bank (s : Cpu) : (initException s).2.bank = s.exceptionBank := rfl

theorem initException_pointer {s : Cpu} (h : Status s) (b : Bank) :
    pointer b (initException s).2 = pointer b s := by
  have hsame : pointer b { s with t1Flag := 0, t0Flag := 0 } = pointer b s := by cases b <;> rfl
  rw [← hsame]
  exact pointer_changeSp (clearTrace_status h) (Or.inr rfl) h.mFlag_cases b

theorem sp_eq_pointer (s : Cpu) : s.dar regSp = pointer s.bank s := by
  rw [pointer_eq, if_pos rfl]

theorem initException_sp {s : Cpu} (h : Status s) :
    (initException s).2.dar regSp = pointer s.exceptionBank s := by
  rw [sp_eq_pointer, initException_bank, initException_pointer h]

theorem pushed_pointer (k : UInt32) (l : List UInt8) (s : Cpu) (b : Bank) :
    pointer b (s.pushed k l) = if s.bank = b then pointer b s - k else pointer b s := by
  have hmem : pointer b (s.pushed k l) = pointer b (s.setReg regSp (s.dar regSp - k)) := by
    cases b <;> rfl
  rw [hmem, pointer_setReg_sp]
  split
  case isTrue h => rw [sp_eq_pointer, h]
  case isFalse => rfl

theorem jumpVector_eq_ok {vector : UInt32} {s t : Cpu} : jumpVector vector s = Except.ok t ↔
    ∃ pc, read32 ((vector <<< 2) + s.vbr) s = Except.ok pc ∧ t = s.setPc pc := by
  simp only [jumpVector, Run.bind_eq_ok, Run.pure_eq_ok, Run.ok_inj]
  constructor
  · rintro ⟨pc, h, rfl⟩
    exact ⟨pc, h, rfl⟩
  · rintro ⟨pc, h, rfl⟩
    exact ⟨pc, h, rfl⟩

/-! ### What is pulled -/

theorem read_shows {sz : Size} {a v : UInt32} {s : Cpu} {n : Nat} (hn : a.toNat = n)
    (hmap : ∀ i < sz.bytes, Mapped (n + i))
    (h : Shows s.memory n (bigEndian sz.bytes v.toNat)) (hv : v.toNat < 256 ^ sz.bytes) :
    read sz a s = Except.ok v := by
  refine read_eq_ok.mpr ⟨hn ▸ hmap, ?_⟩
  have hslice := h.slice_eq
  rw [bigEndian_length] at hslice
  rw [hn, hslice, ofBigEndian_bigEndian, Nat.mod_eq_of_lt hv]

/-- A frame on the active stack. -/
structure OnStack (sr pc word : UInt32) (s : Cpu) : Prop where
  room : (s.dar regSp).toNat + 8 ≤ 2 ^ 32
  shows : Shows s.memory (s.dar regSp).toNat (frame sr pc word)
  mapped : ∀ i < 8, Mapped ((s.dar regSp).toNat + i)
  sr : sr.toNat < 2 ^ 16
  word : word.toNat < 2 ^ 16

section Pull

variable {sr pc word : UInt32} {s : Cpu}

theorem OnStack.parts (h : OnStack sr pc word s) :
    Shows s.memory (s.dar regSp).toNat (bigEndian 2 sr.toNat) ∧
      Shows s.memory ((s.dar regSp).toNat + 2) (bigEndian 4 pc.toNat) ∧
      Shows s.memory ((s.dar regSp).toNat + 6) (bigEndian 2 word.toNat) := by
  have hshows := h.shows
  rw [frame, shows_append, shows_append] at hshows
  simpa [and_assoc] using hshows

theorem OnStack.toNat_add (h : OnStack sr pc word s) {k : UInt32} (hk : k.toNat < 8) :
    (s.dar regSp + k).toNat = (s.dar regSp).toNat + k.toNat := by
  have hroom := h.room
  rw [UInt32.toNat_add, Nat.mod_eq_of_lt (by omega)]

theorem OnStack.read_word (h : OnStack sr pc word s) :
    read16 (s.dar regSp + 6) s = Except.ok word := by
  refine @read_shows .word _ word s _ (h.toNat_add (by decide)) ?_ h.parts.2.2 h.word
  intro i hi
  have h6 : (6 : UInt32).toNat = 6 := rfl
  have hword : Size.word.bytes = 2 := rfl
  have hmap := h.mapped (6 + i) (by omega)
  rwa [h6, Nat.add_assoc]

theorem OnStack.pull_sr (h : OnStack sr pc word s) :
    pull16 s = Except.ok (sr, s.setReg regSp (s.dar regSp + 2)) := by
  have hread : read16 (s.dar regSp) s = Except.ok sr := by
    refine @read_shows .word _ sr s _ rfl ?_ h.parts.1 h.sr
    intro i hi
    have hword : Size.word.bytes = 2 := rfl
    exact h.mapped i (by omega)
  rw [pull16, hread, Run.ok_bind, Run.pure_eq_ok]

theorem OnStack.pull_pc (h : OnStack sr pc word s) :
    pull32 (s.setReg regSp (s.dar regSp + 2)) =
      Except.ok (pc, s.setReg regSp (s.dar regSp + 6)) := by
  have h2 : (2 : UInt32).toNat = 2 := rfl
  have hread : read32 (s.dar regSp + 2) (s.setReg regSp (s.dar regSp + 2)) = Except.ok pc := by
    refine @read_shows .long _ pc (s.setReg regSp (s.dar regSp + 2)) _ (h.toNat_add (by decide)) ?_
      h.parts.2.1 pc.toNat_lt
    intro i hi
    have hlong : Size.long.bytes = 4 := rfl
    have hmap := h.mapped (2 + i) (by omega)
    rwa [h2, Nat.add_assoc]
  rw [pull32, setReg_self, hread, Run.ok_bind, Run.pure_eq_ok, setReg_setReg, UInt32.add_assoc]
  rfl

/-- `rte` takes a frame of format 0 and sets what was saved in it. -/
theorem rteLoop_normal (n : Nat) (h : OnStack sr pc word s) (hword : word >>> 12 = 0) :
    rteLoop (n + 1) s = setSr sr ((s.setReg regSp (s.dar regSp + 8)).setPc pc) := by
  rw [rteLoop, h.read_word]
  simp only [Run.ok_bind, hword, if_true, h.pull_sr, h.pull_pc, fakePull16, setReg_self,
    setReg_setReg, UInt32.add_assoc]
  rfl

/-- After a throwaway frame it goes on with the stack of the mode that was saved there. -/
theorem rteLoop_throwaway (n : Nat) (h : OnStack sr pc word s) (hword : word >>> 12 = 1) :
    rteLoop (n + 1) s = rteLoop n (setSrNoint sr (s.setReg regSp (s.dar regSp + 8))) := by
  have hne : (1 : UInt32) ≠ 0 := by decide
  rw [rteLoop, h.read_word]
  simp only [Run.ok_bind, hword, hne, if_true, if_false, h.pull_sr, fakePull16, fakePull32,
    setReg_self, setReg_setReg, UInt32.add_assoc]
  rfl

/-- Format 2 has the address of the instruction above the rest. -/
theorem rteLoop_trap (n : Nat) (h : OnStack sr pc word s) (hword : word >>> 12 = 2) :
    rteLoop (n + 1) s = setSr sr ((s.setReg regSp (s.dar regSp + 12)).setPc pc) := by
  have hne : (2 : UInt32) ≠ 0 := by decide
  have hne' : (2 : UInt32) ≠ 1 := by decide
  rw [rteLoop, h.read_word]
  simp only [Run.ok_bind, hword, hne, hne', if_true, if_false, h.pull_sr, h.pull_pc, fakePull16,
    fakePull32, setReg_self, setReg_setReg, UInt32.add_assoc]
  rfl

end Pull

/-! ### The loop of the return ends -/

/-- A computation that does not go on for ever. -/
structure Ends {α : Type} (x : Run α) : Prop where
  ne : x ≠ Except.error .diverges

section Ends

variable {α β : Type}

theorem ends_ok (a : α) : Ends (Except.ok a : Run α) := ⟨nofun⟩

theorem ends_bind {x : Run α} {f : α → Run β} (hx : Ends x) (hf : ∀ a, Ends (f a)) :
    Ends (x >>= f) := by
  cases x with
  | error e =>
    constructor
    intro h
    cases h
    exact hx.ne rfl
  | ok a => exact hf a

theorem ends_peeks (a n : Nat) (m : Memory) : Ends (peeks a n m) := by
  unfold peeks
  split <;> exact ⟨nofun⟩

theorem ends_poke (a : Nat) (l : List UInt8) (m : Memory) : Ends (poke a l m) := by
  unfold poke
  split <;> exact ⟨nofun⟩

theorem ends_read16 (a : UInt32) (s : Cpu) : Ends (read16 a s) :=
  ends_bind (ends_bind (ends_peeks ..) fun _ => ends_ok _) fun _ => ends_ok _

theorem ends_read32 (a : UInt32) (s : Cpu) : Ends (read32 a s) :=
  ends_bind (ends_peeks ..) fun _ => ends_ok _

theorem ends_push16 (v : UInt32) (s : Cpu) : Ends (push16 v s) :=
  ends_bind (ends_poke ..) fun _ => ends_ok _

theorem ends_push32 (v : UInt32) (s : Cpu) : Ends (push32 v s) :=
  ends_bind (ends_poke ..) fun _ => ends_ok _

theorem ends_frame (word pc sr : UInt32) (s : Cpu) :
    Ends (push16 word s >>= fun s => push32 pc s >>= push16 sr) :=
  ends_bind (ends_push16 ..) fun _ => ends_bind (ends_push32 ..) fun _ => ends_push16 ..

theorem ends_exceptionNormal (pc vector : UInt32) (s : Cpu) : Ends (exceptionNormal pc vector s) :=
  ends_bind (ends_frame ..) fun _ => ends_bind (ends_read32 ..) fun _ => ends_ok _

theorem ends_interruptFrames (sr vector : UInt32) (s : Cpu) : Ends (interruptFrames sr vector s) := by
  refine ends_bind (ends_frame ..) fun t => ?_
  split
  · exact ends_frame ..
  · exact ends_ok _

theorem ends_interruptPc (vector : UInt32) (s : Cpu) : Ends (interruptPc vector s) := by
  refine ends_bind (ends_read32 ..) fun pc => ?_
  split
  · exact ends_read32 ..
  · exact ends_ok _

theorem ends_exceptionInterrupt (level : UInt32) (s : Cpu) : Ends (exceptionInterrupt level s) := by
  unfold exceptionInterrupt
  dsimp only
  split
  · exact ends_ok _
  · exact ends_bind (ends_interruptPc ..) fun _ =>
      ends_bind (ends_interruptFrames ..) fun _ => ends_ok _

theorem ends_setSr (value : UInt32) (s : Cpu) : Ends (setSr value s) := by
  unfold setSr checkInterrupts
  split
  · exact ends_exceptionInterrupt ..
  · exact ends_ok _

end Ends

/-- The bytes from an address to the gap above the lower pages; the upper ones run into them. -/
def left (v : UInt32) : Nat :=
  if v.toNat < 0x1000000 then 0x1000000 - v.toNat
  else if 0xff000000 ≤ v.toNat then 2 ^ 32 - v.toNat + 0x1000000
  else 0

theorem left_add {v : UInt32} (h : Mapped v.toNat) : (left (v + 8) + 7) / 8 < (left v + 7) / 8 := by
  have hsz : Mem.memorySz.toNat = 0x1000000 := rfl
  have h8 : (8 : UInt32).toNat = 8 := rfl
  have hlt := v.toNat_lt
  unfold left
  rw [UInt32.toNat_add, h8]
  rcases h with h | h <;> split_ifs <;> omega

/-- So many frames fit above the stack pointers. -/
def framesLeft (s : Cpu) : Nat :=
  (left (pointer .user s) + 7) / 8 + (left (pointer .interrupt s) + 7) / 8 +
    (left (pointer .master s) + 7) / 8

theorem left_le (v : UInt32) : left v ≤ 0x2000000 := by
  have hlt := v.toNat_lt
  unfold left
  split_ifs <;> omega

theorem framesLeft_lt (s : Cpu) : framesLeft s < 0x1000000 := by
  have hu := left_le (pointer .user s)
  have hi := left_le (pointer .interrupt s)
  have hm := left_le (pointer .master s)
  unfold framesLeft
  omega

theorem framesLeft_pulled {s : Cpu} (h : Status s) (hmap : Mapped (s.dar regSp).toNat) (v : UInt32) :
    framesLeft (setSrNoint v (s.setReg regSp (s.dar regSp + 8))) < framesLeft s := by
  have hstatus : Status (s.setReg regSp (s.dar regSp + 8)) := ⟨h.t1, h.t0, h.sFlag, h.mFlag, h.intMask⟩
  have hpointer : ∀ b, pointer b (setSrNoint v (s.setReg regSp (s.dar regSp + 8))) =
      if s.bank = b then s.dar regSp + 8 else pointer b s := by
    intro b
    rw [pointer_setSrNoint hstatus, pointer_setReg_sp]
  have hless := left_add hmap
  rw [framesLeft, framesLeft, hpointer, hpointer, hpointer]
  rw [sp_eq_pointer] at hless ⊢
  cases hb : s.bank <;> rw [hb] at hless <;> simp <;> omega

theorem rteLoop_ends {n : Nat} {s : Cpu} (h : Status s) (hn : framesLeft s < n) :
    Ends (rteLoop n s) := by
  induction n generalizing s with
  | zero => omega
  | succ n ih =>
    rw [rteLoop]
    refine ends_bind (ends_read16 ..) fun word => ?_
    dsimp only
    split
    · exact ends_bind (ends_bind (ends_read16 ..) fun _ => ends_ok _) fun _ =>
        ends_bind (ends_bind (ends_read32 ..) fun _ => ends_ok _) fun _ => ends_setSr ..
    · split
      · cases hpull : pull16 s with
        | error e =>
          constructor
          intro hdiverges
          cases hdiverges
          exact (ends_bind (ends_read16 ..) fun _ => ends_ok _).ne hpull
        | ok p =>
          -- a throwaway frame is gone, and there are fewer above
          obtain ⟨v, hread, hp⟩ := Run.bind_eq_ok.mp hpull
          have hmap := (read16_eq_ok.mp hread).1 0 (by decide)
          obtain rfl := Run.ok_inj.mp hp
          have hless := framesLeft_pulled h hmap v
          have hstate : fakePull16 (fakePull32 (s.setReg regSp (s.dar regSp + 2))) =
              s.setReg regSp (s.dar regSp + 8) := by
            simp only [fakePull16, fakePull32, setReg_self, setReg_setReg, UInt32.add_assoc]
            rfl
          simp only [Run.ok_bind, hstate]
          exact ih (status_setSrNoint ..) (by omega)
      · split
        · exact ends_bind (ends_bind (ends_read16 ..) fun _ => ends_ok _) fun _ =>
            ends_bind (ends_bind (ends_read32 ..) fun _ => ends_ok _) fun _ => ends_setSr ..
        · exact ends_exceptionNormal ..

/-- **`rte` comes to an end**, whatever frames it finds. -/
theorem rte_ends {s : Cpu} (h : Status s) : Ends (rte s) := by
  unfold rte
  split
  · exact rteLoop_ends h (framesLeft_lt s)
  · exact ends_exceptionNormal ..

theorem rte_ends_supervisor : Ends (rte { m68kiCpu with sFlag := 4 }) := rte_ends (by decide)

end ParaTos.Cpu
