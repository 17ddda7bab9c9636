/-
  ParaTos/CpuNesting.lean
  =======================
  **Exceptions within exceptions.**

  A handler may itself be interrupted, on its own stack or on another one, and every
  `rte` has to find the frame that belongs to it.  The states of the processor are taken
  with a list of contexts, one for each exception that is being handled, the innermost
  first: an exception or an interrupt adds one, an `rte` takes one away, and what else a
  program does leaves the bytes of the frames alone (`Step`).

  In every run the frames of all contexts stand where they were pushed
  (`Runs.saved`).  So an `rte` that is reached with the stack pointer where its exception
  left it goes back to the program counter, the status register and the stack pointers
  that were interrupted, whatever went on in between (`exception_returns`,
  `interrupt_returns`).
-/
import ParaTos.CpuExceptions
import Mathlib

namespace ParaTos.Cpu

open Bytes Memory WordBits

/-! ### Contexts -/

/-- The traps that are calls of the host: GEMDOS, GEM, BIOS and XBIOS. -/
def hostTraps : List (Fin 16) := [1, 2, 13, 14]

/-- The exceptions that instructions cause. -/
inductive Exception where
  | zeroDivide
  | chk
  | trapv
  | trapN (n : Fin 16) (h : n ∉ hostTraps)
  | illegalInstruction
  | privilegeViolation
  | formatError

def Exception.vector : Exception → UInt32
  | .zeroDivide => 5
  | .chk => 6
  | .trapv => 7
  | .trapN n _ => 32 + UInt32.ofNat n
  | .illegalInstruction => 4
  | .privilegeViolation => 8
  | .formatError => 14

def raise : Exception → Cpu → Run Cpu
  | .zeroDivide => exceptionTrap 5
  | .chk => exceptionTrap 6
  | .trapv => exceptionTrap 7
  | .trapN n _ => exceptionTrapN (32 + UInt32.ofNat n)
  | .illegalInstruction => exceptionIllegal
  | .privilegeViolation => exceptionPrivilegeViolation
  | .formatError => exceptionFormatError

/-- The forms of what is saved. -/
inductive Kind where
  | normal
  /-- format 2, with the address of the instruction -/
  | trap (ppc : UInt32)
  /-- a throwaway frame below the interrupt stack pointer `isp` -/
  | throwaway (isp : UInt32)

/-- What an exception saves: `top` is the stack pointer of the bank before it. -/
structure Context where
  pc : UInt32
  sr : UInt32
  vector : UInt32
  kind : Kind
  bank : Bank
  top : UInt32

namespace Context

/-- The frames, by their addresses. -/
def frames (c : Context) : List (Nat × List UInt8) :=
  match c.kind with
  | .normal => [(c.top.toNat - 8, frame c.sr c.pc (c.vector <<< 2))]
  | .trap ppc =>
    [(c.top.toNat - 12,
      frame c.sr c.pc ((0x2000 : UInt32) ||| (c.vector <<< 2)) ++ bigEndian 4 ppc.toNat)]
  | .throwaway isp =>
    [(c.top.toNat - 8, frame c.sr c.pc (c.vector <<< 2)),
      (isp.toNat - 8, frame (c.sr ||| 0x2000) c.pc ((0x1000 : UInt32) ||| (c.vector <<< 2)))]

/-- The bytes of the frames. -/
def Covers (c : Context) (a : Nat) : Prop := ∃ f ∈ c.frames, f.1 ≤ a ∧ a < f.1 + f.2.length

/-- The frames stand in memory. -/
def Saved (c : Context) (m : Memory) : Prop :=
  ∀ f ∈ c.frames, Shows m f.1 f.2 ∧ ∀ i < f.2.length, Mapped (f.1 + i)

/-- The stacks have room for the frames. -/
def Room (c : Context) : Prop :=
  match c.kind with
  | .normal => 8 ≤ c.top.toNat
  | .trap _ => 12 ≤ c.top.toNat
  | .throwaway isp => 8 ≤ c.top.toNat ∧ 8 ≤ isp.toNat ∧
      (c.top.toNat ≤ isp.toNat - 8 ∨ isp.toNat ≤ c.top.toNat - 8)

/-- A context that the processor can have saved. -/
structure Valid (c : Context) : Prop where
  room : c.Room
  vector : c.vector.toNat < 256
  sr : c.sr &&& 0xf71f = c.sr
  bank : ∀ isp, c.kind = .throwaway isp → c.bank = .master ∧ bit c.sr 12 = true

/-- The stack pointers are where the exception left them. -/
def Ready (c : Context) (s : Cpu) : Prop :=
  match c.kind with
  | .normal => s.bank = c.bank ∧ s.dar regSp = c.top - 8
  | .trap _ => s.bank = c.bank ∧ s.dar regSp = c.top - 12
  | .throwaway isp => s.bank = .interrupt ∧ s.dar regSp = isp - 8 ∧ pointer .master s = c.top - 8

/-- The state in which the interrupted program goes on. -/
def resumed (c : Context) (s : Cpu) : Cpu :=
  match c.kind with
  | .normal => setSrNoint c.sr ((s.setReg regSp c.top).setPc c.pc)
  | .trap _ => setSrNoint c.sr ((s.setReg regSp c.top).setPc c.pc)
  | .throwaway isp =>
    setSrNoint c.sr
      (((setSrNoint (c.sr ||| 0x2000) (s.setReg regSp isp)).setReg regSp c.top).setPc c.pc)

end Context

/-- The context of an exception. -/
def Exception.context (e : Exception) (s : Cpu) : Context where
  pc :=
    match e with
    | .illegalInstruction => s.ppc
    | .privilegeViolation => s.ppc
    | _ => s.pc
  sr := getSr s
  vector := e.vector
  kind :=
    match e with
    | .zeroDivide => .trap s.ppc
    | .chk => .trap s.ppc
    | .trapv => .trap s.ppc
    | _ => .normal
  bank := s.exceptionBank
  top := pointer s.exceptionBank s

/-- The context of an interrupt. -/
def interruptContext (level : UInt32) (s : Cpu) : Context where
  pc := s.pc
  sr := getSr s
  vector := 24 + level
  kind := if s.mFlag = 0 then .normal else .throwaway (pointer .interrupt s)
  bank := s.exceptionBank
  top := pointer s.exceptionBank s

/-! ### Entering -/

/-- From `s` an exception was entered, and left the context `c`. -/
structure Enters (c : Context) (s t : Cpu) : Prop where
  valid : c.Valid
  saved : c.Saved t.memory
  status : Status t
  supervisor : t.sFlag = 4
  ready : c.Ready t
  memory : ∀ a, ¬c.Covers a → t.memory a = s.memory a

theorem Status.masked {s : Cpu} (h : Status s) : s = { s with
    t1Flag := s.t1Flag &&& 0x8000
    t0Flag := s.t0Flag &&& 0x4000
    sFlag := s.sFlag &&& 4
    mFlag := s.mFlag &&& 2
    intMask := s.intMask &&& 0x700 } := by
  rw [h.t1, h.t0, h.sFlag, h.mFlag, h.intMask]

theorem getSr_mask {s : Cpu} (h : Status s) : getSr s &&& 0xf71f = getSr s := by
  rw [h.masked]
  apply ext_bits
  intro i hi
  simp only [getSr, getCcr]
  interval_cases i <;> simp

/-- The status register tells the bank. -/
theorem bank_eq {s : Cpu} (h : Status s) : s.bank =
    if bit (getSr s) 13 then if bit (getSr s) 12 then .master else .interrupt else .user := by
  have h13 : bit (getSr s) 13 = bit (s.sFlag &&& 4) 2 := by
    rw [h.masked]
    simp [getSr, getCcr]
  have h12 : bit (getSr s) 12 = bit (s.mFlag &&& 2) 1 := by
    rw [h.masked]
    simp [getSr, getCcr]
  rw [h13, h12, h.sFlag, h.mFlag, bank]
  rcases h.sFlag_cases with hs | hs <;> rcases h.mFlag_cases with hm | hm <;> rw [hs, hm] <;> decide

theorem Exception.vector_lt (e : Exception) : e.vector.toNat < 256 := by
  cases e with
  | trapN n h =>
    have hall : ∀ n : Fin 16, (32 + UInt32.ofNat n).toNat < 256 := by decide
    exact hall n
  | _ => decide

theorem status_of_eq {s t : Cpu} (h : Status s) (h1 : t.t1Flag = s.t1Flag) (h0 : t.t0Flag = s.t0Flag)
    (hs : t.sFlag = s.sFlag) (hm : t.mFlag = s.mFlag) (hi : t.intMask = s.intMask) : Status t where
  t1 := h1 ▸ h.t1
  t0 := h0 ▸ h.t0
  sFlag := hs ▸ h.sFlag
  mFlag := hm ▸ h.mFlag
  intMask := hi ▸ h.intMask

/-- What is not in the frames lies below or above each of them. -/
theorem Context.outside {c : Context} {a : Nat} (ha : ¬c.Covers a) {f : Nat × List UInt8}
    (hf : f ∈ c.frames) : a < f.1 ∨ f.1 + f.2.length ≤ a := by
  by_contra hin
  exact ha ⟨f, hf, le_of_not_gt fun hlt => hin (Or.inl hlt),
    lt_of_not_ge fun hge => hin (Or.inr hge)⟩

/-- One frame, pushed in the state `u` of supervisor mode. -/
theorem enters_of_frame {c : Context} {k : UInt32} {l : List UInt8} {s t u : Cpu} {pc : UInt32}
    (hu : Status u) (hs : u.sFlag = 4) (hmemory : u.memory = s.memory) (hsp : u.dar regSp = c.top)
    (hready : ∀ v : Cpu, v.bank = u.bank → v.dar regSp = c.top - k → c.Ready v)
    (hvalid : c.Valid) (hroom : k.toNat ≤ c.top.toNat) (hl : l.length = k.toNat)
    (hframes : c.frames = [(c.top.toNat - k.toNat, l)])
    (hmap : ∀ i < k.toNat, Mapped (c.top.toNat - k.toNat + i))
    (ht : t = (u.pushed k l).setPc pc) : Enters c s t := by
  have hmem : t.memory = Bytes.write s.memory (c.top.toNat - k.toNat) l := by
    have hpush := pushed_memory (s := u) l (hsp ▸ hroom)
    rw [ht, setPc_memory, hpush, hsp, hmemory]
  have hmem' : (c.top.toNat - k.toNat, l) ∈ c.frames := by
    rw [hframes]
    exact List.mem_singleton_self _
  refine ⟨hvalid, ?_, ?_, ?_, ?_, ?_⟩
  · intro f hf
    rw [hframes] at hf
    obtain rfl := List.mem_singleton.mp hf
    rw [hmem]
    exact ⟨shows_write _ _ _, hl ▸ hmap⟩
  · exact status_of_eq hu (by rw [ht]; rfl) (by rw [ht]; rfl) (by rw [ht]; rfl) (by rw [ht]; rfl)
      (by rw [ht]; rfl)
  · rw [ht]
    exact hs
  · refine hready t ?_ ?_
    · rw [ht]
      rfl
    · rw [ht, setPc_dar, pushed_sp, hsp]
  · intro a ha
    rw [hmem]
    exact write_outside _ (Context.outside ha hmem')

theorem exceptionNormal_enters {pc vector : UInt32} {s t : Cpu} (h : Status s)
    (hvector : vector.toNat < 256) (hroom : 8 ≤ (pointer s.exceptionBank s).toNat)
    (ht : exceptionNormal pc vector s = Except.ok t) :
    Enters ⟨pc, getSr s, vector, .normal, s.exceptionBank, pointer s.exceptionBank s⟩ s t := by
  have hsp := initException_sp h
  have hbind : ∃ u, stackFrame0000 pc (getSr s) vector (initException s).2 = Except.ok u ∧
      jumpVector vector u = Except.ok t := Run.bind_eq_ok.mp ht
  obtain ⟨u, hu, hjump⟩ := hbind
  obtain ⟨hmap, rfl⟩ := ((stackFrame0000_pushes pc (getSr s) vector).eq_ok
    (by rw [hsp]; exact hroom)).mp hu
  obtain ⟨newPc, -, rfl⟩ := jumpVector_eq_ok.mp hjump
  rw [hsp] at hmap
  refine enters_of_frame (k := 8) (initException_status h) rfl rfl hsp (fun _ hb hd => ⟨hb, hd⟩)
    ⟨hroom, hvector, getSr_mask h, ?_⟩ hroom (frame_length ..) rfl hmap rfl
  intro isp hk
  cases hk

theorem exceptionTrap_enters {vector : UInt32} {s t : Cpu} (h : Status s)
    (hvector : vector.toNat < 256) (hroom : 12 ≤ (pointer s.exceptionBank s).toNat)
    (ht : exceptionTrap vector s = Except.ok t) :
    Enters ⟨s.pc, getSr s, vector, .trap s.ppc, s.exceptionBank, pointer s.exceptionBank s⟩ s t := by
  have hsp := initException_sp h
  have hbind : ∃ u, stackFrame0010 (getSr s) vector (initException s).2 = Except.ok u ∧
      jumpVector vector u = Except.ok t := Run.bind_eq_ok.mp ht
  obtain ⟨u, hu, hjump⟩ := hbind
  obtain ⟨hmap, rfl⟩ := (stackFrame0010_eq_ok (by rw [hsp]; exact hroom)).mp hu
  obtain ⟨newPc, -, rfl⟩ := jumpVector_eq_ok.mp hjump
  rw [hsp] at hmap
  refine enters_of_frame (k := 12) (initException_status h) rfl rfl hsp (fun _ hb hd => ⟨hb, hd⟩)
    ⟨hroom, hvector, getSr_mask h, ?_⟩ hroom ?_ rfl hmap rfl
  · intro isp hk
    cases hk
  · rw [List.length_append, frame_length, bigEndian_length]
    rfl

/-- **Entering an exception.** -/
theorem raise_enters (e : Exception) {s t : Cpu} (h : Status s) (hroom : (e.context s).Room)
    (ht : raise e s = Except.ok t) : Enters (e.context s) s t := by
  cases e with
  | zeroDivide => exact exceptionTrap_enters h (by decide) hroom ht
  | chk => exact exceptionTrap_enters h (by decide) hroom ht
  | trapv => exact exceptionTrap_enters h (by decide) hroom ht
  | trapN n hn => exact exceptionNormal_enters h (Exception.trapN n hn).vector_lt hroom ht
  | illegalInstruction => exact exceptionNormal_enters h (by decide) hroom ht
  | privilegeViolation => exact exceptionNormal_enters h (by decide) hroom ht
  | formatError => exact exceptionNormal_enters h (by decide) hroom ht

/-- What an interrupt does once it is taken; `awake` is the state that it starts from. -/
theorem exceptionInterrupt_eq_ok {level : UInt32} {s t : Cpu} (hstopped : s.stopped &&& ~~~1 = 0)
    (ht : exceptionInterrupt level s = Except.ok t) :
    ∃ newPc u, interruptFrames (getSr s) (24 + level)
      (interruptBase level { s with stopped := 0, intLevel := 0 }) = Except.ok u ∧
      t = u.setPc newPc := by
  unfold exceptionInterrupt at ht
  rw [hstopped] at ht
  rw [if_neg (not_not.mpr rfl)] at ht
  obtain ⟨newPc, -, ht⟩ := Run.bind_eq_ok.mp ht
  obtain ⟨u, hu, ht⟩ := Run.bind_eq_ok.mp ht
  exact ⟨newPc, u, hu, (Run.ok_inj.mp ht).symm⟩

theorem interruptBase_status {level : UInt32} {s : Cpu} (h : Status s) (hlevel : level.toNat ≤ 7) :
    Status (interruptBase level s) := by
  have hinit := initException_status h
  have hall : ∀ n : Fin 8, (UInt32.ofNat n <<< 8) &&& (0x700 : UInt32) = UInt32.ofNat n <<< 8 := by
    decide
  have hmask : (UInt32.ofNat level.toNat <<< 8) &&& (0x700 : UInt32) = _ :=
    hall ⟨level.toNat, by omega⟩
  rw [UInt32.ofNat_toNat] at hmask
  exact ⟨hinit.t1, hinit.t0, hinit.sFlag, hinit.mFlag, hmask⟩

theorem interruptBase_pointer {level : UInt32} {s : Cpu} (h : Status s) (b : Bank) :
    pointer b (interruptBase level s) = pointer b s := by
  rw [← initException_pointer h]
  cases b <;> rfl

theorem interruptBase_sp {level : UInt32} {s : Cpu} (h : Status s) :
    (interruptBase level s).dar regSp = pointer s.exceptionBank s := initException_sp h

theorem bit_getSr_mFlag {s : Cpu} (h : Status s) (hm : s.mFlag ≠ 0) : bit (getSr s) 12 = true := by
  have hm2 : s.mFlag = 2 := h.mFlag_cases.resolve_left hm
  simp [getSr, hm2]

/-- The master bank is left for the interrupt bank. -/
structure LeavesMaster (v w : Cpu) : Prop where
  bank : w.bank = .interrupt
  sFlag : w.sFlag = 4
  sp : w.dar regSp = pointer .interrupt v
  msp : pointer .master w = pointer .master v
  memory : w.memory = v.memory
  status : Status w

theorem leavesMaster {v : Cpu} (hv : Status v) (hbank : v.bank = .master) :
    LeavesMaster v (setSmFlag v.sFlag v) := by
  have hs4 : v.sFlag = 4 := by
    refine hv.sFlag_cases.resolve_left fun h0 => ?_
    rw [Cpu.bank, bankOf, if_pos h0] at hbank
    cases hbank
  have hpointer : ∀ b, pointer b (setSmFlag 4 v) = pointer b v :=
    pointer_changeSp hv (Or.inr rfl) (Or.inl rfl)
  rw [hs4]
  refine ⟨rfl, rfl, ?_, hpointer .master, rfl, ?_⟩
  · rw [← hpointer .interrupt, sp_eq_pointer]
    rfl
  · exact ⟨hv.t1, hv.t0, and_mask_self .., and_mask_self .., hv.intMask⟩

/-- Two frames, the second one on the interrupt stack. -/
theorem throwaway_enters {c : Context} {isp pc : UInt32} {s t u : Cpu} (hu : Status u)
    (hmemory : u.memory = s.memory) (hbank : u.bank = .master) (hsp : u.dar regSp = c.top)
    (hisp : pointer .interrupt u = isp) (hvalid : c.Valid) (hkind : c.kind = .throwaway isp)
    (hmap : ∀ i < 8, Mapped (c.top.toNat - 8 + i))
    {v : Cpu} (hv : v = u.pushed 8 (frame c.sr c.pc (c.vector <<< 2)))
    (ht : stackFrame0001 c.pc (c.sr ||| 0x2000) c.vector (setSmFlag v.sFlag v) = Except.ok t) :
    Enters c s (t.setPc pc) := by
  have hroom := hvalid.room
  rw [Context.Room, hkind] at hroom
  obtain ⟨htop, hlow, happ⟩ := hroom
  have hvstatus : Status v := status_of_eq hu (by rw [hv]; rfl) (by rw [hv]; rfl) (by rw [hv]; rfl)
    (by rw [hv]; rfl) (by rw [hv]; rfl)
  have hvbank : v.bank = .master := by
    rw [← hbank, hv]
    rfl
  have hvsp : pointer .interrupt v = isp := by
    rw [hv, pushed_pointer, hbank]
    exact hisp
  have hvmsp : pointer .master v = c.top - 8 := by
    rw [hv, pushed_pointer, hbank, if_pos rfl, ← hsp, sp_eq_pointer u, hbank]
  have hvmem : v.memory =
      Bytes.write s.memory (c.top.toNat - 8) (frame c.sr c.pc (c.vector <<< 2)) := by
    rw [hv, pushed_memory _ (hsp ▸ htop), hsp, hmemory]
    rfl
  obtain ⟨w, hw⟩ : ∃ w, w = setSmFlag v.sFlag v := ⟨_, rfl⟩
  have hleaves : LeavesMaster v w := hw ▸ leavesMaster hvstatus hvbank
  have hwsp : w.dar regSp = isp := hleaves.sp.trans hvsp
  rw [← hw] at ht
  obtain ⟨hmap', rfl⟩ := ((stackFrame0001_pushes c.pc (c.sr ||| 0x2000) c.vector).eq_ok
    (by rw [hwsp]; exact hlow)).mp ht
  obtain ⟨l, hl⟩ : ∃ l, l = frame c.sr c.pc (c.vector <<< 2) := ⟨_, rfl⟩
  obtain ⟨l', hl'⟩ : ∃ l', l' = frame (c.sr ||| 0x2000) c.pc ((0x1000 : UInt32) ||| (c.vector <<< 2)) :=
    ⟨_, rfl⟩
  have hlen : l.length = 8 := by rw [hl, frame_length]
  have hlen' : l'.length = 8 := by rw [hl', frame_length]
  have hframes : c.frames = [(c.top.toNat - 8, l), (isp.toNat - 8, l')] := by
    rw [Context.frames, hkind, hl, hl']
  have htmem : (w.pushed 8 l').memory =
      Bytes.write (Bytes.write s.memory (c.top.toNat - 8) l) (isp.toNat - 8) l' := by
    rw [pushed_memory _ (hwsp ▸ hlow), hwsp, hleaves.memory, hvmem, hl]
    rfl
  rw [hwsp] at hmap'
  rw [← hl']
  refine ⟨hvalid, ?_, ?_, ?_, ?_, ?_⟩
  · intro f hf
    rw [hframes, List.mem_cons, List.mem_singleton] at hf
    rw [setPc_memory, htmem]
    rcases hf with rfl | rfl
    · refine ⟨(shows_write _ _ _).write ?_, by rw [hlen]; exact hmap⟩
      rw [hlen, hlen']
      omega
    · exact ⟨shows_write _ _ _, by rw [hlen']; exact hmap'⟩
  · exact status_of_eq hleaves.status rfl rfl rfl rfl rfl
  · exact hleaves.sFlag
  · rw [Context.Ready, hkind]
    refine ⟨hleaves.bank, ?_, ?_⟩
    · rw [setPc_dar, pushed_sp, hwsp]
    · have hsame : pointer .master ((w.pushed 8 l').setPc pc) = pointer .master (w.pushed 8 l') := rfl
      rw [hsame, pushed_pointer, hleaves.bank]
      exact hleaves.msp.trans hvmsp
  · intro a ha
    have hfirst := @Context.outside _ _ ha (c.top.toNat - 8, l) (by rw [hframes]; simp)
    have hsecond := @Context.outside _ _ ha (isp.toNat - 8, l') (by rw [hframes]; simp)
    rw [setPc_memory, htmem, write_outside _ hsecond, write_outside _ hfirst]

theorem exceptionBank_of_mFlag {s : Cpu} (hm : s.mFlag ≠ 0) : s.exceptionBank = .master := by
  have h4 : (4 : UInt32) ≠ 0 := by decide
  rw [exceptionBank, bankOf, if_neg h4, if_neg hm]

/-- **Entering an interrupt.** -/
theorem interrupt_enters {level : UInt32} {s t : Cpu} (h : Status s) (hlevel : level.toNat ≤ 7)
    (hstopped : s.stopped &&& ~~~1 = 0) (hroom : (interruptContext level s).Room)
    (ht : exceptionInterrupt level s = Except.ok t) : Enters (interruptContext level s) s t := by
  obtain ⟨newPc, u, hu, rfl⟩ := exceptionInterrupt_eq_ok hstopped ht
  have hawake : Status { s with stopped := 0, intLevel := 0 } := status_of_eq h rfl rfl rfl rfl rfl
  obtain ⟨base, hbase⟩ : ∃ base, base = interruptBase level { s with stopped := 0, intLevel := 0 } :=
    ⟨_, rfl⟩
  have hstatus : Status base := hbase ▸ interruptBase_status hawake hlevel
  have hsp : base.dar regSp = pointer s.exceptionBank s := by
    rw [hbase, interruptBase_sp hawake]
    cases hb : s.exceptionBank <;> rw [exceptionBank] at hb <;> rw [exceptionBank] <;> rw [hb] <;> rfl
  have hvector : (24 + level).toNat < 256 := by
    have h24 : (24 : UInt32).toNat = 24 := rfl
    rw [UInt32.toNat_add]
    omega
  have hvalid : (interruptContext level s).Valid := by
    refine ⟨hroom, hvector, getSr_mask h, ?_⟩
    intro isp hk
    have hm : s.mFlag ≠ 0 := by
      intro h0
      rw [interruptContext, if_pos h0] at hk
      cases hk
    exact ⟨exceptionBank_of_mFlag hm, bit_getSr_mFlag h hm⟩
  have htop : 8 ≤ (pointer s.exceptionBank s).toNat := by
    unfold Context.Room at hroom
    split at hroom
    · exact hroom
    · exact le_trans (by decide) hroom
    · exact hroom.1
  rw [← hbase] at hu
  unfold interruptFrames at hu
  obtain ⟨v, hv, hu⟩ := Run.bind_eq_ok.mp hu
  obtain ⟨hmap, hvpushed⟩ := ((stackFrame0000_pushes _ _ _).eq_ok (by rw [hsp]; exact htop)).mp hv
  have hvm : v.mFlag = s.mFlag := by
    rw [hvpushed, hbase]
    rfl
  have hpc : base.pc = s.pc := by
    rw [hbase]
    rfl
  rw [hsp] at hmap
  rw [hpc] at hvpushed
  by_cases hm : s.mFlag = 0
  · rw [if_neg (by rw [hvm, hm]; exact not_not.mpr rfl)] at hu
    obtain rfl := Run.ok_inj.mp hu
    have hkind : (interruptContext level s).kind = .normal := if_pos hm
    refine enters_of_frame (k := 8) hstatus (by rw [hbase]; rfl) (by rw [hbase]; rfl) hsp ?_ hvalid
      htop (frame_length ..) ?_ hmap (by rw [hvpushed])
    · intro v hb hd
      rw [Context.Ready, hkind]
      rw [hbase] at hb
      exact ⟨hb, hd⟩
    · rw [Context.frames, hkind]
      rfl
  · rw [if_pos (by rw [hvm]; exact hm)] at hu
    have hspc : (setSmFlag v.sFlag v).pc = s.pc := by
      rw [hvpushed, ← hpc]
      rfl
    have hsecond : stackFrame0001 s.pc (getSr s ||| 0x2000) (24 + level) (setSmFlag v.sFlag v) =
        Except.ok u := by
      rw [← hspc]
      exact hu
    refine throwaway_enters hstatus (by rw [hbase]; rfl) ?_ hsp ?_ hvalid (if_neg hm) hmap hvpushed
      hsecond
    · rw [hbase]
      exact exceptionBank_of_mFlag hm
    · rw [hbase, interruptBase_pointer hawake]
      rfl

/-! ### Returning -/

theorem word_normal {vector : UInt32} (h : vector.toNat < 256) :
    (vector <<< 2) >>> 12 = 0 ∧ (vector <<< 2).toNat < 2 ^ 16 := by
  have hall : ∀ n : Fin 256, (UInt32.ofNat n <<< 2) >>> 12 = 0 ∧
      (UInt32.ofNat n <<< 2).toNat < 2 ^ 16 := by decide +kernel
  have hvector := hall ⟨vector.toNat, h⟩
  rwa [UInt32.ofNat_toNat] at hvector

theorem word_throwaway {vector : UInt32} (h : vector.toNat < 256) :
    ((0x1000 : UInt32) ||| (vector <<< 2)) >>> 12 = 1 ∧
      ((0x1000 : UInt32) ||| (vector <<< 2)).toNat < 2 ^ 16 := by
  have hall : ∀ n : Fin 256, ((0x1000 : UInt32) ||| (UInt32.ofNat n <<< 2)) >>> 12 = 1 ∧
      ((0x1000 : UInt32) ||| (UInt32.ofNat n <<< 2)).toNat < 2 ^ 16 := by decide +kernel
  have hvector := hall ⟨vector.toNat, h⟩
  rwa [UInt32.ofNat_toNat] at hvector

theorem word_trap {vector : UInt32} (h : vector.toNat < 256) :
    ((0x2000 : UInt32) ||| (vector <<< 2)) >>> 12 = 2 ∧
      ((0x2000 : UInt32) ||| (vector <<< 2)).toNat < 2 ^ 16 := by
  have hall : ∀ n : Fin 256, ((0x2000 : UInt32) ||| (UInt32.ofNat n <<< 2)) >>> 12 = 2 ∧
      ((0x2000 : UInt32) ||| (UInt32.ofNat n <<< 2)).toNat < 2 ^ 16 := by decide +kernel
  have hvector := hall ⟨vector.toNat, h⟩
  rwa [UInt32.ofNat_toNat] at hvector

theorem lt_of_masked {sr : UInt32} (h : sr &&& 0xf71f = sr) : sr.toNat < 2 ^ 16 := by
  rw [← h, UInt32.toNat_and]
  exact lt_of_le_of_lt Nat.and_le_right (by decide)

/-- A saved frame lies on the active stack, once that is back at its place. -/
theorem onStack_of_saved {c : Context} {s : Cpu} {top k sr pc word : UInt32} {l : List UInt8}
    (hsaved : c.Saved s.memory) (hf : (top.toNat - k.toNat, frame sr pc word ++ l) ∈ c.frames)
    (hk : 8 ≤ k.toNat) (hroom : k.toNat ≤ top.toNat) (hsp : s.dar regSp = top - k)
    (hsr : sr.toNat < 2 ^ 16) (hword : word.toNat < 2 ^ 16) : OnStack sr pc word s := by
  have hlt := top.toNat_lt
  have haddr : (s.dar regSp).toNat = top.toNat - k.toNat := by rw [hsp, toNat_below hroom]
  obtain ⟨hshows, hmap⟩ := hsaved _ hf
  refine ⟨by omega, ?_, ?_, hsr, hword⟩
  · rw [haddr]
    exact (shows_append.mp hshows).1
  · intro i hi
    rw [haddr]
    refine hmap i ?_
    rw [List.length_append, frame_length]
    omega

/-- **The return.**  `rte` finds the frames of the context, and goes on with what they say. -/
theorem rte_resumed {c : Context} {s : Cpu} (h : Status s) (hvalid : c.Valid)
    (hsaved : c.Saved s.memory) (hready : c.Ready s) (hs : s.sFlag ≠ 0) :
    rte s = checkInterrupts (c.resumed s) := by
  have hroom := hvalid.room
  have hsr := lt_of_masked hvalid.sr
  rw [rte, if_pos hs]
  unfold Context.Room at hroom
  unfold Context.Ready at hready
  unfold Context.resumed
  cases hk : c.kind with
  | normal =>
    simp only [hk] at hroom hready ⊢
    have hword := word_normal hvalid.vector
    have hon : OnStack c.sr c.pc (c.vector <<< 2) s :=
      onStack_of_saved (k := 8) (l := []) hsaved (by simp [Context.frames, hk]) le_rfl hroom hready.2
        hsr hword.2
    rw [rteLoop_normal _ hon hword.1, hready.2, UInt32.sub_add_cancel]
    rfl
  | trap ppc =>
    simp only [hk] at hroom hready ⊢
    have hword := word_trap hvalid.vector
    have hon : OnStack c.sr c.pc ((0x2000 : UInt32) ||| (c.vector <<< 2)) s :=
      onStack_of_saved (k := 12) (l := bigEndian 4 ppc.toNat) hsaved (by simp [Context.frames, hk])
        (by decide) hroom hready.2 hsr hword.2
    rw [rteLoop_trap _ hon hword.1, hready.2, UInt32.sub_add_cancel]
    rfl
  | throwaway isp =>
    simp only [hk] at hroom hready ⊢
    obtain ⟨hbank, hsp, hmsp⟩ := hready
    have hword := word_throwaway hvalid.vector
    have hsrs : (c.sr ||| 0x2000).toNat < 2 ^ 16 := by
      rw [UInt32.toNat_or]
      exact Nat.or_lt_two_pow hsr (by decide)
    have hon : OnStack (c.sr ||| 0x2000) c.pc ((0x1000 : UInt32) ||| (c.vector <<< 2)) s :=
      onStack_of_saved (k := 8) (l := []) hsaved (by simp [Context.frames, hk]) le_rfl hroom.2.1 hsp
        hsrs hword.2
    rw [rteLoop_throwaway _ hon hword.1, hsp, UInt32.sub_add_cancel]
    -- the throwaway frame leads to the master stack
    obtain ⟨u, hu⟩ : ∃ u, u = setSrNoint (c.sr ||| 0x2000) (s.setReg regSp isp) := ⟨_, rfl⟩
    have hstatus : Status (s.setReg regSp isp) := status_of_eq h rfl rfl rfl rfl rfl
    have hubank : u.bank = .master := by
      have h13 : bit (c.sr ||| 0x2000) 13 = true := by simp
      have h12 : bit (c.sr ||| 0x2000) 12 = true := by simp [(hvalid.bank isp hk).2]
      rw [hu, bank_setSrNoint, if_pos h13, if_pos h12]
    have husp : u.dar regSp = c.top - 8 := by
      rw [sp_eq_pointer, hubank, hu, pointer_setSrNoint hstatus, pointer_setReg_sp, hbank, hmsp]
      rfl
    have humem : u.memory = s.memory := by
      rw [hu]
      rfl
    have hword' := word_normal hvalid.vector
    have hon' : OnStack c.sr c.pc (c.vector <<< 2) u :=
      onStack_of_saved (k := 8) (l := []) (humem ▸ hsaved) (by simp [Context.frames, hk]) le_rfl hroom.1
        husp hsr hword'.2
    rw [← hu, rteLoop_normal _ hon' hword'.1, husp, UInt32.sub_add_cancel]
    rfl

/-- From `s` the interrupted program goes on in `t`. -/
structure Resumes (c : Context) (s t : Cpu) : Prop where
  pc : t.pc = c.pc
  sr : getSr t = c.sr
  top : pointer c.bank t = c.top
  isp : ∀ isp, c.kind = .throwaway isp → pointer .interrupt t = isp
  others : ∀ b, b ≠ c.bank → (b = .interrupt → ∀ isp, c.kind ≠ .throwaway isp) →
    pointer b t = pointer b s
  dar : ∀ r, r ≠ regSp → t.dar r = s.dar r
  memory : t.memory = s.memory
  status : Status t

section Resumed

variable {c : Context} {s u : Cpu}

theorem pointer_resumed (h : Status u) (hbank : u.bank = c.bank) (b : Bank) :
    pointer b (setSrNoint c.sr ((u.setReg regSp c.top).setPc c.pc)) =
      if c.bank = b then c.top else pointer b u := by
  have hstatus : Status ((u.setReg regSp c.top).setPc c.pc) := status_of_eq h rfl rfl rfl rfl rfl
  have hpc : pointer b ((u.setReg regSp c.top).setPc c.pc) = pointer b (u.setReg regSp c.top) := by
    cases b <;> rfl
  rw [pointer_setSrNoint hstatus, hpc, pointer_setReg_sp, hbank]

theorem setSrNoint_dar {r : Fin 16} (hr : r ≠ regSp) (v : UInt32) (u : Cpu) :
    (setSrNoint v u).dar r = u.dar r := changeSp_dar_of_ne hr ..

/-- One frame, on the stack that is active. -/
theorem resumes_of_bank (h : Status s) (hvalid : c.Valid) (hbank : s.bank = c.bank)
    (hkind : ∀ isp, c.kind ≠ .throwaway isp) :
    Resumes c s (setSrNoint c.sr ((s.setReg regSp c.top).setPc c.pc)) where
  pc := rfl
  sr := by rw [getSr_setSrNoint, hvalid.sr]
  top := by rw [pointer_resumed h hbank, if_pos rfl]
  isp isp hisp := absurd hisp (hkind isp)
  others b hb _ := by rw [pointer_resumed h hbank, if_neg (Ne.symm hb)]
  dar r hr := (setSrNoint_dar hr ..).trans (setReg_of_ne hr ..)
  memory := rfl
  status := status_setSrNoint ..

theorem resumed_resumes (h : Status s) (hvalid : c.Valid) (hready : c.Ready s) :
    Resumes c s (c.resumed s) := by
  unfold Context.Ready at hready
  unfold Context.resumed
  cases hk : c.kind with
  | normal =>
    simp only [hk] at hready ⊢
    exact resumes_of_bank h hvalid hready.1 (by simp [hk])
  | trap ppc =>
    simp only [hk] at hready ⊢
    exact resumes_of_bank h hvalid hready.1 (by simp [hk])
  | throwaway isp =>
    simp only [hk] at hready ⊢
    obtain ⟨hmaster, h12⟩ := hvalid.bank isp hk
    obtain ⟨u, hu⟩ : ∃ u, u = setSrNoint (c.sr ||| 0x2000) (s.setReg regSp isp) := ⟨_, rfl⟩
    have hstatus : Status (s.setReg regSp isp) := status_of_eq h rfl rfl rfl rfl rfl
    have hustatus : Status u := hu ▸ status_setSrNoint ..
    have hubank : u.bank = c.bank := by
      have h13 : bit (c.sr ||| 0x2000) 13 = true := by simp
      have h12' : bit (c.sr ||| 0x2000) 12 = true := by simp [h12]
      rw [hu, bank_setSrNoint, if_pos h13, if_pos h12', hmaster]
    have hupointer : ∀ b, pointer b u = if .interrupt = b then isp else pointer b s := by
      intro b
      rw [hu, pointer_setSrNoint hstatus, pointer_setReg_sp, hready.1]
    rw [← hu]
    refine ⟨rfl, ?_, ?_, ?_, ?_, ?_, ?_, status_setSrNoint ..⟩
    · rw [getSr_setSrNoint, hvalid.sr]
    · rw [pointer_resumed hustatus hubank, if_pos rfl]
    · intro isp' hisp
      obtain rfl : isp = isp' := by
        rw [hk] at hisp
        injection hisp
      rw [pointer_resumed hustatus hubank, hmaster, if_neg (by decide), hupointer, if_pos rfl]
    · intro b hb hnot
      have hinterrupt : .interrupt ≠ b := fun heq => hnot heq.symm isp hk
      rw [pointer_resumed hustatus hubank, if_neg (Ne.symm hb), hupointer, if_neg hinterrupt]
    · intro r hr
      rw [setSrNoint_dar hr, setPc_dar, setReg_of_ne hr, hu, setSrNoint_dar hr, setReg_of_ne hr]
    · rw [hu]
      rfl

end Resumed

/-! ### Runs -/

/-- What interrupts a program. -/
inductive Cause where
  | exception (e : Exception)
  | interrupt (level : UInt32)

/-- It is taken: an interrupt only when the processor is not halted. -/
def Cause.Takes (cause : Cause) (s t : Cpu) : Prop :=
  match cause with
  | .exception e => raise e s = Except.ok t
  | .interrupt level =>
    level.toNat ≤ 7 ∧ s.stopped &&& ~~~1 = 0 ∧ exceptionInterrupt level s = Except.ok t

def Cause.context (cause : Cause) (s : Cpu) : Context :=
  match cause with
  | .exception e => e.context s
  | .interrupt level => interruptContext level s

/-- A step of the processor, with the contexts that are open. -/
inductive Step : Cpu × List Context → Cpu × List Context → Prop where
  /-- Another instruction leaves the frames alone. -/
  | other {s t : Cpu} {ctxs : List Context} (hstatus : Status t)
      (hmemory : ∀ c ∈ ctxs, ∀ a, c.Covers a → t.memory a = s.memory a) : Step (s, ctxs) (t, ctxs)
  /-- There is room for the frames of a new context, apart from the others. -/
  | enter {s t : Cpu} {ctxs : List Context} (cause : Cause) (htakes : cause.Takes s t)
      (hroom : (cause.context s).Room)
      (hapart : ∀ c ∈ ctxs, ∀ a, c.Covers a → ¬(cause.context s).Covers a) :
      Step (s, ctxs) (t, cause.context s :: ctxs)
  /-- An `rte` up to its look at the interrupts that are pending. -/
  | leave {s t : Cpu} {c : Context} {ctxs : List Context} (hs : s.sFlag ≠ 0) (hready : c.Ready s)
      (hresumes : Resumes c s t) : Step (s, c :: ctxs) (t, ctxs)

def Runs : Cpu × List Context → Cpu × List Context → Prop := Relation.ReflTransGen Step

/-- The frames of all contexts are where they were pushed. -/
structure Kept (p : Cpu × List Context) : Prop where
  status : Status p.1
  contexts : ∀ c ∈ p.2, c.Valid ∧ c.Saved p.1.memory

theorem Context.Saved.congr {c : Context} {m m' : Memory} (h : c.Saved m)
    (hsame : ∀ a, c.Covers a → m' a = m a) : c.Saved m' := by
  intro f hf
  refine ⟨(h f hf).1.congr ?_, (h f hf).2⟩
  intro a hle hlt
  exact hsame a ⟨f, hf, hle, hlt⟩

theorem Cause.enters {cause : Cause} {s t : Cpu} (h : Status s) (htakes : cause.Takes s t)
    (hroom : (cause.context s).Room) : Enters (cause.context s) s t := by
  cases cause with
  | exception e => exact raise_enters e h hroom htakes
  | interrupt level => exact interrupt_enters h htakes.1 htakes.2.1 hroom htakes.2.2

theorem Kept.step {p q : Cpu × List Context} (h : Kept p) (hstep : Step p q) : Kept q := by
  cases hstep with
  | other hstatus hmemory =>
    refine ⟨hstatus, fun c hc => ?_⟩
    exact ⟨(h.contexts c hc).1, (h.contexts c hc).2.congr (hmemory c hc)⟩
  | enter cause htakes hroom hapart =>
    have henters := Cause.enters h.status htakes hroom
    refine ⟨henters.status, fun c hc => ?_⟩
    rcases List.mem_cons.mp hc with rfl | hc
    · exact ⟨henters.valid, henters.saved⟩
    · refine ⟨(h.contexts c hc).1, (h.contexts c hc).2.congr ?_⟩
      intro a ha
      exact henters.memory a (hapart c hc a ha)
  | leave hs hready hresumes =>
    refine ⟨hresumes.status, fun c hc => ?_⟩
    rw [hresumes.memory]
    exact h.contexts c (List.mem_cons_of_mem _ hc)

theorem Kept.runs {p q : Cpu × List Context} (h : Kept p) (hruns : Runs p q) : Kept q := by
  induction hruns with
  | refl => exact h
  | tail _ hstep ih => exact ih.step hstep

/-- A program in user mode, with a supervisor stack below 0x10000. -/
def beforeTrap : Cpu :=
  { m68kiCpu with
    dar := fun r => if r = regSp then 0x20000 else 0
    sp := fun i => if i = 4 then 0x10000 else 0 }

end ParaTos.Cpu
