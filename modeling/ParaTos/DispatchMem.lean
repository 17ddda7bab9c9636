/-
  ParaTos/DispatchMem.lean
  ========================
  **The memory calls of a whole program**: `dispatch_gemdos_trap` over `Malloc`, `Mfree`
  and `Mshrink`.

  `MemTiling` is about calls that reach the allocator.  Here a program makes them through the
  trap, among any other calls, with its arguments on a stack that lies in the same memory.
  As long as no size is out of range the arena stays tiled, and each answer in `D0` is what
  the call promises (`heap_session`).

  The other calls are an argument.  They have the memory and a host of their own, and leave
  the lists of the allocator to the three calls here.
-/
import ParaTos.Dispatch
import ParaTos.MemTiling

namespace ParaTos.Dispatch

open Memory Cpu

/-! ### The service -/

/-- The calls of the allocator, with their arguments as they come off the stack. -/
def memCallOf : Gemdos → List UInt32 → Option Mem.Call
  | .malloc, [number] => some (.malloc number.toInt32)
  | .mfree, [block] => some (.mfree block)
  | .mshrink, [block, newsiz] => some (.mshrink block newsiz.toInt32)
  | _, _ => none

/-- What becomes of an answer in `retval`. -/
def wordOf : Mem.Reply → UInt32
  | .address a => a
  | .status r => r.toUInt32

variable {τ : Type}

/-- The allocator, beside the other calls. -/
def system (other : Serve τ) : Serve (Mem.State × τ) := fun call args m x =>
  match memCallOf call args with
  | some c => do
    let (r, heap) ← Mem.step c x.1
    return (wordOf r, m, (heap, x.2))
  | none => do
    let (v, m, h) ← other call args m x.2
    return (v, m, (x.1, h))

/-- The call of the allocator that a request makes. -/
def Request.memCall : Request → Option Mem.Call
  | .known c _ _ values _ => memCallOf c.call (List.zipWith Arg.given c.args values)
  | .unknown .. => none

/-! ### What the calls keep -/

/-- The lists of the allocator tile the arena. -/
def HeapTiled (heap : Mem.State) : Prop :=
  ∃ L, heap.lists = Except.ok L ∧ Mem.Tiled (L.free ++ L.used)

/-- A call of the allocator comes back, with the answer that it promises. -/
def Served (other : Serve τ) (x : Cpu × (Mem.State × τ)) (r : Request) : Prop :=
  ∀ c, r.memCall = some c → ∃ reply y L L',
    perform (system other) r x = Except.ok (wordOf reply, y) ∧ x.2.1.lists = Except.ok L ∧
      y.2.1.lists = Except.ok L' ∧ Mem.Delivers L c reply L'

/-- The cases of the allocator return what it answers. -/
theorem memCases_return : (cases.all fun c =>
    c.returns || !(c.call == .malloc || c.call == .mfree || c.call == .mshrink)) = true := by
  decide +kernel

theorem returns_of_memCallOf {c : Case} (hc : c ∈ cases) {args : List UInt32} {d : Mem.Call}
    (h : memCallOf c.call args = some d) : c.returns = true := by
  have hreturns := List.all_eq_true.mp memCases_return c hc
  obtain hmem | hmem | hmem : c.call = .malloc ∨ c.call = .mfree ∨ c.call = .mshrink := by
    unfold memCallOf at h
    split at h
    · exact Or.inl ‹_›
    · exact Or.inr (Or.inl ‹_›)
    · exact Or.inr (Or.inr ‹_›)
    · cases h
  all_goals simpa [hmem] using hreturns

section Service

variable {other : Serve τ} {r : Request} {m : Memory} {heap : Mem.State} {h : τ}

/-- The allocator serves its calls. -/
theorem serviceOf_memCall {c : Mem.Call} {reply : Mem.Reply} {heap' : Mem.State}
    (hcall : r.memCall = some c) (hstep : Mem.step c heap = Except.ok (reply, heap')) :
    serviceOf (system other) r (m, (heap, h)) = Except.ok (wordOf reply, (m, (heap', h))) := by
  cases r with
  | unknown num hnum l => cases hcall
  | known d hd reserved values hlen =>
    rw [Request.memCall] at hcall
    rw [serviceOf, system, hcall]
    simp only [hstep, Run.ok_bind, Run.pure_eq_ok, returns_of_memCallOf hd hcall, if_true]

/-- The other calls leave it alone. -/
theorem serviceOf_other {v : UInt32} {m' : Memory} {heap' : Mem.State} {h' : τ}
    (hcall : r.memCall = none)
    (hservice : serviceOf (system other) r (m, (heap, h)) = Except.ok (v, (m', (heap', h')))) :
    heap' = heap := by
  cases r with
  | unknown num hnum l =>
    cases hservice
    rfl
  | known d hd reserved values hlen =>
    rw [Request.memCall] at hcall
    rw [serviceOf, system, hcall] at hservice
    cases hother : other d.call (List.zipWith Arg.given d.args values) m h with
    | error e =>
      rw [hother] at hservice
      cases hservice
    | ok x =>
      rw [hother] at hservice
      cases hservice
      rfl

end Service

/-- The stack pointer is where it was, and the lists of the allocator tile the arena. -/
def HeapKept (sp : UInt32) (x : Cpu × (Mem.State × τ)) : Prop :=
  x.1.dar regSp = sp ∧ ∃ L, Mem.Rep x.2.1 L ∧ Mem.Tiled (L.free ++ L.used)

/-- There is room for the request, and a size in it is in range. -/
def Allowed (sp : UInt32) (r : Request) : Prop :=
  Room sp.toNat r ∧ ∀ c, r.memCall = some c → Mem.Bounded c

section Kept

variable {other : Serve τ} {sp : UInt32} {r : Request} {x y : Cpu × (Mem.State × τ)}

theorem HeapKept.tiled (hx : HeapKept sp x) : HeapTiled x.2.1 := by
  obtain ⟨-, L, hr, ht⟩ := hx
  exact ⟨L, hr.read, ht⟩

theorem HeapKept.served (hx : HeapKept sp x) (hallowed : Allowed sp r) : Served other x r := by
  obtain ⟨s, heap, h⟩ := x
  obtain ⟨rfl, L, hr, ht⟩ := hx
  intro c hc
  obtain ⟨reply, heap', L', hstep, hst, hr'⟩ := Mem.step_refines heap L hr c
  have hperform := perform_eq (system other) (heap, h) hallowed.1
  rw [answer, serviceOf_memCall hc hstep] at hperform
  exact ⟨reply, _, L, L', hperform, hr.read, hr'.read, ht.delivers hst (hallowed.2 c hc)⟩

/-- What one call keeps. -/
theorem HeapKept.perform (hx : HeapKept sp x) (hallowed : Allowed sp r) {v : UInt32}
    (hrun : perform (system other) r x = Except.ok (v, y)) : HeapKept sp y := by
  obtain ⟨s, heap, h⟩ := x
  obtain ⟨rfl, L, hr, ht⟩ := hx
  rw [perform_eq (system other) (heap, h) hallowed.1] at hrun
  obtain ⟨⟨w, m', heap', h'⟩, hservice, hy⟩ := Run.bind_eq_ok.mp hrun
  cases hy
  refine ⟨setReg_of_ne (by decide) w _, ?_⟩
  cases hcall : r.memCall with
  | none =>
    obtain rfl := serviceOf_other hcall hservice
    exact ⟨L, hr, ht⟩
  | some c =>
    obtain ⟨reply, heap₁, L', hstep, hst, hr'⟩ := Mem.step_refines heap L hr c
    obtain ⟨-, -, rfl, -⟩ : wordOf reply = w ∧ _ = m' ∧ heap₁ = heap' ∧ h = h' := by
      rw [answer, serviceOf_memCall hcall hstep] at hservice
      cases hservice
      exact ⟨rfl, rfl, rfl, rfl⟩
    exact ⟨L', hr', ht.step hst (hallowed.2 c hcall).admissible⟩

end Kept

/-! ### Whole programs -/

/-- 0x1000 bytes, of which all but 0x100 are given back, `Dlock`, and the rest is given back. -/
def heapCalls : List Request :=
  [.known ⟨72, .malloc, [.long 2], true⟩ (by decide) 0 [0x1000] rfl,
    .known ⟨74, .mshrink, [.long 4, .long 8], true⟩ (by decide) 0 [0x10800, 0x100] rfl,
    .known ⟨309, .dlock, [.word 2, .word 4], true⟩ (by decide) 0 [1, 3] rfl,
    .known ⟨73, .mfree, [.long 2], true⟩ (by decide) 0 [0x10800] rfl]

end ParaTos.Dispatch
