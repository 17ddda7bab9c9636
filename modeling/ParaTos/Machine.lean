/-
  ParaTos/Machine.lean
  ====================
  **Machines that answer commands, and their runs.**

  A machine is a function `step` that takes a command and a state to an answer
  and the next state, or to a fault.  `run` gives it a list of commands, and
  `trace` also keeps the answers.

  Three questions about a run: does a predicate hold in every state on the way
  (`Holds`), is every command given in a state that allows it (`Meets`), and is
  every command answered as it should be (`Answers`)?  Where the machine refines
  an abstract one, they are answered by an invariant of the abstract machine:
  `Refines.run_invariant` for the states a run can reach, and
  `Refines.holds_iff_meets` where the invariant survives exactly the allowed
  commands.  The rules behind them do the same for a machine that may fault.
-/
import ParaTos.Run

namespace ParaTos.Machine

variable {σ γ ρ Λ : Type}

/-- The machine takes the commands one after the other. -/
def run (step : γ → σ → Run (ρ × σ)) : List γ → σ → Run σ
  | [], s => Except.ok s
  | c :: cs, s => do
    let (_, s) ← step c s
    run step cs s

/-- The run comes to its end, and every state of it satisfies `P`. -/
def Holds (step : γ → σ → Run (ρ × σ)) (P : σ → Prop) : List γ → σ → Prop
  | [], s => P s
  | c :: cs, s => P s ∧ ∃ r s', step c s = Except.ok (r, s') ∧ Holds step P cs s'

/-- Every command of the run meets `cond` in the state it is given in. -/
def Meets (step : γ → σ → Run (ρ × σ)) (cond : σ → γ → Prop) : List γ → σ → Prop
  | [], _ => True
  | c :: cs, s => cond s c ∧ ∀ r s', step c s = Except.ok (r, s') → Meets step cond cs s'

theorem Holds.start {step : γ → σ → Run (ρ × σ)} {P : σ → Prop} {cs : List γ} {s : σ}
    (h : Holds step P cs s) : P s := by
  cases cs with
  | nil => exact h
  | cons c cs => exact h.1

/-- The answers to the commands, one after the other, and the state they end in. -/
def trace (step : γ → σ → Run (ρ × σ)) : List γ → σ → Run (List ρ × σ)
  | [], s => Except.ok ([], s)
  | c :: cs, s => do
    let (r, s) ← step c s
    let (rs, t) ← trace step cs s
    return (r :: rs, t)

/-- A condition on the commands alone. -/
theorem Meets.of_forall {step : γ → σ → Run (ρ × σ)} {cond : σ → γ → Prop} {cs : List γ}
    (h : ∀ c ∈ cs, ∀ s, cond s c) (s : σ) : Meets step cond cs s := by
  induction cs generalizing s with
  | nil => trivial
  | cons c cs ih =>
    constructor
    · exact h c (by simp) s
    · intro r s' _
      exact ih (fun d hd => h d (by simp [hd])) s'

theorem Meets.mono {step : γ → σ → Run (ρ × σ)} {cond cond' : σ → γ → Prop} {cs : List γ} {s : σ}
    (h : Meets step cond cs s) (himp : ∀ c ∈ cs, ∀ s, cond s c → cond' s c) :
    Meets step cond' cs s := by
  induction cs generalizing s with
  | nil => trivial
  | cons c cs ih =>
    constructor
    · exact himp c (by simp) s h.1
    · intro r s' hstep
      exact ih (h.2 r s' hstep) fun d hd => himp d (by simp [hd])

theorem Meets.and {step : γ → σ → Run (ρ × σ)} {cond cond' : σ → γ → Prop} {cs : List γ} {s : σ}
    (h : Meets step cond cs s) (h' : Meets step cond' cs s) :
    Meets step (fun s c => cond s c ∧ cond' s c) cs s := by
  induction cs generalizing s with
  | nil => trivial
  | cons c cs ih => exact ⟨⟨h.1, h'.1⟩, fun r s' hstep => ih (h.2 r s' hstep) (h'.2 r s' hstep)⟩

theorem Meets.take {step : γ → σ → Run (ρ × σ)} {cond : σ → γ → Prop} {cs : List γ} {s : σ}
    (h : Meets step cond cs s) (n : Nat) : Meets step cond (cs.take n) s := by
  induction cs generalizing s n with
  | nil => simpa using h
  | cons c cs ih =>
    cases n with
    | zero => trivial
    | succ n => exact ⟨h.1, fun r s' hstep => ih (h.2 r s' hstep) n⟩

/-- Every state that `Rep` relates to an abstract one answers every command, and the
    abstract machine can follow. -/
def Refines (step : γ → σ → Run (ρ × σ)) (Rep : σ → Λ → Prop)
    (Step : Λ → γ → ρ → Λ → Prop) : Prop :=
  ∀ s L, Rep s L → ∀ c, ∃ r s' L', step c s = Except.ok (r, s') ∧ Step L c r L' ∧ Rep s' L'

section Invariants

variable {step : γ → σ → Run (ρ × σ)} {Rep : σ → Λ → Prop} {Step : Λ → γ → ρ → Λ → Prop}
  {Inv : Λ → Prop} {cond : σ → γ → Prop}

/-- **The run rule.**  An invariant of the abstract machine that every allowed
    command keeps holds at the end of every run of allowed commands. -/
theorem Refines.run_invariant (hsim : Refines step Rep Step)
    (hstep : ∀ s L c r L', Rep s L → Inv L → cond s c → Step L c r L' → Inv L') :
    ∀ (cs : List γ) {s : σ} {L : Λ}, Rep s L → Inv L → Meets step cond cs s →
      ∃ s' L', run step cs s = Except.ok s' ∧ Rep s' L' ∧ Inv L' := by
  intro cs
  induction cs with
  | nil =>
    intro s L hr hi _
    exact ⟨s, L, rfl, hr, hi⟩
  | cons c cs ih =>
    intro s L hr hi hm
    obtain ⟨r, s₁, L₁, hrun, hst, hr₁⟩ := hsim s L hr c
    have hi₁ : Inv L₁ := hstep s L c r L₁ hr hi hm.1 hst
    obtain ⟨s', L', hrun', hr', hi'⟩ := ih hr₁ hi₁ (hm.2 r s₁ hrun)
    refine ⟨s', L', ?_, hr', hi'⟩
    simp [run, hrun, hrun']

/-- Where the allowed commands are exactly those after which `P` still holds, `P`
    holds all along a run exactly when the whole run is allowed. -/
theorem Refines.holds_iff_meets (hsim : Refines step Rep Step) {dom : γ → Prop} {P : σ → Prop}
    (hP : ∀ s L, Rep s L → Inv L → P s)
    (hgood : ∀ s L c r L', Rep s L → Inv L → dom c → cond s c → Step L c r L' → Inv L')
    (hbad : ∀ s L c r s' L', Rep s L → Inv L → dom c → ¬ cond s c → Step L c r L' →
      Rep s' L' → ¬ P s') :
    ∀ (cs : List γ) {s : σ} {L : Λ}, (∀ c ∈ cs, dom c) → Rep s L → Inv L →
      (Holds step P cs s ↔ Meets step cond cs s) := by
  intro cs
  induction cs with
  | nil =>
    intro s L _ hr hi
    exact ⟨fun _ => trivial, fun _ => hP s L hr hi⟩
  | cons c cs ih =>
    intro s L hdom hr hi
    obtain ⟨r, s₁, L₁, hrun, hst, hr₁⟩ := hsim s L hr c
    have hc : dom c := hdom c (by simp)
    have hcs : ∀ d ∈ cs, dom d := fun d hd => hdom d (by simp [hd])
    constructor
    · rintro ⟨-, r', s', hrun', hholds⟩
      rw [hrun] at hrun'
      cases hrun'
      have hcond : cond s c := by
        apply Classical.byContradiction
        intro hnot
        exact hbad s L c r s₁ L₁ hr hi hc hnot hst hr₁ hholds.start
      have hi₁ : Inv L₁ := hgood s L c r L₁ hr hi hc hcond hst
      refine ⟨hcond, ?_⟩
      intro r' s' hrun'
      rw [hrun] at hrun'
      cases hrun'
      exact (ih hcs hr₁ hi₁).mp hholds
    · rintro ⟨hcond, hmeets⟩
      have hi₁ : Inv L₁ := hgood s L c r L₁ hr hi hc hcond hst
      exact ⟨hP s L hr hi, r, s₁, hrun, (ih hcs hr₁ hi₁).mpr (hmeets r s₁ hrun)⟩

end Invariants

section Concrete

variable {step : γ → σ → Run (ρ × σ)} {Inv P : σ → Prop} {dom cond : σ → γ → Prop}

theorem run_cons {c : γ} {cs : List γ} {s t : σ} (h : run step (c :: cs) s = Except.ok t) :
    ∃ r s', step c s = Except.ok (r, s') ∧ run step cs s' = Except.ok t := by
  obtain ⟨⟨r, s'⟩, hstep, hrun⟩ := Run.bind_eq_ok.mp h
  exact ⟨r, s', hstep, hrun⟩

/-- The run rule for a machine that may stop with a fault: an invariant that every allowed
    command keeps holds in every state that a run of allowed commands reaches. -/
theorem run_keeps {asked : γ → Prop}
    (hstep : ∀ s c r s', Inv s → asked c → cond s c → step c s = Except.ok (r, s') → Inv s') :
    ∀ (cs : List γ) (s t : σ), Inv s → (∀ c ∈ cs, asked c) → Meets step cond cs s →
      run step cs s = Except.ok t → Inv t := by
  intro cs
  induction cs with
  | nil =>
    intro s t hi _ _ hend
    cases hend
    exact hi
  | cons c cs ih =>
    intro s t hi hasked hmeets hend
    obtain ⟨r, s', hcall, hrest⟩ := run_cons hend
    have hi' : Inv s' := hstep s c r s' hi (hasked c (by simp)) hmeets.1 hcall
    exact ih s' t hi' (fun d hd => hasked d (by simp [hd])) (hmeets.2 r s' hcall) hrest

/-- Two conditions that agree as long as the invariant holds are met by the same runs, if
    the commands that meet them keep it. -/
theorem meets_iff_meets {cond' : σ → γ → Prop}
    (hkeep : ∀ s c r s', Inv s → dom s c → cond s c → step c s = Except.ok (r, s') → Inv s')
    (hiff : ∀ s c, Inv s → dom s c → (cond' s c ↔ cond s c)) :
    ∀ (cs : List γ) {s : σ}, Inv s → Meets step dom cs s →
      (Meets step cond' cs s ↔ Meets step cond cs s) := by
  intro cs
  induction cs with
  | nil => exact fun _ _ => Iff.rfl
  | cons c cs ih =>
    intro s hi hdom
    constructor
    · rintro ⟨hcond', hrest⟩
      have hcond := (hiff s c hi hdom.1).mp hcond'
      refine ⟨hcond, fun r s' hstep => ?_⟩
      have hi' := hkeep s c r s' hi hdom.1 hcond hstep
      exact (ih hi' (hdom.2 r s' hstep)).mp (hrest r s' hstep)
    · rintro ⟨hcond, hrest⟩
      refine ⟨(hiff s c hi hdom.1).mpr hcond, fun r s' hstep => ?_⟩
      have hi' := hkeep s c r s' hi hdom.1 hcond hstep
      exact (ih hi' (hdom.2 r s' hstep)).mpr (hrest r s' hstep)

/-- `Refines.holds_iff_meets` for such a machine, on the runs that come to their end.  `dom`
    is what the surroundings of the machine promise of each command. -/
theorem holds_iff_meets (hP : ∀ s, Inv s → P s)
    (hgood : ∀ s c r s', Inv s → dom s c → cond s c → step c s = Except.ok (r, s') → Inv s')
    (hbad : ∀ s c r s', Inv s → dom s c → ¬ cond s c → step c s = Except.ok (r, s') → ¬ P s') :
    ∀ (cs : List γ) {s t : σ}, Inv s → run step cs s = Except.ok t → Meets step dom cs s →
      (Holds step P cs s ↔ Meets step cond cs s) := by
  intro cs
  induction cs with
  | nil =>
    intro s t hi _ _
    exact ⟨fun _ => trivial, fun _ => hP s hi⟩
  | cons c cs ih =>
    intro s t hi hrun hdom
    obtain ⟨r, s₁, hstep, hrest⟩ := run_cons hrun
    constructor
    · rintro ⟨-, r', s', hstep', hholds⟩
      rw [hstep] at hstep'
      cases hstep'
      have hcond : cond s c := by
        apply Classical.byContradiction
        intro hnot
        exact hbad s c r s₁ hi hdom.1 hnot hstep hholds.start
      refine ⟨hcond, ?_⟩
      intro r' s' hstep'
      rw [hstep] at hstep'
      cases hstep'
      have hi₁ := hgood s c r s₁ hi hdom.1 hcond hstep
      exact (ih hi₁ hrest (hdom.2 r s₁ hstep)).mp hholds
    · rintro ⟨hcond, hmeets⟩
      have hi₁ := hgood s c r s₁ hi hdom.1 hcond hstep
      exact ⟨hP s hi, r, s₁, hstep,
        (ih hi₁ hrest (hdom.2 r s₁ hstep)).mpr (hmeets r s₁ hstep)⟩

end Concrete

section Answers

variable {step : γ → σ → Run (ρ × σ)} {Inv P : σ → Prop} {dom cond : σ → γ → Prop}
  {Right : σ → γ → ρ → σ → Prop}

/-- The machine answers the command as it should. -/
def Answers (step : γ → σ → Run (ρ × σ)) (Right : σ → γ → ρ → σ → Prop) (s : σ) (c : γ) : Prop :=
  ∃ r s', step c s = Except.ok (r, s') ∧ Right s c r s'

/-- Where every allowed command is answered as it should be and keeps the invariant, so
    does a whole run of them, and `P` holds all along. -/
theorem answers_of_meets (hP : ∀ s, Inv s → P s)
    (hgood : ∀ s c, Inv s → dom s c → cond s c →
      ∃ r s', step c s = Except.ok (r, s') ∧ Right s c r s' ∧ Inv s') :
    ∀ (cs : List γ) {s : σ}, Inv s → Meets step dom cs s → Meets step cond cs s →
      Meets step (Answers step Right) cs s ∧ Holds step P cs s := by
  intro cs
  induction cs with
  | nil =>
    intro s hi _ _
    exact ⟨trivial, hP s hi⟩
  | cons c cs ih =>
    intro s hi hdom hcond
    obtain ⟨r, s₁, hstep, hright, hi₁⟩ := hgood s c hi hdom.1 hcond.1
    obtain ⟨hanswers, hholds⟩ := ih hi₁ (hdom.2 r s₁ hstep) (hcond.2 r s₁ hstep)
    refine ⟨⟨⟨r, s₁, hstep, hright⟩, ?_⟩, hP s hi, r, s₁, hstep, hholds⟩
    intro r' s' hstep'
    rw [hstep] at hstep'
    cases hstep'
    exact hanswers

/-- Where a command that is not allowed is answered wrong, the allowed runs are all that
    are answered as they should be. -/
theorem answers_iff_meets
    (hgood : ∀ s c, Inv s → dom s c → cond s c →
      ∃ r s', step c s = Except.ok (r, s') ∧ Right s c r s' ∧ Inv s')
    (hbad : ∀ s c, Inv s → dom s c → ¬ cond s c → ¬ Answers step Right s c) :
    ∀ (cs : List γ) {s : σ}, Inv s → Meets step dom cs s →
      (Meets step (Answers step Right) cs s ↔ Meets step cond cs s) := by
  intro cs s hi hdom
  refine ⟨?_, fun hcond =>
    (@answers_of_meets _ _ _ _ _ (fun _ => True) _ _ _ (fun _ _ => trivial) hgood cs s hi hdom
      hcond).1⟩
  induction cs generalizing s with
  | nil => exact fun _ => trivial
  | cons c cs ih =>
    rintro ⟨hanswers, hrest⟩
    have hcond : cond s c := by
      apply Classical.byContradiction
      intro hnot
      exact hbad s c hi hdom.1 hnot hanswers
    obtain ⟨r, s₁, hstep, -, hi₁⟩ := hgood s c hi hdom.1 hcond
    refine ⟨hcond, ?_⟩
    intro r' s' hstep'
    rw [hstep] at hstep'
    cases hstep'
    exact ih hi₁ (hdom.2 r s₁ hstep) (hrest r s₁ hstep)

end Answers

section Traces

variable {step step' : γ → σ → Run (ρ × σ)} {dom : γ → Prop} {cond : σ → γ → Prop}

theorem trace_cons {c : γ} {cs : List γ} {s t : σ} {rs : List ρ} :
    trace step (c :: cs) s = Except.ok (rs, t) ↔
      ∃ r s' rs', step c s = Except.ok (r, s') ∧ trace step cs s' = Except.ok (rs', t) ∧
        rs = r :: rs' := by
  constructor
  · intro h
    obtain ⟨⟨r, s'⟩, hstep, hrest⟩ := Run.bind_eq_ok.mp h
    obtain ⟨⟨rs', t'⟩, htrace, hend⟩ := Run.bind_eq_ok.mp hrest
    cases hend
    exact ⟨r, s', rs', hstep, htrace, rfl⟩
  · rintro ⟨r, s', rs', hstep, htrace, rfl⟩
    refine Run.bind_eq_ok.mpr ⟨(r, s'), hstep, ?_⟩
    exact Run.bind_eq_ok.mpr ⟨(rs', t), htrace, rfl⟩

/-- Commands that never fault make no run of theirs fault. -/
theorem trace_total (htotal : ∀ s c, dom c → ∃ r s', step c s = Except.ok (r, s')) :
    ∀ (cs : List γ) (s : σ), (∀ c ∈ cs, dom c) → ∃ rs t, trace step cs s = Except.ok (rs, t) := by
  intro cs
  induction cs with
  | nil => exact fun s _ => ⟨[], s, rfl⟩
  | cons c cs ih =>
    intro s hdom
    obtain ⟨r, s', hstep⟩ := htotal s c (hdom c (by simp))
    obtain ⟨rs, t, htrace⟩ := ih s' fun d hd => hdom d (by simp [hd])
    exact ⟨r :: rs, t, trace_cons.mpr ⟨r, s', rs, hstep, htrace, rfl⟩⟩

/-- A machine behaves like one that never faults in exactly the runs whose commands meet
    `cond`, if it takes these commands alike and answers no other one alike. -/
theorem trace_eq_iff_meets
    (htotal : ∀ s c, dom c → ∃ r s', step' c s = Except.ok (r, s'))
    (hgood : ∀ s c, dom c → cond s c → step c s = step' c s)
    (hbad : ∀ s c r s' r' t, dom c → ¬ cond s c → step c s = Except.ok (r, s') →
      step' c s = Except.ok (r', t) → r ≠ r') :
    ∀ (cs : List γ) (s : σ), (∀ c ∈ cs, dom c) →
      (trace step cs s = trace step' cs s ↔ Meets step cond cs s) := by
  intro cs
  induction cs with
  | nil => exact fun s _ => iff_of_true rfl trivial
  | cons c cs ih =>
    intro s hdom
    have hc : dom c := hdom c (by simp)
    have hcs : ∀ d ∈ cs, dom d := fun d hd => hdom d (by simp [hd])
    obtain ⟨r, s', hstep'⟩ := htotal s c hc
    by_cases hcond : cond s c
    · have hstep : step c s = Except.ok (r, s') := (hgood s c hc hcond).trans hstep'
      have hrest : trace step (c :: cs) s = trace step' (c :: cs) s ↔
          trace step cs s' = trace step' cs s' := by
        rw [trace, trace, hstep, hstep']
        exact Run.bind_ok_inj fun p q hpq => by simpa [Prod.ext_iff] using hpq
      rw [hrest, ih s' hcs]
      constructor
      · intro hmeets
        refine ⟨hcond, ?_⟩
        intro r' t hrun
        rw [hstep] at hrun
        cases hrun
        exact hmeets
      · exact fun hmeets => hmeets.2 r s' hstep
    · refine iff_of_false ?_ fun hmeets => hcond hmeets.1
      -- both runs come to an end, and their first answers differ
      intro heq
      obtain ⟨rs, t, htrace'⟩ := trace_total htotal (c :: cs) s hdom
      have htrace : trace step (c :: cs) s = Except.ok (rs, t) := heq.trans htrace'
      obtain ⟨r₁, s₁, rs₁, hstep₁, -, hrs₁⟩ := trace_cons.mp htrace
      obtain ⟨r₂, s₂, rs₂, hstep₂, -, hrs₂⟩ := trace_cons.mp htrace'
      rw [hrs₁] at hrs₂
      exact hbad s c r₁ s₁ r₂ s₂ hc hcond hstep₁ hstep₂ (List.cons.inj hrs₂).1

end Traces

/-! ### Machines without faults -/

/-- The answers of a machine that never faults, and the state they end in. -/
def play {Λ : Type} (answer : γ → Λ → ρ × Λ) : List γ → Λ → List ρ × Λ
  | [], L => ([], L)
  | c :: cs, L => ((answer c L).1 :: (play answer cs (answer c L).2).1, (play answer cs (answer c L).2).2)

/-- A machine that does each command as another one does, does whole runs so. -/
theorem trace_eq_play {Λ : Type} {step : γ → σ → Run (ρ × σ)} {answer : γ → Λ → ρ × Λ}
    {Rep : σ → Λ → Prop}
    (hsim : ∀ s L c, Rep s L → ∃ s', step c s = Except.ok ((answer c L).1, s') ∧ Rep s' (answer c L).2)
    (cs : List γ) {s : σ} {L : Λ} (h : Rep s L) :
    ∃ t, trace step cs s = Except.ok ((play answer cs L).1, t) ∧ Rep t (play answer cs L).2 := by
  induction cs generalizing s L with
  | nil => exact ⟨s, rfl, h⟩
  | cons c cs ih =>
    obtain ⟨s', hstep, hrep⟩ := hsim s L c h
    obtain ⟨t, htrace, hend⟩ := ih hrep
    exact ⟨t, trace_cons.mpr ⟨_, s', _, hstep, htrace, rfl⟩, hend⟩

end ParaTos.Machine
