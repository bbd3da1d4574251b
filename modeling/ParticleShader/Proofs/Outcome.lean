import ParticleShader.Compilation

/-!
# Outcomes of steps

When a step that may end in a fault succeeds, and what it leads to: one statement
for every way in which steps are put together. A fault anywhere in a sequence
ends it, so a sequence succeeds exactly when its steps succeed one after the
other.
-/

namespace ParticleShader

variable {α β γ : Type}

/-! ### Steps without a state -/

namespace Outcome

@[simp] theorem bind_eq_ok {x : Except Fault β} {f : β → Except Fault γ} {r : γ} :
    (x >>= f) = .ok r ↔ ∃ b, x = .ok b ∧ f b = .ok r := by
  cases x <;> simp [bind, Except.bind]

theorem bind_eq_error {x : Except Fault β} {f : β → Except Fault γ} {fault : Fault} :
    (x >>= f) = .error fault ↔ x = .error fault ∨ ∃ b, x = .ok b ∧ f b = .error fault := by
  cases x <;> simp [bind, Except.bind]

@[simp] theorem pure_eq_ok {b r : β} : (pure b : Except Fault β) = .ok r ↔ b = r := by
  simp [pure, Except.pure]

@[simp] theorem pure_eq_error {b : β} {fault : Fault} :
    (pure b : Except Fault β) = .error fault ↔ False := by
  simp [pure, Except.pure]

@[simp] theorem throw_eq_ok {fault : Fault} {r : β} :
    (throw fault : Except Fault β) = .ok r ↔ False := by
  simp [throw, throwThe, MonadExceptOf.throw]

end Outcome

/-! ### Steps with a state -/

section

variable {ε σ : Type} {s s' : σ}

/-- A step succeeds in a state with a result and the state after it. -/
def Leads (x : EStateM ε σ β) (s : σ) (r : β) (s' : σ) : Prop := x.run s = .ok r s'

/-- Whether a step succeeds, to be computed. -/
def succeeds (x : EStateM ε σ β) (s : σ) : Bool :=
  match x.run s with
  | .ok _ _ => true
  | .error _ _ => false

theorem exists_leads {x : EStateM ε σ β} (h : succeeds x s = true) : ∃ r s', Leads x s r s' := by
  unfold succeeds at h
  split at h
  · rename_i r s' hrun
    exact ⟨r, s', hrun⟩
  · exact absurd h Bool.false_ne_true

@[simp] theorem leads_bind {x : EStateM ε σ β} {f : β → EStateM ε σ γ} {r : γ} :
    Leads (x >>= f) s r s' ↔ ∃ b s₁, Leads x s b s₁ ∧ Leads (f b) s₁ r s' := by
  unfold Leads
  rw [EStateM.run_bind]
  cases x.run s <;> simp [and_assoc]

@[simp] theorem leads_map {x : EStateM ε σ β} {f : β → γ} {r : γ} :
    Leads (f <$> x) s r s' ↔ ∃ b, Leads x s b s' ∧ f b = r := by
  rw [map_eq_pure_bind, leads_bind]
  simp [Leads]

@[simp] theorem leads_pure {b r : β} :
    Leads (pure b : EStateM ε σ β) s r s' ↔ b = r ∧ s = s' := by
  simp [Leads]

/-- A result, read from the side of what is learned. -/
theorem leads_result {b r : β} : Leads (pure b : EStateM ε σ β) s r s' ↔ r = b ∧ s' = s := by
  rw [leads_pure, eq_comm, @eq_comm _ s s']

@[simp] theorem leads_throw {fault : ε} {r : β} :
    Leads (throw fault : EStateM ε σ β) s r s' ↔ False := by
  have hthrow : (throw fault : EStateM ε σ β).run s = .error fault s := rfl
  simp [Leads, hthrow]

@[simp] theorem leads_get {r : σ} : Leads (get : EStateM ε σ σ) s r s' ↔ s = r ∧ s = s' := by
  simp [Leads]

/-- A program that goes on with the state. -/
theorem leads_get_bind {f : σ → EStateM ε σ β} {r : β} :
    Leads (get >>= f) s r s' ↔ Leads (f s) s r s' := Iff.rfl

@[simp] theorem leads_set {next : σ} {r : PUnit} :
    Leads (set next : EStateM ε σ PUnit) s r s' ↔ next = s' := by
  simp [Leads]

@[simp] theorem leads_modify {f : σ → σ} {r : PUnit} :
    Leads (modify f : EStateM ε σ PUnit) s r s' ↔ f s = s' := by
  simp [Leads]

theorem leads_modify_bind {f : σ → σ} {g : PUnit → EStateM ε σ β} {r : β} :
    Leads (modify f >>= g) s r s' ↔ Leads (g ⟨⟩) (f s) r s' := Iff.rfl

@[simp] theorem leads_ite {p : Prop} [Decidable p] {x y : EStateM ε σ β} {r : β} :
    Leads (if p then x else y) s r s' ↔ if p then Leads x s r s' else Leads y s r s' := by
  by_cases hp : p <;> simp [hp]

@[simp] theorem leads_ofExcept {outcome : Except ε β} {r : β} :
    Leads (MonadExcept.ofExcept outcome : EStateM ε σ β) s r s' ↔ outcome = .ok r ∧ s = s' := by
  cases outcome <;> simp [MonadExcept.ofExcept]

/-- A program that goes on with what is given. -/
theorem ofExcept_ok_bind {b : β} {f : β → EStateM ε σ γ} :
    ((MonadExcept.ofExcept (.ok b) : EStateM ε σ β) >>= f) = f b := rfl

/-- A sequence of steps is refused where one of them is. -/
theorem run_bind_eq_error {x : EStateM ε σ β} {f : β → EStateM ε σ γ} {fault : ε} :
    (x >>= f).run s = .error fault s' ↔
      x.run s = .error fault s' ∨ ∃ b s₁, Leads x s b s₁ ∧ (f b).run s₁ = .error fault s' := by
  unfold Leads
  rw [EStateM.run_bind]
  cases x.run s <;> simp [and_assoc]

theorem run_ofExcept_eq_error {outcome : Except ε β} {fault : ε} :
    (MonadExcept.ofExcept outcome : EStateM ε σ β).run s = .error fault s' ↔
      outcome = .error fault ∧ s = s' := by
  have hthrow (e : ε) : (throw e : EStateM ε σ β).run s = .error e s := rfl
  cases outcome <;> simp [MonadExcept.ofExcept, hthrow]

/-- A step that is refused unless something holds succeeds only if it holds. -/
theorem holds_of_leads {p : Prop} [Decidable p] {x : EStateM ε σ β} {fault : ε} {r : β}
    (h : Leads (if p then x else throw fault) s r s') : p := by
  refine Decidable.byContradiction fun hp => ?_
  rw [if_neg hp] at h
  exact leads_throw.mp h

end

/-! ### Steps that keep a state at a fault -/

section

variable {σ : Type} {s s' : σ}

/-- A step with a state that may end in a fault succeeds with a result and the
state after it. -/
def Yields (x : ExceptT Fault (StateM σ) β) (s : σ) (r : β) (s' : σ) : Prop :=
  (x.run.run s).run = (.ok r, s')

@[simp] theorem yields_bind {x : ExceptT Fault (StateM σ) β}
    {f : β → ExceptT Fault (StateM σ) γ} {r : γ} :
    Yields (x >>= f) s r s' ↔ ∃ b s₁, Yields x s b s₁ ∧ Yields (f b) s₁ r s' := by
  unfold Yields
  rw [ExceptT.run_bind, StateT.run_bind, Id.run_bind]
  cases (x.run.run s).run with
  | mk outcome s₁ => cases outcome <;> simp [and_assoc]

@[simp] theorem yields_pure {b r : β} :
    Yields (pure b : ExceptT Fault (StateM σ) β) s r s' ↔ b = r ∧ s = s' := by
  simp [Yields]

@[simp] theorem yields_map {x : ExceptT Fault (StateM σ) β} {f : β → γ} {r : γ} :
    Yields (f <$> x) s r s' ↔ ∃ b, Yields x s b s' ∧ f b = r := by
  rw [map_eq_pure_bind, yields_bind]
  simp

@[simp] theorem yields_throw {fault : Fault} {r : β} :
    Yields (throw fault : ExceptT Fault (StateM σ) β) s r s' ↔ False := by
  simp [Yields]

@[simp] theorem yields_lift {x : StateM σ β} {r : β} :
    Yields (x : ExceptT Fault (StateM σ) β) s r s' ↔ (x.run s).run = (r, s') := by
  simp [Yields, Prod.ext_iff]

@[simp] theorem yields_outcome {outcome : Except Fault β} {r : β} :
    Yields (ExceptT.mk (pure outcome) : ExceptT Fault (StateM σ) β) s r s' ↔
      outcome = .ok r ∧ s = s' := by
  simp [Yields]

/-- A program that goes on with what is given. -/
theorem outcome_ok_bind {b : β} {f : β → ExceptT Fault (StateM σ) γ} :
    ((ExceptT.mk (pure (.ok b)) : ExceptT Fault (StateM σ) β) >>= f) = f b := rfl

/-- Such a step ends in a fault, with the state at it. -/
def Fails (x : ExceptT Fault (StateM σ) β) (s : σ) (fault : Fault) (s' : σ) : Prop :=
  (x.run.run s).run = (.error fault, s')

variable {fault : Fault}

@[simp] theorem fails_bind {x : ExceptT Fault (StateM σ) β}
    {f : β → ExceptT Fault (StateM σ) γ} :
    Fails (x >>= f) s fault s' ↔
      Fails x s fault s' ∨ ∃ b s₁, Yields x s b s₁ ∧ Fails (f b) s₁ fault s' := by
  unfold Fails Yields
  rw [ExceptT.run_bind, StateT.run_bind, Id.run_bind]
  cases (x.run.run s).run with
  | mk outcome s₁ => cases outcome <;> simp [and_assoc]

@[simp] theorem fails_pure {b : β} :
    Fails (pure b : ExceptT Fault (StateM σ) β) s fault s' ↔ False := by
  simp [Fails]

@[simp] theorem fails_map {x : ExceptT Fault (StateM σ) β} {f : β → γ} :
    Fails (f <$> x) s fault s' ↔ Fails x s fault s' := by
  rw [map_eq_pure_bind, fails_bind]
  simp

@[simp] theorem fails_throw {cause : Fault} :
    Fails (throw cause : ExceptT Fault (StateM σ) β) s fault s' ↔ cause = fault ∧ s = s' := by
  simp [Fails]

@[simp] theorem fails_lift {x : StateM σ β} :
    Fails (x : ExceptT Fault (StateM σ) β) s fault s' ↔ False := by
  simp [Fails, Prod.ext_iff]

@[simp] theorem fails_outcome {outcome : Except Fault β} :
    Fails (ExceptT.mk (pure outcome) : ExceptT Fault (StateM σ) β) s fault s' ↔
      outcome = .error fault ∧ s = s' := by
  simp [Fails]

end

/-! ### Steps of a compilation -/

/-- Shared registers that are given are there. -/
theorem Compilation.shared_of_shared? {c : Compilation α} {s : SharedRegisters}
    (h : c.shared? = .ok s) : c.shared = some s := by
  unfold shared? at h
  split at h
  · rename_i hshared
    rw [hshared, Except.ok.inj h]
  · cases h

namespace Compile

variable {c c' : Compilation α}

@[simp] theorem leads_ofOutcome {outcome : Except Fault β} {r : β} :
    Leads (ofOutcome outcome : Compile α β) c r c' ↔ outcome = .ok r ∧ c = c' := by
  cases outcome <;> simp [ofOutcome]

@[simp] theorem leads_shared {s : SharedRegisters} :
    Leads (shared : Compile α SharedRegisters) c s c' ↔ c.shared? = .ok s ∧ c = c' := by
  simp [shared, and_assoc, and_comm]

@[simp] theorem leads_has {feature : Features → Bool} {r : Bool} :
    Leads (has feature : Compile α Bool) c r c' ↔ feature c.features = r ∧ c = c' := by
  simp [has, and_comm]

theorem leads_shared_bind {f : SharedRegisters → Compile α β} {r : β} :
    Leads (shared >>= f) c r c' ↔ ∃ s, c.shared? = .ok s ∧ Leads (f s) c r c' := by
  simp only [leads_bind, leads_shared]
  constructor
  · rintro ⟨s, _, ⟨hs, rfl⟩, h⟩
    exact ⟨s, hs, h⟩
  · rintro ⟨s, hs, h⟩
    exact ⟨s, c, ⟨hs, rfl⟩, h⟩

theorem leads_has_bind {feature : Features → Bool} {f : Bool → Compile α β} {r : β} :
    Leads (has feature >>= f) c r c' ↔ Leads (f (feature c.features)) c r c' := Iff.rfl

/-- A step that abandons the compilation at a fault succeeds as the step does. -/
@[simp] theorem leads_orAbandon {x : Compile α β} {r : β} :
    Leads (orAbandon x) c r c' ↔ Leads x c r c' := by
  simp only [Leads, orAbandon, EStateM.run]
  split <;> simp [*]

@[simp] theorem leads_setIndex {node : NodeId} {slot index : Nat} {r : Unit} :
    Leads (setIndex node slot index : Compile α Unit) c r c' ↔
      c' = { c with indices := ((node, slot), index) :: c.indices } := by
  simp [setIndex, eq_comm]

/-- Entering a phase changes nothing but the phase. -/
@[simp] theorem leads_enter {phase : Phase} {r : Unit} :
    Leads (enter phase : Compile α Unit) c r c' ↔
      c.phase.next = some phase ∧ c' = { c with phase } := by
  simp only [enter, leads_bind, leads_get, and_assoc]
  cases hnext : c.phase.next with
  | none => simp [hnext]
  | some expected =>
    by_cases hp : expected = phase
    · simp [hnext, hp, eq_comm]
    · simp [hnext, hp]

end Compile

end ParticleShader
