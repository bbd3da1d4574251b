import ParticleShader.Proofs.Node.Staging

/-!
# The values that nodes refuse

Staging a frame checks the values that a node stores for all particles: a spin needs an
axis, a cycle and a scroll a positive time. **`exists_staged_iff`** says that these checks
are all that can refuse a frame, and **`checks_staged`** that what is refused is named as
a property of a node.
-/

namespace ParticleShader

variable {α : Type}

namespace Behavior

variable [Scalar α] {b : Behavior α} {f : Features} {frame : Frame α}

/-- The values that a behavior stores for all particles pass its own checks: those of a
spin, of a scale in cycles, and of a scroll where the texture is animated. -/
def Usable (uvAnimation : Bool) : Behavior α → Prop
  | .rotationalVelocity (.global spin) => ∃ values, spinValues spin = .ok values
  | .scale curve (.global range) =>
    curve ≠ .linear → ∃ values, scaleValues curve range = .ok values
  | .uv _ (.global scroll) => uvAnimation = true → ∃ values, uvValues scroll = .ok values
  | _ => True

omit [Scalar α] in
theorem exists_globalRows {β : Type} {values : β → Except Fault (Vec4 α)} {value : β} :
    (∃ rows, globalRows (.global value) values = .ok rows) ↔ ∃ row, values value = .ok row := by
  simp only [globalRows, Outcome.bind_eq_ok, Outcome.pure_eq_ok]
  constructor
  · rintro ⟨_, row, hrow, -⟩
    exact ⟨row, hrow⟩
  · rintro ⟨row, hrow⟩
    exact ⟨_, row, hrow, rfl⟩

/-- A behavior can stage a frame exactly if its values pass its checks. -/
theorem exists_staged_iff :
    (∃ rows, b.staged f frame = .ok rows) ↔ b.Usable f.uvAnimation := by
  have hvector : ∀ (value : Parameter (Vec3 α)) (factor : Vec3 α → Vec3 α),
      ∃ rows, vectorRows value factor = .ok rows := by
    intro value factor
    cases value with
    | perParticle buffer => exact ⟨[], rfl⟩
    | global value => exact exists_globalRows.mpr ⟨_, rfl⟩
  have hwhere : ∀ (on : Bool) (rows : Rows α),
      ∃ rows', (if on then .ok rows else .ok [] : Except Fault (Rows α)) = .ok rows' := by
    intro on rows
    cases on
    · exact ⟨_, rfl⟩
    · exact ⟨_, rfl⟩
  cases b
  case time | billboard | follow | custom => exact iff_of_true ⟨_, rfl⟩ trivial
  case position value | velocity value | acceleration value =>
    exact iff_of_true (hvector value _) trivial
  case rotateToHeading | spriteSheet | color => exact iff_of_true (hwhere _ _) trivial
  case rotationalVelocity value =>
    cases value with
    | perParticle buffer => exact iff_of_true ⟨[], rfl⟩ trivial
    | global spin => exact exists_globalRows
  case scale curve value =>
    cases value with
    | perParticle buffer => exact iff_of_true ⟨[], rfl⟩ trivial
    | global range =>
      refine exists_globalRows.trans ⟨fun hvalues _ => hvalues, fun hvalues => ?_⟩
      by_cases hlinear : curve = .linear
      · subst hlinear
        exact ⟨_, rfl⟩
      · exact hvalues hlinear
  case uv axis value =>
    show (∃ rows, (if f.uvAnimation then _ else _) = _) ↔ _
    cases hanimation : f.uvAnimation with
    | false =>
      refine iff_of_true ⟨_, rfl⟩ ?_
      cases value with
      | perParticle buffer => trivial
      | global scroll => exact fun hon => absurd hon Bool.false_ne_true
    | true =>
      cases value with
      | perParticle buffer => exact iff_of_true ⟨[], rfl⟩ trivial
      | global scroll =>
        refine exists_globalRows.trans ?_
        simp only [scrollRow, Outcome.bind_eq_ok, Outcome.pure_eq_ok]
        constructor
        · rintro ⟨_, values, hvalues, -⟩ -
          exact ⟨values, hvalues⟩
        · intro hvalues
          obtain ⟨values, hvalues⟩ := hvalues rfl
          exact ⟨_, values, hvalues, rfl⟩

/-! ### What is named -/

/-- Values that are refused as a property of a node, if they are. -/
def Checks {β : Type} (values : Except Fault β) : Prop :=
  ∀ fault, values = .error fault → ∃ node cause, fault = .invalidProperty node cause

omit [Scalar α] in
theorem checks_ok {β : Type} (value : β) : Checks (.ok value) := by
  intro fault h
  cases h

omit [Scalar α] in
theorem checks_bind {β γ : Type} {values : Except Fault β} {next : β → Except Fault γ}
    (hvalues : Checks values) (hnext : ∀ value, Checks (next value)) :
    Checks (values >>= next) := by
  cases values with
  | error cause =>
    intro fault h
    cases h
    exact hvalues _ rfl
  | ok value => exact hnext value

theorem checks_positive (value : α) (cause : String → PropertyFault) (node : String) :
    Checks (positive value cause node) := by
  intro fault h
  unfold positive at h
  split at h
  · cases h
    exact ⟨node, _, rfl⟩
  · cases h

theorem checks_spinValues (spin : Vec4 α) : Checks (spinValues spin) := by
  refine checks_bind (checks_positive _ _ _) fun _ => ?_
  cases spin.xyz.normalize? with
  | none =>
    intro fault h
    cases h
    exact ⟨_, _, rfl⟩
  | some axis => exact checks_ok _

theorem checks_scaleValues (curve : ScaleCurve) (range : Vec4 α) :
    Checks (scaleValues curve range) := by
  cases curve with
  | linear => exact checks_ok _
  | cycle | phasedCycle => exact checks_bind (checks_positive _ _ _) fun _ => checks_ok _

theorem checks_scrollRow (scroll : Vec2 α) : Checks (scrollRow scroll) :=
  checks_bind (checks_bind (checks_positive _ _ _) fun _ => checks_ok _) fun _ => checks_ok _

omit [Scalar α] in
theorem checks_globalRows {β : Type} {values : β → Except Fault (Vec4 α)}
    (h : ∀ value, Checks (values value)) (parameter : Parameter β) :
    Checks (globalRows parameter values) := by
  cases parameter with
  | perParticle buffer => exact checks_ok _
  | global value => exact checks_bind (h value) fun _ => checks_ok _

/-- **What is refused** is a property of a node. -/
theorem checks_staged (b : Behavior α) (f : Features) (frame : Frame α) :
    Checks (b.staged f frame) := by
  have hwhere : ∀ (on : Bool) {rows : Except Fault (Rows α)}, Checks rows →
      Checks (if on then rows else .ok []) := by
    intro on rows hrows
    cases on with
    | true => exact hrows
    | false => exact checks_ok _
  cases b
  case time | billboard | follow | custom => exact checks_ok _
  case position value | velocity value | acceleration value =>
    exact checks_globalRows (fun _ => checks_ok _) value
  case rotateToHeading | spriteSheet | color => exact hwhere _ (checks_ok _)
  case rotationalVelocity value => exact checks_globalRows checks_spinValues value
  case scale curve value => exact checks_globalRows (checks_scaleValues curve) value
  case uv axis value => exact hwhere _ (checks_globalRows checks_scrollRow value)

end Behavior

end ParticleShader
