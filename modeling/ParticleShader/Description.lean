import ParticleShader.Animation
import ParticleShader.Failure

/-!
# Descriptions of animations

A description names the nodes of a set with what is known of them, the settings
of the set, and the pass and the profile it is compiled for. A node with explicit
values is global; any other node reads the values of its particles.
-/

namespace ParticleShader

/-- A node as it is described. -/
inductive NodeSpec (α : Type) where
  /-- A displacement. -/
  | position (mode : Option Mode) (value : Option (Vec3 α))
  /-- A velocity. -/
  | velocity (mode : Option Mode) (value : Option (Vec3 α))
  /-- An acceleration. -/
  | acceleration (mode : Option Mode) (value : Option (Vec3 α))
  /-- A scale with its bounds and its cycle. -/
  | scale (mode : Option Mode) (least greatest cycle phase : Option α)
  /-- A spin. -/
  | rotationalVelocity (mode : Option Mode) (axis : Option (Vec3 α)) (period : Option α)
  /-- A turn along the velocity. -/
  | rotateToHeading
  /-- A turn towards the camera. -/
  | billboard (axis : Option (Vec3 α))
  /-- An offset for every frame. -/
  | follow
  /-- A texture scroll. -/
  | uv (mode : Option Mode) (axis : UvAxis) (cycle scale : Option α)
  /-- A sprite sheet. -/
  | spriteSheet (columns rows : Nat) (frames : Option Nat) (cycle phase : Option α)
  /-- A color. -/
  | color (mode : Option Mode) (multiplier offset : Bool)
      (first last : Option (ColorTransform α)) (cycle phase : Option α)

namespace NodeSpec

variable {α : Type}

/-- The name of the kind of node. -/
def name : NodeSpec α → String
  | position .. => "position"
  | velocity .. => "velocity"
  | acceleration .. => "acceleration"
  | scale .. => "scale"
  | rotationalVelocity .. => "rotational_velocity"
  | rotateToHeading => "rotate_to_heading"
  | billboard .. => "billboard"
  | follow => "follow"
  | uv .. => "uv"
  | spriteSheet .. => "sprite_sheet"
  | color .. => "color"

/-- The mode of a node without explicit values, in the baked buffer by default. -/
def ownMode (mode : Option Mode) : Except Cause Mode :=
  match mode.getD (.perParticle .baked) with
  | .global => .error (.unsound "global nodes need explicit values")
  | mode => .ok mode

/-- The cycle of a duration and a phase. -/
def cycleOf (duration phase : Option α) : Option (Cycle α) :=
  duration.map fun duration => { duration, phase }

variable [Scalar α]

/-- The behavior that a node describes. -/
def behavior : NodeSpec α → Except Cause (Behavior α)
  | position _ (some value) => .ok (.position (.global value))
  | position mode none => return .localPosition (← ownMode mode)
  | velocity _ (some value) => .ok (.velocity (.global value))
  | velocity mode none => return .localVelocity (← ownMode mode)
  | acceleration _ (some value) => .ok (.acceleration (.global value))
  | acceleration mode none => return .localAcceleration (← ownMode mode)
  | scale mode least greatest cycle phase =>
    match least, greatest with
    | some least, some greatest => .ok (.globalScale least greatest (cycleOf cycle phase))
    | none, none => return .localScale (← ownMode mode) cycle.isSome phase.isSome
    | _, _ => .error (.unsound "scale needs both min and max")
  | rotationalVelocity mode axis period =>
    match axis, period with
    | some axis, some period => .ok (.globalRotationalVelocity axis period)
    | none, none => return .localRotationalVelocity (← ownMode mode)
    | _, _ => .error (.unsound "rotational velocity needs both axis and period")
  | rotateToHeading => .ok .rotateToHeading
  | billboard axis => .ok (.lockedBillboard axis)
  | follow => .ok .follow
  | uv mode axis cycle factor =>
    match cycle with
    | some cycle => .ok (.uv axis (.global ⟨cycle, factor.getD Scalar.one⟩))
    | none => return .localUv (← ownMode mode) axis
  | spriteSheet columns rows frames cycle phase =>
    match SpriteSheet.ofSize columns rows frames (cycleOf cycle phase) with
    | .ok sheet => .ok (.spriteSheet sheet)
    | .error fault => .error (.fault fault)
  | color mode multiplier offset first last cycle phase =>
    let cycle := cycleOf cycle phase
    match first, last with
    | some first, some last =>
      .ok (.color { usesMultiplier := multiplier, usesOffset := offset, cycle,
                    colors := .global (first, last) })
    | none, none => return .localColor (← ownMode mode) multiplier offset cycle
    | _, _ => .error (.unsound "color needs both start and end")

end NodeSpec

/-- A set of nodes as it is described. -/
structure Description (α : Type) where
  /-- How the particles live. -/
  lifecycle : Lifecycle := {}
  /-- The pass that the set is compiled for. -/
  pass : Pass := {}
  /-- The profile that the set is compiled for. -/
  profile : Profile := .baseline
  /-- The nodes in the order in which they are added. -/
  nodes : List (NodeSpec α) := []

namespace Description

variable {σ α : Type} [Scalar α]

/-- Adds described nodes, the first of them at `position`. -/
def addNodes (a : Animation σ α) : Nat → List (NodeSpec α) → Except Failure (Animation σ α)
  | _, [] => .ok a
  | position, spec :: specs =>
    let failed (cause : Cause) : Failure :=
      { context := [s!"Invalid node {position} ({spec.name})"], cause }
    match spec.behavior with
    | .error cause => .error (failed cause)
    | .ok behavior =>
      match a.add behavior with
      | .error fault => .error (failed (.fault fault))
      | .ok (a, _) => addNodes a (position + 1) specs

/-- The animation that is described. -/
def animation (d : Description α) : Except Failure (Animation σ α) :=
  addNodes (.empty d.lifecycle) 0 d.nodes

end Description

end ParticleShader
