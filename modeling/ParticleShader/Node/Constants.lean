import ParticleShader.Compilation.Constants
import ParticleShader.Node.Values

/-!
# Constants of nodes

Before every draw the nodes stage the constants that they claimed: the frame
time, the parameters that are the same for all particles, and the matrices that
follow the camera.
-/

namespace ParticleShader

open Compile

namespace Behavior

variable {α : Type} [Scalar α]

/-- The rotation of a billboard: against the camera, or around its axis only and
as far towards the camera as that allows. -/
def billboardRotation (axis : Option (Vec3 α)) (camera : Mat3 α) : Mat3 α :=
  let facing := camera.transpose
  match axis with
  | none => facing
  | some up =>
    match (up.cross (facing.apply Vec3.unitZ)).normalize? with
    | none => facing
    | some right => ⟨right, up, right.cross up⟩

/-- The constant that a node claimed for a parameter. -/
def claimed (node : NodeId) (slot : Nat) : Compile α Nat := do
  match (← get).index? node slot with
  | some index => return index
  | none => throw .notCompiled

/-- Stages a constant of a node. -/
def stage (node : NodeId) (slot : Nat) (value : Vec4 α) : Compile α Unit := do
  setVertexConstant (← claimed node slot) value

/-- Stages the parameter of a node if it is global. -/
def stageGlobal {β : Type} (node : NodeId) (parameter : Parameter β)
    (values : β → Except Fault (Vec4 α)) : Compile α Unit := do
  match parameter with
  | .perParticle _ => return ()
  | .global value =>
    let index ← claimed node Slot.value
    setVertexConstant index (← ofOutcome (values value))

/-- Stages a vector as the first three components of a constant. -/
def stageVector (node : NodeId) (parameter : Parameter (Vec3 α)) (factor : Vec3 α → Vec3 α) :
    Compile α Unit :=
  stageGlobal node parameter fun value => .ok ((factor value).extend Scalar.zero)

/-- Stages the cycle of a color animation that has one. -/
def stageCycle (node : NodeId) (cycle : Option (Cycle α)) : Compile α Unit :=
  match cycle with
  | some cycle => stage node Slot.cycle (colorCycleConstants cycle)
  | none => pure ()

/-- Stages the start and the difference of a part of a color, if it is animated. -/
def stagePart (node : NodeId) (wanted : Bool) (startSlot deltaSlot : Nat)
    (values : Vec4 α × Vec4 α) : Compile α Unit := do
  if wanted then
    stage node startSlot values.1
    stage node deltaSlot values.2

/-- Stages the cycle and, if they are global, the colors of a color animation. -/
def stageColor (node : NodeId) (animation : ColorAnimation α) : Compile α Unit := do
  stageCycle node animation.cycle
  match animation.colors with
  | .perParticle _ => return ()
  | .global (first, last) =>
    stagePart node animation.usesMultiplier Slot.startMultiplier Slot.deltaMultiplier
      (blend animation.cycle first.multiplier last.multiplier)
    stagePart node animation.usesOffset Slot.startOffset Slot.deltaOffset
      (blend animation.cycle first.offset last.offset)

/-- Stages the constants of a sprite sheet. -/
def stageSheet (node : NodeId) (sheet : SpriteSheet α) : Compile α Unit := do
  stage node Slot.value (sheetConstants sheet)
  match sheetPhaseTime sheet with
  | some shift => stage node Slot.phase ⟨shift, Scalar.zero, Scalar.zero, Scalar.zero⟩
  | none => return ()

end Behavior

/-- Stages the constants of a node for a frame. -/
def Node.writeConstants {α : Type} [Scalar α] (n : Node α) (frame : Frame α) :
    Compile α Unit := do
  match n.behavior with
  | .time _ => Behavior.stage n.id Slot.frameTime (Vec4.splat frame.time)
  | .position value | .velocity value => Behavior.stageVector n.id value fun vector => vector
  | .acceleration value => Behavior.stageVector n.id value (·.scale Scalar.half)
  | .scale curve value => Behavior.stageGlobal n.id value (Behavior.scaleValues curve)
  | .rotationalVelocity value => Behavior.stageGlobal n.id value Behavior.spinValues
  | .rotateToHeading =>
    if ← has (·.billboard) then
      setVertexMatrix (← Behavior.claimed n.id Slot.value) frame.camera
  | .billboard axis =>
    setVertexMatrix (← Behavior.claimed n.id Slot.value)
      (Behavior.billboardRotation axis frame.camera)
  | .uv _ value =>
    if ← has (·.uvAnimation) then
      Behavior.stageGlobal n.id value fun uv => do
        let values ← Behavior.uvValues uv
        return ⟨values.x, values.y, Scalar.zero, Scalar.zero⟩
  | .spriteSheet sheet => if ← has (·.uvAnimation) then Behavior.stageSheet n.id sheet
  | .color animation => if ← has (·.fragmentAnimation) then Behavior.stageColor n.id animation
  | .follow => return ()
  | .custom node => node.writeConstants n.info frame

end ParticleShader
