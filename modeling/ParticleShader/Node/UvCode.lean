import ParticleShader.Node.VertexCode

/-!
# Texture code of nodes

The nodes that animate the texture work on the coordinates one after the other,
if the pass wants it. All other nodes have no texture code.
-/

namespace ParticleShader

open Statement Compile

/-- The component of a register that belongs to a texture axis. -/
def UvAxis.of (axis : UvAxis) (r : Register) : Register :=
  match axis with
  | u => r.x
  | v => r.y

namespace Behavior

variable {α : Type} [Scalar α]

/-- Whether the coordinate has to be multiplied: always by a scale of its own,
by a common scale only if it differs from one. -/
def needsUvScale (value : Parameter (Vec2 α)) : Bool :=
  match value with
  | .global value => Scalar.epsilon < Scalar.abs (value.y - Scalar.one)
  | .perParticle _ => true

/-- The registers of the texture code. -/
def uvRegisters : Compile α UvRegisters := do
  match (← get).uv with
  | some registers => return registers
  | none => throw .notCompiled

/-- Scales a coordinate if it has to be and shifts it by a sine of time. -/
def uvScrollProgram (value : Parameter (Vec2 α)) (shared : SharedRegisters)
    (coordinate constants wave : Register) : Program :=
  (if needsUvScale value then [mul coordinate coordinate constants.y] else []) ++
    [mul wave shared.time constants.x,
     sin wave wave,
     add coordinate coordinate wave]

/-- Scales a coordinate and shifts it by a sine of time. -/
def uvScrollCode (axis : UvAxis) (value : Parameter (Vec2 α)) (info : NodeInfo) :
    Compile α Program := do
  if !(← has (·.uvAnimation)) then return []
  let registers ← uvRegisters
  let constants ← parameter info Slot.value 0 2
  let shared ← shared
  let wave ← acquireScalar
  release wave
  return uvScrollProgram value shared (axis.of registers.working) constants wave

/-- The phase of a sheet as a time in its cycle. -/
def sheetPhaseTime (sheet : SpriteSheet α) : Option α :=
  sheet.cycle.bind fun cycle => cycle.phase.map fun phase => phase / Scalar.nat 360 * cycle.duration

/-- Shrinks the coordinates to one cell and moves them to the cell of the moment,
row by row. The constants are the speed, the steps of a column and of a row,
and the duration of the cycle. -/
def spriteSheetProgram (sheet : SpriteSheet α) (shared : SharedRegisters)
    (working constants : Register) (phase : Option Register) (temp : Register) : Program :=
  let (speed, uStep, vStep, duration) := (constants.x, constants.y, constants.z, constants.w)
  let (clock, vOffset, frame, whole) := (temp.x, temp.y, temp.z, temp.w)
  let (u, v) := (working.x, working.y)
  let inRows (code : Program) : Program := if 1 < sheet.rows then code else []
  let progress : Program :=
    match sheet.cycle with
    | none => [mul frame shared.life speed]
    | some _ =>
      (match phase with
        | some phase => add clock shared.time phase.x
        | none => mov clock shared.time) ::
      [div clock clock duration,
       frc clock clock,
       mul clock clock duration,
       mul frame clock speed]
  [mul u u uStep] ++ inRows [mul v v vStep] ++ progress ++
    inRows
      [frc whole frame,
       sub vOffset frame whole,
       mul vOffset vOffset vStep,
       add v v vOffset] ++
    [div whole frame uStep,
     frc frame whole,
     sub whole whole frame,
     mul frame whole uStep] ++
    inRows [frc frame frame] ++
    [add u u frame]

/-- Takes the constant of the phase of a sheet that has one. -/
def sheetPhaseCode (sheet : SpriteSheet α) (info : NodeInfo) : Compile α (Option Register) :=
  match sheetPhaseTime sheet with
  | some _ => some <$> claimConstants info Slot.phase 1
  | none => pure none

/-- Shrinks the coordinates to one cell and moves them to the cell of the moment. -/
def spriteSheetCode (sheet : SpriteSheet α) (info : NodeInfo) : Compile α Program := do
  if !(← has (·.uvAnimation)) then return []
  let registers ← uvRegisters
  let shared ← shared
  let constants ← claimConstants info Slot.value 1
  let phase ← sheetPhaseCode sheet info
  let temp ← acquire
  release temp
  return spriteSheetProgram sheet shared registers.working constants phase temp

end Behavior

/-- The texture code of a node. -/
def Node.uvCode {α : Type} [Scalar α] (n : Node α) : Compile α Program :=
  match n.behavior with
  | .uv axis value => Behavior.uvScrollCode axis value n.info
  | .spriteSheet sheet => Behavior.spriteSheetCode sheet n.info
  | .custom node => node.uvCode n.info
  | _ => pure []

end ParticleShader
