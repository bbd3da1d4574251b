import ParticleShader.Compilation.Allocation
import ParticleShader.Node

/-!
# Vertex code of nodes

Every node contributes the instructions that carry out its behavior on the
shared registers. A parameter is read from a constant or from an attribute
stream that is bound to the place of the node in its buffer. Scratch temporaries
are released when the code is written.
-/

namespace ParticleShader

open Statement

/-! ### The numbers of the parameters of a node -/

namespace Slot

/-- The first parameter of most nodes. -/
def value : Nat := 0

/-- The frame time of the time node. -/
def frameTime : Nat := 1

/-- The phase of a sprite sheet. -/
def phase : Nat := 1

/-- The multiplier of a color at the start. -/
def startMultiplier : Nat := 0

/-- The difference of the multipliers of a color. -/
def deltaMultiplier : Nat := 1

/-- The offset of a color at the start. -/
def startOffset : Nat := 2

/-- The difference of the offsets of a color. -/
def deltaOffset : Nat := 3

/-- The cycle of a color. -/
def cycle : Nat := 4

end Slot

namespace Compile

variable {α : Type}

/-- Takes an attribute that reads `components` values of a node from `start` on,
as its parameter `slot`. -/
def bindStream (info : NodeInfo) (slot start components : Nat) : Compile α Register := do
  let register ← allocateRegister .vertexAttribute
  setIndex info.id slot register.index
  let (buffer, base) : Buffer × Nat :=
    match info.mode with
    | .perParticle .dynamic => (.dynamic, info.dynamicOffset)
    | _ => (.baked, info.offset)
  let binding : StreamBinding :=
    { register := register.index, node := info.id, buffer, offset := base + start, components }
  modify fun c => { c with bindings := c.bindings ++ [binding] }
  return register

/-- Takes `count` constants as the parameter `slot` of a node. -/
def claimConstants (info : NodeInfo) (slot count : Nat) : Compile α Register := do
  let register ← allocateRegisters .vertexConstant count
  setIndex info.id slot register.index
  return register

/-- Takes the register of a parameter: a constant for a global one, an attribute
otherwise. -/
def parameter (info : NodeInfo) (slot start components : Nat) : Compile α Register :=
  match info.mode with
  | .global => claimConstants info slot 1
  | .perParticle _ => bindStream info slot start components

end Compile

open Compile

namespace Behavior

/-! ### The instructions of the behaviors -/

/-- Computes the time since the start and collapses the vertex before it. -/
def startProgram (shared : SharedRegisters) (stream now started : Register) : Program :=
  [sub shared.time now stream.x,
   sge started shared.time shared.zero,
   mul shared.vertex.xyz shared.vertex.xyz started]

/-- Collapses the vertex after a single duration, or takes time back to the
current loop and collapses the vertex in the pause of it. -/
def endingProgram (lifecycle : Lifecycle) (shared : SharedRegisters) (stream factor : Register) :
    Program :=
  if !lifecycle.usesLooping then
    [sge factor stream.y shared.time,
     mul shared.vertex.xyz shared.vertex.xyz factor]
  else if lifecycle.usesDelay then
    [div factor shared.time stream.z,
     frc factor factor,
     mul shared.time factor stream.z,
     slt factor shared.time stream.y,
     mul shared.vertex.xyz shared.vertex.xyz factor]
  else
    [mul factor shared.time stream.w,
     frc factor factor,
     mul shared.time factor stream.y]

/-- Computes the life from the time. -/
def lifeProgram (shared : SharedRegisters) (stream : Register) : Program :=
  [mul shared.life shared.time stream.w]

/-- Adds a value to the displacement. -/
def positionProgram (shared : SharedRegisters) (value : Register) : Program :=
  [add shared.displacement.xyz value.xyz shared.displacement.xyz]

/-- Adds the way at a constant velocity to the displacement, and the velocity to
the accumulated one. -/
def velocityProgram (shared : SharedRegisters) (value way : Register) : Program :=
  [mul way.xyz shared.time value.xyz,
   add shared.displacement.xyz way.xyz shared.displacement.xyz] ++
    shared.velocity.toList.map fun (total : Register) => add total.xyz value.xyz total.xyz

/-- Adds twice the product of time and half an acceleration to the accumulated
velocity. -/
def speedProgram (shared : SharedRegisters) (total way doubled : Register) : Program :=
  [mul doubled.xyz way.xyz shared.two,
   add total.xyz doubled.xyz total.xyz]

/-- Adds the way at a constant acceleration, of which the value is one half, to
the displacement; `speed` uses the product with time in between. -/
def accelerationProgram (shared : SharedRegisters) (value way : Register) (speed : Program) :
    Program :=
  mul way.xyz shared.time value.xyz :: speed ++
    [mul way.xyz way.xyz shared.time,
     add shared.displacement.xyz way.xyz shared.displacement.xyz]

/-- Multiplies the vertex by the scale of the moment. -/
def scaleProgram (curve : ScaleCurve) (shared : SharedRegisters) (value factor : Register) :
    Program :=
  let wave (phase : Program) : Program :=
    [mul factor shared.time value.z] ++ phase ++ [sin factor factor, mul factor value.y factor]
  let change : Program :=
    match curve with
    | .linear => [mul factor value.y shared.life]
    | .cycle => wave []
    | .phasedCycle => wave [add factor factor value.w]
  change ++
    [add factor value.x factor,
     mul shared.vertex.xyz shared.vertex.xyz factor]

/-- Rotates one register around an axis: the components of `angle` are the angle,
its sine and its cosine. -/
def spinProgram (axis angle one cross parallel target : Register) : Program :=
  [crs cross.xyz axis.xyz target.xyz,
   mul cross.xyz cross.xyz angle.y,
   dp3 parallel.w axis.xyz target.xyz,
   sub parallel.x one angle.z,
   mul parallel.w parallel.w parallel.x,
   mul parallel.xyz axis.xyz parallel.w,
   add cross.xyz cross.xyz parallel.xyz,
   mul parallel.xyz target.xyz angle.z,
   add target.xyz cross.xyz parallel.xyz]

/-- Rotates the vertex and the directions around an axis by an angle that grows
with time. -/
def rotationalVelocityProgram (shared : SharedRegisters) (value angle cross parallel : Register) :
    Program :=
  [mul angle.x shared.time value.w,
   sin angle.y angle.x,
   cos angle.z angle.x] ++
    shared.oriented.flatMap (spinProgram value angle shared.one cross parallel)

/-- Rotates one register in the plane of the screen: the first two components of
`heading` are the cosine and the sine of the angle. -/
def planeTurnProgram (heading temp target : Register) : Program :=
  [mul temp.x target.x heading.x,
   mul temp.y target.y heading.y,
   sub temp.z temp.x temp.y,
   mul temp.x target.x heading.y,
   mul temp.y target.y heading.x,
   add target.y temp.x temp.y,
   mov target.x temp.z]

/-- Turns the vertex and the directions along a velocity as the camera sees it. -/
def screenHeadingProgram (shared : SharedRegisters) (total matrix heading temp : Register) :
    Program :=
  [m33 heading.xyz total.xyz matrix,
   mov heading.z shared.zero,
   nrm heading.xyz heading.xyz] ++
    shared.oriented.flatMap (planeTurnProgram heading temp)

/-- Takes one register to the basis of heading, up and side. -/
def basisProgram (heading up side sum temp target : Register) : Program :=
  [mul sum.xyz heading.xyz target.x,
   mul temp.xyz up.xyz target.y,
   add sum.xyz sum.xyz temp.xyz,
   mul temp.xyz side.xyz target.z,
   add target.xyz sum.xyz temp.xyz]

/-- Turns the vertex and the directions along a velocity in space. -/
def spaceHeadingProgram (shared : SharedRegisters)
    (total heading side up sum temp : Register) : Program :=
  [nrm heading.xyz total.xyz,
   crs side.xyz heading.xyz (shared.zero.select [.x, .y, .x]),
   nrm side.xyz side.xyz,
   crs up.xyz side.xyz heading.xyz] ++
    shared.oriented.flatMap (basisProgram heading up side sum temp)

/-- Multiplies the vertex and the directions by a matrix. -/
def billboardProgram (shared : SharedRegisters) (matrix temp : Register) : Program :=
  shared.oriented.flatMap fun target =>
    [m33 temp.xyz target.xyz matrix,
     mov target.xyz temp.xyz]

/-- Adds a value to the placed vertex. -/
def followProgram (shared : SharedRegisters) (value : Register) : Program :=
  [add shared.vertex.xyz value.xyz shared.vertex.xyz]

/-- Computes the sine of an angle that grows with time: the components of `speed`
are its speed and its phase. -/
def waveProgram {α : Type} (cycle : Cycle α) (shared : SharedRegisters) (speed wave : Register) :
    Program :=
  let phase : Program := if cycle.phase.isSome then [add wave wave speed.y] else []
  [mul wave shared.time speed.x] ++ phase ++ [sin wave wave]

/-- Computes one part of the color of the moment and joins it to its accumulator
with `join`. -/
def colorPartProgram (join : Operand → Operand → Operand → Statement)
    (target first delta temp blend : Register) : Program :=
  [mul temp delta blend,
   add temp temp first,
   join target temp target]

/-! ### The registers of the behaviors -/

variable {α : Type}

/-- Ends the life of particles that have a duration. -/
def endingCode (lifecycle : Lifecycle) (shared : SharedRegisters) (stream : Register) :
    Compile α Program := do
  if lifecycle.usesDuration then
    let factor ← acquireScalar
    release factor
    return endingProgram lifecycle shared stream factor
  else return []

/-- Computes time and life and collapses the vertex while the particle does not
live: before its start, after a single duration, and in the pause of a loop. -/
def timeCode (lifecycle : Lifecycle) (info : NodeInfo) : Compile α Program := do
  let stream ← bindStream info Slot.value 0 4
  let now ← claimConstants info Slot.frameTime 1
  let shared ← shared
  let started ← acquireScalar
  let ending ← endingCode lifecycle shared stream
  release started
  return startProgram shared stream now started ++ ending ++ lifeProgram shared stream

/-- Adds the parameter to the displacement. -/
def positionCode (info : NodeInfo) : Compile α Program := do
  let value ← parameter info Slot.value 0 3
  let shared ← shared
  return positionProgram shared value

/-- Adds the way at a constant velocity to the displacement. -/
def velocityCode (info : NodeInfo) : Compile α Program := do
  let value ← parameter info Slot.value 0 3
  let shared ← shared
  let way ← acquire
  release way
  return velocityProgram shared value way

/-- Adds the change of an acceleration to the accumulated velocity, if there is one. -/
def speedCode (shared : SharedRegisters) (way : Register) : Compile α Program := do
  match shared.velocity with
  | none => return []
  | some total =>
    let doubled ← acquire
    release doubled
    return speedProgram shared total way doubled

/-- Adds the way at a constant acceleration to the displacement. -/
def accelerationCode (info : NodeInfo) : Compile α Program := do
  let value ← parameter info Slot.value 0 3
  let shared ← shared
  let way ← acquire
  let speed ← speedCode shared way
  release way
  return accelerationProgram shared value way speed

/-- Multiplies the vertex by the scale of the moment. -/
def scaleCode (curve : ScaleCurve) (info : NodeInfo) : Compile α Program := do
  let value ← parameter info Slot.value 0 curve.length
  let shared ← shared
  let factor ← acquireScalar
  release factor
  return scaleProgram curve shared value factor

/-- Rotates the vertex and the directions around an axis by an angle that grows
with time. -/
def rotationalVelocityCode (info : NodeInfo) : Compile α Program := do
  let value ← parameter info Slot.value 0 4
  let shared ← shared
  let angle ← acquire
  let cross ← acquire
  let parallel ← acquire
  release parallel
  release cross
  release angle
  return rotationalVelocityProgram shared value angle cross parallel

/-- Turns the vertex and the directions along the velocity: in the plane of the
screen on billboards, in space otherwise. -/
def headingCode (info : NodeInfo) : Compile α Program := do
  let shared ← shared
  match shared.velocity with
  | none => throw (.invalidConfiguration .headingVelocity)
  | some total =>
    if ← has (·.billboard) then
      let matrix ← claimConstants info Slot.value 3
      let heading ← acquire
      let temp ← acquire
      release temp
      release heading
      return screenHeadingProgram shared total matrix heading temp
    else
      let heading ← acquire
      let side ← acquire
      let up ← acquire
      let sum ← acquire
      let temp ← acquire
      [temp, sum, up, side, heading].forM release
      return spaceHeadingProgram shared total heading side up sum temp

/-- Multiplies the vertex and the directions by the matrix of the billboard. -/
def billboardCode (info : NodeInfo) : Compile α Program := do
  let matrix ← claimConstants info Slot.value 3
  let shared ← shared
  let temp ← acquire
  release temp
  return billboardProgram shared matrix temp

/-- Adds the parameter to the placed vertex. -/
def followCode (info : NodeInfo) : Compile α Program := do
  let value ← bindStream info Slot.value 0 3
  let shared ← shared
  return followProgram shared value

/-- Computes one part of the color of the moment and joins it to its accumulator
with `join`; the values of the part begin at `start`. -/
def colorPartCode (info : NodeInfo) (accumulator : ColorRegisters → Option Register)
    (startSlot deltaSlot start : Nat) (temp blend : Register)
    (join : Operand → Operand → Operand → Statement) : Compile α Program := do
  match accumulator (← get).color with
  | none => throw .notCompiled
  | some target =>
    let first ← parameter info startSlot start 4
    let delta ← parameter info deltaSlot (start + 4) 4
    return colorPartProgram join target first delta temp blend

/-- The register that blends the colors and the code that computes it: the life, or
a wave of its own. -/
def blendCode (cycle : Option (Cycle α)) (info : NodeInfo) (shared : SharedRegisters) :
    Compile α (Register × Program) := do
  match cycle with
  | none => return (shared.life, [])
  | some cycle =>
    let speed ← claimConstants info Slot.cycle 1
    let wave ← acquireScalar
    return (wave, waveProgram cycle shared speed wave)

/-- Gives up the register that blends the colors if it was acquired. -/
def releaseBlend (cycle : Option (Cycle α)) (blend : Register) : Compile α Unit :=
  if cycle.isSome then release blend else pure ()

/-- Code that is written only where it is wanted. -/
def codeIf (wanted : Bool) (code : Compile α Program) : Compile α Program :=
  if wanted then code else pure []

/-- The code of the parts of a color that are animated. -/
def colorPartsCode (animation : ColorAnimation α) (info : NodeInfo) (temp blend : Register) :
    Compile α Program := do
  let multiplier ← codeIf animation.usesMultiplier
    (colorPartCode info (·.multiplier) Slot.startMultiplier Slot.deltaMultiplier 0 temp blend mul)
  let offset ← codeIf animation.usesOffset
    (colorPartCode info (·.offset) Slot.startOffset Slot.deltaOffset
      (if animation.usesMultiplier then 8 else 0) temp blend add)
  return multiplier ++ offset

/-- Computes the color of the moment and joins it to the color accumulators. -/
def colorCode (animation : ColorAnimation α) (info : NodeInfo) : Compile α Program := do
  if !(← has (·.fragmentAnimation)) then return []
  let shared ← shared
  let temp ← acquire
  let (blend, wave) ← blendCode animation.cycle info shared
  let parts ← colorPartsCode animation info temp blend
  releaseBlend animation.cycle blend
  release temp
  return wave ++ parts

end Behavior

/-- The vertex code of a node. Nodes that only animate the texture have none. -/
def Node.vertexCode {α : Type} (n : Node α) : Compile α Program :=
  match n.behavior with
  | .time lifecycle => Behavior.timeCode lifecycle n.info
  | .position _ => Behavior.positionCode n.info
  | .velocity _ => Behavior.velocityCode n.info
  | .acceleration _ => Behavior.accelerationCode n.info
  | .scale curve _ => Behavior.scaleCode curve n.info
  | .rotationalVelocity _ => Behavior.rotationalVelocityCode n.info
  | .rotateToHeading => Behavior.headingCode n.info
  | .billboard _ => Behavior.billboardCode n.info
  | .follow => Behavior.followCode n.info
  | .uv _ _ | .spriteSheet _ => pure []
  | .color animation => Behavior.colorCode animation n.info
  | .custom node => node.vertexCode n.info

end ParticleShader
