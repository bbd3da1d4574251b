import ParticleShader.Compilation
import ParticleShader.Particle

/-!
# Nodes

A node is one behavior of a set of particles. Its parameters are the same for
all particles and are read from constants, or they belong to the single particle
and are read from a buffer. What a node does is its `Behavior`; a `Node` is a
behavior with its place in a set.
-/

namespace ParticleShader

/-- Where the parameters of a node are kept. -/
inductive Mode where
  /-- In constants, the same for all particles. -/
  | global
  /-- In a buffer, for every particle its own. -/
  | perParticle (buffer : Buffer)
deriving DecidableEq, Repr

/-- The parameter of a node: one value for all particles, or a buffer that holds
one for each. -/
inductive Parameter (β : Type) where
  /-- One value. -/
  | global (value : β)
  /-- A value for each particle. -/
  | perParticle (buffer : Buffer)

namespace Parameter

variable {β : Type}

/-- Where a parameter is kept. -/
def mode : Parameter β → Mode
  | global _ => .global
  | perParticle buffer => .perParticle buffer

/-- The parameter kept as `mode` says, with a value in case it is global. -/
def inMode (value : β) : Mode → Parameter β
  | .global => global value
  | .perParticle buffer => perParticle buffer

@[simp] theorem mode_inMode (value : β) (mode : Mode) : (inMode value mode).mode = mode := by
  cases mode <;> rfl

end Parameter

/-- How the particles of a set live. -/
structure Lifecycle where
  /-- They end after their duration. -/
  usesDuration : Bool := false
  /-- They start again when they have ended. -/
  usesLooping : Bool := false
  /-- They pause before they start again. -/
  usesDelay : Bool := false
deriving DecidableEq, Repr

/-- What nodes find when they are added to a set. -/
structure Settings where
  /-- How the particles live. -/
  lifecycle : Lifecycle := {}
  /-- The features that the nodes raised so far. -/
  features : Features := {}
deriving DecidableEq, Repr

/-- The part of the vertex program that a node writes into. -/
inductive Block where
  /-- Before the vertex is placed. -/
  | primary
  /-- After the vertex is placed. -/
  | post
  /-- While the color is accumulated. -/
  | color
deriving DecidableEq, Repr

namespace Block

/-- The least priority of the block behind the placement. -/
def postPriority : Int := 9

/-- The least priority of the color block. -/
def colorPriority : Int := 18

/-- The block of a priority. -/
def ofPriority (priority : Int) : Block :=
  if priority < postPriority then primary
  else if priority < colorPriority then post
  else color

/-- The name of a block. -/
def name : Block → String
  | primary => "Primary"
  | post => "Post"
  | color => "Color"

end Block

/-- What is known of a node in a set. -/
structure NodeInfo where
  /-- What kind of node it is. -/
  name : String
  /-- Its handle. -/
  id : NodeId
  /-- Its rank: nodes with a smaller one come first. -/
  priority : Int
  /-- Where its parameters are kept. -/
  mode : Mode
  /-- How many values it keeps per vertex. -/
  length : Nat
  /-- Where they begin in a record of the baked buffer. -/
  offset : Nat
  /-- Where they begin in a record of the dynamic buffer. -/
  dynamicOffset : Nat
deriving DecidableEq, Repr

/-- The block that a node writes into. -/
def NodeInfo.block (i : NodeInfo) : Block := Block.ofPriority i.priority

/-- An oscillation with a duration and a phase in degrees. -/
structure Cycle (α : Type) where
  /-- The duration of one oscillation. -/
  duration : α
  /-- How far the oscillation is advanced. -/
  phase : Option α := none
deriving DecidableEq

/-- How a scale moves between its bounds. -/
inductive ScaleCurve where
  /-- From one to the other over the life. -/
  | linear
  /-- Back and forth in cycles. -/
  | cycle
  /-- Back and forth in cycles, with a phase. -/
  | phasedCycle
deriving DecidableEq, Repr

namespace ScaleCurve

/-- The curve that goes in cycles or not and has a phase or not; without a cycle
a phase means nothing. -/
def ofUses (usesCycle usesPhase : Bool) : ScaleCurve :=
  if usesCycle then if usesPhase then phasedCycle else cycle else linear

/-- How many values describe the curve. -/
def length : ScaleCurve → Nat
  | linear => 2
  | cycle => 3
  | phasedCycle => 4

end ScaleCurve

/-- The texture axis that a scroll moves along. -/
inductive UvAxis where
  /-- The first coordinate. -/
  | u
  /-- The second coordinate. -/
  | v
deriving DecidableEq, Repr

/-- The cells of a sprite sheet and how they are played. -/
structure SpriteSheet (α : Type) where
  /-- The number of columns, at least one. -/
  columns : Nat
  /-- The number of rows, at least one. -/
  rows : Nat
  /-- The number of cells that are shown. -/
  frames : Nat
  /-- The cycle the frames are played in, the life if there is none. -/
  cycle : Option (Cycle α)
deriving DecidableEq

/-- The sheet of the given size; the number of cells has to fit in a word of 32
bits. All cells are shown unless fewer are asked for. -/
def SpriteSheet.ofSize {α : Type} (columns rows : Nat) (frames : Option Nat)
    (cycle : Option (Cycle α)) : Except Fault (SpriteSheet α) :=
  let columns := max columns 1
  let rows := max rows 1
  let cells := columns * rows
  if cells < Nat.pow 2 32 then .ok { columns, rows, frames := min (frames.getD cells) cells, cycle }
  else .error .sizeOverflow

/-- A color animation. -/
structure ColorAnimation (α : Type) where
  /-- Whether the multiplier is animated. -/
  usesMultiplier : Bool
  /-- Whether the offset is animated. -/
  usesOffset : Bool
  /-- The cycle the color oscillates in, the life if there is none. -/
  cycle : Option (Cycle α)
  /-- The colors at the start and at the end. -/
  colors : Parameter (ColorTransform α × ColorTransform α)

/-- The state of the world that is drawn. -/
structure Frame (α : Type) where
  /-- The time of the animation, in seconds. -/
  time : α
  /-- The rotation from the space of the particles to the camera. -/
  camera : Mat3 α

/-- A moment seen along the third axis. -/
def Frame.at {α : Type} [Scalar α] (time : α) : Frame α := ⟨time, Mat3.identity⟩

/-- A node that is not of the catalogue. It has vertex code; what else it does not provide
is empty, and the values of particles are refused. -/
structure CustomNode (α : Type) where
  /-- Its name. -/
  name : String
  /-- Where its parameters are kept. -/
  mode : Mode
  /-- How many values it keeps per vertex. -/
  length : Nat
  /-- Its rank. -/
  priority : Int
  /-- The features it raises in a set with these settings, or why it does not go
  with them. -/
  accept : Settings → Except Fault Features
  /-- Its vertex code. -/
  vertexCode : NodeInfo → Compile α Program
  /-- Its texture code. -/
  uvCode : NodeInfo → Compile α Program := fun _ => pure []
  /-- The values that it keeps for a particle. -/
  values : Particle α → Except Fault (Vector α length) :=
    fun _ => .error (.unimplemented name "generate_one_particle_property")
  /-- Stages its constants for a frame. -/
  writeConstants : NodeInfo → Frame α → Compile α Unit := fun _ _ => pure ()

/-- What a node does. -/
inductive Behavior (α : Type) where
  /-- Keeps the time and the life of the particle. -/
  | time (lifecycle : Lifecycle)
  /-- Displaces the particle. -/
  | position (value : Parameter (Vec3 α))
  /-- Moves the particle at a constant velocity. -/
  | velocity (value : Parameter (Vec3 α))
  /-- Accelerates the particle. -/
  | acceleration (value : Parameter (Vec3 α))
  /-- Scales the vertex: least and greatest scale, cycle duration, phase. -/
  | scale (curve : ScaleCurve) (value : Parameter (Vec4 α))
  /-- Spins the vertex: axis and period. -/
  | rotationalVelocity (value : Parameter (Vec4 α))
  /-- Turns the vertex along the velocity. -/
  | rotateToHeading
  /-- Turns the vertex towards the camera, around an axis only if one is given. -/
  | billboard (axis : Option (Vec3 α))
  /-- Moves the vertex by an offset that is refilled for every frame. -/
  | follow
  /-- Scrolls the texture back and forth: cycle duration and scale. -/
  | uv (axis : UvAxis) (value : Parameter (Vec2 α))
  /-- Plays the frames of a sprite sheet. -/
  | spriteSheet (sheet : SpriteSheet α)
  /-- Animates the color. -/
  | color (animation : ColorAnimation α)
  /-- What a node of the user does. -/
  | custom (node : CustomNode α)

namespace Behavior

variable {α : Type}

/-- The name of the kind of node. -/
def name : Behavior α → String
  | time _ => "time"
  | position _ => "position"
  | velocity _ => "velocity"
  | acceleration _ => "acceleration"
  | scale _ _ => "scale"
  | rotationalVelocity _ => "rotational_velocity"
  | rotateToHeading => "rotate_to_heading"
  | billboard _ => "billboard"
  | follow => "follow"
  | uv _ _ => "uv"
  | spriteSheet _ => "sprite_sheet"
  | color _ => "color"
  | custom node => node.name

/-- Where the parameters are kept. -/
def mode : Behavior α → Mode
  | time _ => .perParticle .baked
  | position value | velocity value | acceleration value => value.mode
  | scale _ value | rotationalVelocity value => value.mode
  | rotateToHeading | billboard _ | spriteSheet _ => .global
  | follow => .perParticle .dynamic
  | uv _ value => value.mode
  | color animation => animation.colors.mode
  | custom node => node.mode

/-- How many values are kept per vertex. A color keeps a start and a difference
for each animated part, and nothing when it is the same for all particles. -/
def length : Behavior α → Nat
  | time _ => 4
  | position _ | velocity _ | acceleration _ => 3
  | scale curve _ => curve.length
  | rotationalVelocity _ => 4
  | rotateToHeading | billboard _ | spriteSheet _ => 0
  | follow => 3
  | uv _ _ => 2
  | color animation =>
    match animation.colors with
    | .global _ => 0
    | .perParticle _ => 8 * (animation.usesMultiplier.toNat + animation.usesOffset.toNat)
  | custom node => node.length

/-- The rank among the nodes of a set. -/
def priority : Behavior α → Int
  | time _ | position _ => 0
  | velocity _ | acceleration _ | scale _ _ => 1
  | rotationalVelocity _ | rotateToHeading => 3
  | billboard _ => 4
  | follow => Block.postPriority
  | uv _ _ | spriteSheet _ => Block.postPriority + 1
  | color _ => Block.colorPriority
  | custom node => node.priority

section

variable [Scalar α]

/-- A displacement for each particle, or none for all. -/
def localPosition (mode : Mode) : Behavior α := position (.inMode Vec3.zero mode)

/-- A velocity for each particle, or none for all. -/
def localVelocity (mode : Mode) : Behavior α := velocity (.inMode Vec3.zero mode)

/-- An acceleration for each particle, or none for all. -/
def localAcceleration (mode : Mode) : Behavior α := acceleration (.inMode Vec3.zero mode)

/-- A scale for each particle, or none for all. -/
def localScale (mode : Mode) (usesCycle usesPhase : Bool) : Behavior α :=
  scale (.ofUses usesCycle usesPhase)
    (.inMode ⟨Scalar.one, Scalar.one, Scalar.one, Scalar.zero⟩ mode)

/-- The same scale for all particles, in a cycle if one is given. -/
def globalScale (least greatest : α) (cycle : Option (Cycle α)) : Behavior α :=
  match cycle with
  | none => scale .linear (.global ⟨least, greatest, Scalar.one, Scalar.zero⟩)
  | some cycle =>
    scale (.ofUses true cycle.phase.isSome)
      (.global ⟨least, greatest, cycle.duration, cycle.phase.getD Scalar.zero⟩)

/-- A spin for each particle, or one turn a second around the second axis. -/
def localRotationalVelocity (mode : Mode) : Behavior α :=
  rotationalVelocity (.inMode (Vec3.unitY.extend Scalar.one) mode)

/-- The same spin for all particles. -/
def globalRotationalVelocity (axis : Vec3 α) (period : α) : Behavior α :=
  rotationalVelocity (.global (axis.extend period))

/-- A billboard, locked to the direction of an axis if one is given that has a
direction. -/
def lockedBillboard (axis : Option (Vec3 α)) : Behavior α := billboard (axis.bind Vec3.normalize?)

/-- A scroll for each particle, or the same for all. -/
def localUv (mode : Mode) (axis : UvAxis) : Behavior α :=
  uv axis (.inMode ⟨Scalar.one, Scalar.one⟩ mode)

/-- Colors for each particle, or none for all. -/
def localColor (mode : Mode) (usesMultiplier usesOffset : Bool) (cycle : Option (Cycle α)) :
    Behavior α :=
  let colors := .inMode (ColorTransform.identity, ColorTransform.identity) mode
  color { usesMultiplier, usesOffset, cycle, colors }

end

/-- The features that a node raises in a set with these settings, or why it does
not go with them. -/
def accept [Scalar α] (settings : Settings) : Behavior α → Except Fault Features
  | rotateToHeading => .ok { velocity := true }
  | billboard _ => .ok { billboard := true }
  | uv _ _ => .ok { uvNode := true }
  | spriteSheet sheet =>
    match sheet.cycle with
    | some cycle =>
      if cycle.duration ≤ Scalar.zero then
        .error (.invalidConfiguration (.spriteSheetCycle (Scalar.text cycle.duration)))
      else .ok { uvNode := true }
    | none =>
      if settings.lifecycle.usesDuration then .ok { uvNode := true }
      else .error (.invalidConfiguration .spriteSheetDuration)
  | color animation =>
    let features : Features :=
      { colorMultiplier := animation.usesMultiplier, colorOffset := animation.usesOffset }
    match animation.cycle with
    | some cycle =>
      if cycle.duration ≤ Scalar.zero then
        .error (.invalidConfiguration (.colorCycle (Scalar.text cycle.duration)))
      else .ok features
    | none => .ok features
  | custom node => node.accept settings
  | _ => .ok {}

end Behavior

/-- A behavior with its place in a set. -/
structure Node (α : Type) where
  /-- What the node does. -/
  behavior : Behavior α
  /-- Its handle. -/
  id : NodeId
  /-- Where its values begin in a record of the baked buffer. -/
  offset : Nat := 0
  /-- Where its values begin in a record of the dynamic buffer. -/
  dynamicOffset : Nat := 0

/-- What is known of a node. -/
def Node.info {α : Type} (n : Node α) : NodeInfo where
  name := n.behavior.name
  id := n.id
  priority := n.behavior.priority
  mode := n.behavior.mode
  length := n.behavior.length
  offset := n.offset
  dynamicOffset := n.dynamicOffset

end ParticleShader
