import ParticleShader.Features
import ParticleShader.Instruction
import ParticleShader.Profile
import ParticleShader.Size
import ParticleShader.Vector

/-!
# The state of a compilation

One compilation turns a set of nodes into code for one pass of a material. The pass
already uses some registers of each pool; animation code takes its own registers
behind them. `Compilation` is everything that is remembered while the code is
written and afterwards, when constants are staged for drawing.

`Compile` is a step of a compilation: it may change the state and may end in a
fault, and keeps the changes made before the fault.
-/

namespace ParticleShader

/-- A pool of registers that the animation shares with the material. -/
inductive Pool where
  /-- Vertex attributes. -/
  | vertexAttribute
  /-- Vertex constants. -/
  | vertexConstant
  /-- Fragment constants. -/
  | fragmentConstant
  /-- Varyings. -/
  | varying
deriving DecidableEq, Repr

namespace Pool

/-- The kind of the registers of a pool. -/
def kind : Pool → Register.Kind
  | vertexAttribute => .vertexAttribute
  | vertexConstant => .vertexConstant
  | fragmentConstant => .fragmentConstant
  | varying => .varying

/-- A number for every pool. -/
structure Counts where
  /-- For the vertex attributes. -/
  vertexAttributes : Nat := 0
  /-- For the vertex constants. -/
  vertexConstants : Nat := 0
  /-- For the fragment constants. -/
  fragmentConstants : Nat := 0
  /-- For the varyings. -/
  varyings : Nat := 0
deriving DecidableEq, Repr

namespace Counts

/-- The number of a pool. -/
def get (c : Counts) : Pool → Nat
  | .vertexAttribute => c.vertexAttributes
  | .vertexConstant => c.vertexConstants
  | .fragmentConstant => c.fragmentConstants
  | .varying => c.varyings

/-- The counts with another number for one pool. -/
def set (c : Counts) (pool : Pool) (n : Nat) : Counts :=
  match pool with
  | .vertexAttribute => { c with vertexAttributes := n }
  | .vertexConstant => { c with vertexConstants := n }
  | .fragmentConstant => { c with fragmentConstants := n }
  | .varying => { c with varyings := n }

@[simp] theorem get_set_self (c : Counts) (pool : Pool) (n : Nat) :
    (c.set pool n).get pool = n := by
  cases pool <;> rfl

@[simp] theorem get_set_of_ne (c : Counts) {pool other : Pool} (h : other ≠ pool) (n : Nat) :
    (c.set pool n).get other = c.get other := by
  cases pool <;> cases other <;> first | rfl | contradiction

end Counts

end Pool

/-- What a pass of a material already uses and what it wants animated. -/
structure Pass where
  /-- The registers in use. -/
  taken : Pool.Counts := {}
  /-- The pass applies animated color in its fragment program. -/
  fragmentAnimation : Bool := false
  /-- The pass animates texture coordinates. -/
  uvAnimation : Bool := false
deriving DecidableEq, Repr

/-- The features that a pass asks for. -/
def Pass.features (p : Pass) : Features :=
  { fragmentAnimation := p.fragmentAnimation, uvAnimation := p.uvAnimation }

/-- The buffer that an attribute stream reads. -/
inductive Buffer where
  /-- The interleaved buffer that is filled once. -/
  | baked
  /-- The buffer that is refilled for every frame. -/
  | dynamic
deriving DecidableEq, Repr

/-- An attribute stream to bind before drawing. -/
structure StreamBinding where
  /-- The index of the attribute. -/
  register : Nat
  /-- The node that reads the stream. -/
  node : NodeId
  /-- The buffer that is read. -/
  buffer : Buffer
  /-- Where the values begin in a record of the buffer. -/
  offset : Nat
  /-- How many values are read per vertex. -/
  components : Nat
deriving DecidableEq, Repr

/-- The registers that all nodes share. -/
structure SharedRegisters where
  /-- The attribute with the vertex. -/
  source : Register
  /-- The vertex that is scaled, rotated and placed. -/
  vertex : Register
  /-- Directions that are rotated with the vertex, such as normals. -/
  directions : List Register
  /-- The accumulated displacement of the particle. -/
  displacement : Register
  /-- The accumulated velocity, where some node needs it. -/
  velocity : Option Register
  /-- The time since the particle started. -/
  time : Register
  /-- The elapsed fraction of the life of the particle. -/
  life : Register
  /-- The constant `0`. -/
  zero : Register
  /-- The constant `1`. -/
  one : Register
  /-- The constant `2`. -/
  two : Register
deriving DecidableEq, Repr

/-- The vertex and the directions: everything that an orientation is applied to. -/
def SharedRegisters.oriented (s : SharedRegisters) : List Register := s.vertex :: s.directions

/-- The registers of the color animation, allocated one after the other. -/
structure ColorRegisters where
  /-- The accumulated multiplier. -/
  multiplier : Option Register := none
  /-- The varying that carries the multiplier. -/
  multiplierVarying : Option Register := none
  /-- The accumulated offset. -/
  offset : Option Register := none
  /-- The varying that carries the offset. -/
  offsetVarying : Option Register := none
deriving DecidableEq, Repr

/-- The registers of the texture code. -/
structure UvRegisters where
  /-- The attribute with the coordinates. -/
  source : Register
  /-- The register that the nodes work on. -/
  working : Register
  /-- The varying that carries the result. -/
  target : Register
deriving DecidableEq, Repr

/-- Everything that is remembered of a compilation. -/
structure Compilation (α : Type) where
  /-- The profile that is compiled for. -/
  profile : Profile
  /-- The switches that are on. -/
  features : Features := {}
  /-- How far the compilation is. -/
  phase : Phase := .idle
  /-- The registers of the material. -/
  taken : Pool.Counts := {}
  /-- The registers in use, those of the material included. -/
  used : Pool.Counts := {}
  /-- How often each vertex temporary is claimed. -/
  temporaries : List Nat := []
  /-- The registers shared by all nodes, once they are allocated. -/
  shared : Option SharedRegisters := none
  /-- The registers that are copied at the beginning. -/
  sources : List Register := []
  /-- The registers that they are copied to. -/
  targets : List Register := []
  /-- The registers of the color animation. -/
  color : ColorRegisters := {}
  /-- The registers of the texture code. -/
  uv : Option UvRegisters := none
  /-- The texture code, once it is written. -/
  uvCode : Option Program := none
  /-- The registers of node parameters by node and slot, the newest first. -/
  indices : List ((NodeId × Nat) × Nat) := []
  /-- The streams to bind, in the order of their registers. -/
  bindings : List StreamBinding := []
  /-- The vertex constants behind those of the material. -/
  vertexRows : List (Vec4 α) := []
  /-- The fragment constants behind those of the material. -/
  fragmentRows : List (Vec4 α) := []

/-- A step of a compilation. -/
abbrev Compile (α β : Type) : Type := EStateM Fault (Compilation α) β

namespace Compilation

variable {α : Type}

/-- Whether a compilation was started and not abandoned. -/
def isActive (c : Compilation α) : Bool := c.phase.isActive

/-- The register of a parameter of a node. -/
def index? (c : Compilation α) (node : NodeId) (slot : Nat) : Option Nat :=
  c.indices.lookup (node, slot)

/-- How many vertex temporaries are claimed. -/
def temporariesInUse (c : Compilation α) : Nat := c.temporaries.countP (0 < ·)

/-- The registers shared by all nodes, while a compilation is active. -/
def shared? (c : Compilation α) : Except Fault SharedRegisters :=
  match c.isActive, c.shared with
  | true, some shared => .ok shared
  | _, _ => .error .notCompiled

/-- The attributes that the animation claimed, in ascending order. -/
def claimedStreams (c : Compilation α) : List Nat :=
  List.range' c.taken.vertexAttributes (c.used.vertexAttributes - c.taken.vertexAttributes)

end Compilation

namespace Compile

variable {α : Type}

/-- The step that only reports an outcome. -/
def ofOutcome {β : Type} (outcome : Except Fault β) : Compile α β :=
  match outcome with
  | .ok b => pure b
  | .error fault => throw fault

/-- The registers shared by all nodes. -/
def shared : Compile α SharedRegisters := do ofOutcome (← get).shared?

/-- Whether a switch is on. -/
def has (feature : Features → Bool) : Compile α Bool := return feature (← get).features

/-- Abandons the compilation. -/
def abandon : Compile α Unit := modify fun c => { c with phase := .failed }

/-- A step that abandons the compilation when it ends in a fault. -/
def orAbandon {β : Type} (step : Compile α β) : Compile α β := fun c =>
  match step c with
  | .ok b c => .ok b c
  | .error fault c => .error fault { c with phase := .failed }

/-- Goes on to a phase, which has to be the next one. -/
def enter (phase : Phase) : Compile α Unit := do
  match (← get).phase.next with
  | none => throw .notCompiled
  | some expected =>
    if expected = phase then modify fun c => { c with phase }
    else throw (.phaseOrder expected phase)

/-- Remembers the register of a parameter of a node. -/
def setIndex (node : NodeId) (slot index : Nat) : Compile α Unit :=
  modify fun c => { c with indices := ((node, slot), index) :: c.indices }

end Compile

end ParticleShader
