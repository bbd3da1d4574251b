import ParticleShader.Compilation.Constants
import ParticleShader.Compilation.Fragments
import ParticleShader.Compilation.Start
import ParticleShader.NodeSet

/-!
# Compiling a set of nodes

The vertex program runs through fixed fragments and the blocks of the nodes
between them. The texture code may be written once in every compilation; asked
for again it is repeated. When all code is written the constants of a frame can
be staged.
-/

namespace ParticleShader.NodeSet

open Compile Statement

variable {α : Type}

/-- The code of nodes, one after the other. -/
def gather (code : Node α → Compile α Program) : List (Node α) → Compile α Program
  | [] => pure []
  | n :: ns => do
    let first ← code n
    let rest ← gather code ns
    return first ++ rest

/-- The vertex code of the nodes of a block. -/
def blockCode (s : NodeSet α) (block : Block) : Compile α Program :=
  gather Node.vertexCode (s.nodes.filter (·.info.block = block))

/-- The fragments and blocks up to the placed vertex, in their order. -/
def placeFragments (s : NodeSet α) : Compile α Program := do
  enter .init
  let start ← initCode
  enter .primary
  let primary ← s.blockCode .primary
  enter .combine
  let placed ← combineCode
  enter .post
  let post ← s.blockCode .post
  return start ++ primary ++ placed ++ post

/-- The fragments and the block of the animated color, in their order. -/
def colorFragments (s : NodeSet α) : Compile α Program := do
  enter .colorInit
  let start ← initColor
  enter .color
  let color ← s.blockCode .color
  enter .colorCombine
  return start ++ color ++ (← get).colorPassCode

/-- The vertex program: first the vertex, then the color. -/
def vertexFragments (s : NodeSet α) : Compile α Program := do
  let placed ← s.placeFragments
  let colored ← s.colorFragments
  return placed ++ colored

/-- Begins a compilation and writes the vertex program. -/
def vertexCode (s : NodeSet α) (pass : Pass) (profile : Profile)
    (sources targets : List String) : Compile α Program :=
  orAbandon do
    reset profile pass (s.settings.features ∪ pass.features) sources targets
    s.vertexFragments

variable [Scalar α]

/-- Writes the texture code: a copy, around the code of the nodes if some node
animates the texture. -/
def writeUvCode (s : NodeSet α) (source target : String) : Compile α Program := do
  if ← has (·.uvNode) then
    let uv ← setUv source target
    let nodes ← gather Node.uvCode s.nodes
    let code := mov uv.working.xy uv.source :: nodes ++ [mov uv.target uv.working.xy]
    storeUvCode code
    return code
  else
    let source ← ofOutcome (Register.ofName source)
    let target ← ofOutcome (Register.ofName target)
    return [mov target source]

/-- The texture code, written in this compilation once. -/
def uvCode (s : NodeSet α) (source target : String) : Compile α Program := do
  let c ← get
  if !c.isActive || c.phase = .done then throw .notCompiled
  match ← ofOutcome (c.writtenUvCode source target) with
  | some code => return code
  | none => orAbandon (s.writeUvCode source target)

/-- The fragment code that applies the animated color to a register. -/
def fragmentCode (c : Compilation α) (shaded : String) : Except Fault Program :=
  match c.phase with
  | .colorCombine | .done => c.colorCombination shaded
  | _ => .error .notCompiled

/-- Stages the constants of a frame and gives the streams to bind. -/
def activate (s : NodeSet α) (frame : Frame α) : Compile α (List StreamBinding) := do
  if (← get).phase ≠ .done then throw .notCompiled
  s.nodes.forM (·.writeConstants frame)
  return (← get).bindings

end ParticleShader.NodeSet
