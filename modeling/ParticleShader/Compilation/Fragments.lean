import ParticleShader.Compilation.Allocation

/-!
# Fixed fragments of a program

The code around the nodes: the copy of the vertex and the clearing of the
accumulators, the placement of the vertex, and the preparation and hand-over of
the animated color; and the registers of the texture code.
-/

namespace ParticleShader

open Statement

namespace Compile

variable {α : Type}

/-- Copies the sources to the targets and clears the accumulators. -/
def initCode : Compile α Program := do
  let shared ← shared
  let c ← get
  return c.targets.zipWith (fun (target source : Register) => mov target source) c.sources ++
    mov shared.displacement.xyz shared.zero ::
      shared.velocity.toList.map fun (velocity : Register) => mov velocity.xyz shared.zero

/-- Moves the scaled and rotated vertex by the accumulated displacement. -/
def combineCode : Compile α Program := do
  let shared ← shared
  return [add shared.vertex.xyz shared.vertex.xyz shared.displacement.xyz]

/-- Allocates a color accumulator that starts from `start` and the varying that
carries it, if some node needs it. -/
def accumulator (wanted : Features → Bool) (start : Register)
    (putTarget putVarying : Register → ColorRegisters → ColorRegisters) : Compile α Program := do
  if ← has wanted then
    let target ← acquire
    modify fun c => { c with color := putTarget target c.color }
    let varying ← allocateRegister .varying
    modify fun c => { c with color := putVarying varying c.color }
    return [mov target start]
  else return []

/-- Allocates the accumulated multiplier, which starts from one. -/
def multiplierStart (shared : SharedRegisters) : Compile α Program :=
  accumulator (·.colorMultiplier) shared.one
    (fun target color => { color with multiplier := some target })
    (fun varying color => { color with multiplierVarying := some varying })

/-- Allocates the accumulated offset, which starts from zero. -/
def offsetStart (shared : SharedRegisters) : Compile α Program :=
  accumulator (·.colorOffset) shared.zero
    (fun target color => { color with offset := some target })
    (fun varying color => { color with offsetVarying := some varying })

/-- Allocates and initializes the color accumulators that nodes need, if the pass
applies animated color. -/
def initColor : Compile α Program := do
  let shared ← shared
  if ← has (·.fragmentAnimation) then
    let multiplier ← multiplierStart shared
    let offset ← offsetStart shared
    return multiplier ++ offset
  else return []

/-- Binds the registers of the texture code. The nodes work on the displacement,
which is free once the vertex is placed. -/
def setUv (sourceName targetName : String) : Compile α UvRegisters := do
  let shared ← shared
  let source ← ofOutcome (Register.ofName sourceName)
  let target ← ofOutcome (Register.ofName targetName)
  let uv : UvRegisters := { source, working := shared.displacement, target }
  modify fun c => { c with uv := some uv }
  return uv

/-- Remembers the texture code. -/
def storeUvCode (code : Program) : Compile α Unit :=
  modify fun c => { c with uvCode := some code }

end Compile

namespace Compilation

variable {α : Type}

/-- Copies an accumulator to the varying that carries it, if there is one. -/
def handOver (target varying : Option Register) : Program :=
  match target, varying with
  | some target, some varying => [mov varying target]
  | _, _ => []

/-- Hands the color accumulators to the fragment program. -/
def colorPassCode (c : Compilation α) : Program :=
  handOver c.color.multiplier c.color.multiplierVarying ++
    handOver c.color.offset c.color.offsetVarying

/-- Applies the animated color to a register of the fragment program. -/
def colorCombination (c : Compilation α) (shadedName : String) : Except Fault Program := do
  let shaded ← Register.ofName shadedName
  let scaled := c.color.multiplierVarying.toList.map fun (varying : Register) =>
    mul shaded shaded varying
  let shifted := c.color.offsetVarying.toList.map fun (varying : Register) =>
    add shaded shaded varying
  return scaled ++ shifted

/-- The texture code that was already written. It is tied to its registers:
asking for others is a fault. -/
def writtenUvCode (c : Compilation α) (sourceName targetName : String) :
    Except Fault (Option Program) :=
  match c.uv, c.uvCode with
  | some uv, some code => do
    let source ← Register.ofName sourceName
    let target ← Register.ofName targetName
    if uv.source ≠ source ∨ uv.target ≠ target then
      throw (.invalidConfiguration (.otherUvRegisters uv.source uv.target))
    return some code
  | _, _ => return none

end Compilation

end ParticleShader
