import ParticleShader.Compilation.Allocation

/-!
# The start of a compilation

A compilation begins from a state in which everything that is read later depends
on its arguments alone, so nothing of an earlier one survives. The names are read
first, those of the sources before those of the targets; then the targets are
claimed and the shared registers are allocated: the constant row `{0, 1, 2, 0}`,
the displacement, and a temporary for time. Where the velocity is accumulated it
lies in the first three components of that temporary and time in the fourth, and
the life in the fourth component of the displacement.
-/

namespace ParticleShader

/-- The state in which a compilation begins. The lists of registers to copy are
those of the compilation before until the names are read. It counts as abandoned
until the shared registers are allocated. -/
def Compilation.restart {α : Type} (c : Compilation α) (profile : Profile) (pass : Pass)
    (features : Features) : Compilation α :=
  { c with
    profile, features
    phase := .failed
    taken := pass.taken
    used := pass.taken
    temporaries := List.replicate profile.limits.vertexTemporaries 0
    shared := none
    color := {}
    uv := none
    uvCode := none
    indices := []
    bindings := []
    vertexRows := []
    fragmentRows := [] }

namespace Compile

variable {α : Type}

/-- Allocates the registers that all nodes share. -/
def allocateShared (source vertex : Register) (directions : List Register) :
    Compile α SharedRegisters := do
  let helper ← allocateRegister .vertexConstant
  let displacement ← acquire
  let temporary ← acquire
  let common : SharedRegisters :=
    { source, vertex, directions, displacement
      velocity := none, time := temporary.x, life := temporary.y
      zero := helper.x, one := helper.y, two := helper.z }
  if ← has (·.velocity) then
    return { common with velocity := temporary, time := temporary.w, life := displacement.w }
  else return common

/-- Claims the targets and allocates the shared registers: every source needs its
target, and there has to be a pair of them. -/
def shareRegisters (sources targets : List Register) : Compile α Unit := do
  match sources, targets with
  | source :: _, vertex :: directions =>
    if sources.length ≠ targets.length then
      throw (.invalidRegister (.unpaired sources.length targets.length))
    targets.forM claim
    let shared ← allocateShared source vertex directions
    modify fun c => { c with shared := some shared, phase := .reset }
  | _, _ => throw (.invalidRegister .noPair)

/-- Begins a compilation. -/
def reset (profile : Profile) (pass : Pass) (features : Features)
    (sourceNames targetNames : List String) : Compile α Unit := do
  modify (·.restart profile pass features)
  let sources ← ofOutcome (sourceNames.mapM Register.ofName)
  modify fun c => { c with sources }
  let targets ← ofOutcome (targetNames.mapM Register.ofName)
  modify fun c => { c with targets }
  shareRegisters sources targets

end Compile

end ParticleShader
