import ParticleShader.Compilation

/-!
# Allocation of registers

The registers of the four shared pools are handed out in ascending order and
stay claimed until the next compilation. Vertex temporaries are claimed and
released: a temporary is free while nobody claims it, and the first free one is
handed out.
-/

namespace ParticleShader.Compile

variable {α : Type}

/-- Takes `count` consecutive registers of a pool and gives the first index. -/
def allocate (pool : Pool) (count : Nat) : Compile α Nat := do
  let c ← get
  let first := c.used.get pool
  let last ← ofOutcome (Size.add first count)
  let limit := c.profile.limits.of pool.kind
  if limit < last then throw (.registerOverflow pool.kind last limit)
  modify fun c => { c with used := c.used.set pool last }
  return first

/-- Takes `count` consecutive registers of a pool and gives the first one. -/
def allocateRegisters (pool : Pool) (count : Nat) : Compile α Register := do
  return { kind := pool.kind, index := ← allocate pool count }

/-- Takes a register of a pool. -/
def allocateRegister (pool : Pool) : Compile α Register := allocateRegisters pool 1

/-- Claims the first free vertex temporary. -/
def acquire : Compile α Register := do
  let c ← get
  match c.temporaries.findIdx? (· = 0) with
  | none =>
    throw (.registerOverflow .vertexTemporary (c.temporaries.length + 1)
      c.profile.limits.vertexTemporaries)
  | some index =>
    modify fun c => { c with temporaries := c.temporaries.modify index (· + 1) }
    return { kind := .vertexTemporary, index }

/-- Claims the first free vertex temporary for its first component. -/
def acquireScalar : Compile α Register := return (← acquire).x

/-- Claims a vertex temporary by name; other registers are not counted. -/
def claim (r : Register) : Compile α Unit := do
  if r.kind = .vertexTemporary then
    let c ← get
    if r.index < c.temporaries.length then
      modify fun c => { c with temporaries := c.temporaries.modify r.index (· + 1) }
    else
      let requested ← ofOutcome (Size.add r.index 1)
      throw (.registerOverflow .vertexTemporary requested c.profile.limits.vertexTemporaries)

/-- Gives up one claim on a vertex temporary. -/
def release (r : Register) : Compile α Unit :=
  modify fun c =>
    if r.kind = .vertexTemporary then
      { c with temporaries := c.temporaries.modify r.index (· - 1) }
    else c

end ParticleShader.Compile
