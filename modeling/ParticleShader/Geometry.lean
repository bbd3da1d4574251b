import ParticleShader.Size

/-!
# Geometry

A geometry is split into partitions, which are vertex buffers of their own.
Particle geometry also says which runs of vertices belong to which particle: the
runs come in the order of the particles and fill every partition from the front
without gaps.
-/

namespace ParticleShader

/-- The identity of a geometry. -/
abbrev GeometryId := Nat

/-- The identity of a partition. -/
abbrev PartitionId := Nat

/-- The identities that were not given out yet. -/
structure IdSupply where
  /-- The next identity of a geometry. -/
  geometry : GeometryId := 0
  /-- The next identity of a partition. -/
  partition : PartitionId := 0
deriving DecidableEq, Repr

/-- How many identities of a kind there are: they are words of 32 bits, and so is the one
that would come next. -/
def IdSupply.limit : Nat := Nat.pow 2 32 - 1

/-- A vertex buffer of a geometry. -/
structure Partition where
  /-- Its identity. -/
  id : PartitionId
  /-- How many vertices it has. -/
  vertices : Nat
deriving DecidableEq, Repr

/-- Consecutive vertices of one particle in one partition. -/
structure Run where
  /-- The particle. -/
  particle : Nat
  /-- The position of the partition in the geometry. -/
  partition : Nat
  /-- The first vertex. -/
  first : Nat
  /-- How many vertices there are. -/
  count : Nat
deriving DecidableEq, Repr

/-- A geometry whose vertices are grouped into particles. -/
structure ParticleGeometry where
  /-- Its identity. -/
  id : GeometryId
  /-- The vertex buffers. -/
  partitions : List Partition
  /-- The runs in the order of the particles. -/
  runs : List Run
  /-- How many particles there are, those without vertices included. -/
  particles : Nat
deriving DecidableEq, Repr

/-- A step that gives out identities. -/
abbrev Identified (β : Type) : Type := EStateM Fault IdSupply β

/-- A new identity for a geometry, if there is one left. -/
def freshGeometry : Identified GeometryId := do
  let ids ← get
  if ids.geometry < IdSupply.limit then
    set { ids with geometry := ids.geometry + 1 }
    return ids.geometry
  else throw .sizeOverflow

/-- A partition with a new identity, if there is one left. -/
def freshPartition (vertices : Nat) : Identified Partition := do
  let ids ← get
  if ids.partition < IdSupply.limit then
    set { ids with partition := ids.partition + 1 }
    return { id := ids.partition, vertices }
  else throw .sizeOverflow

namespace ParticleGeometry

/-- Checks that runs come in the order of the particles, behind a run of the
particle `last`, and continue partitions of `sizes` vertices of which `filled`
are in use. -/
def checkRuns (sizes : Array Nat) (last : Nat) (filled : Array Nat) :
    List Run → Except Fault Unit
  | [] => .ok ()
  | run :: rest => do
    if run.particle < last then throw (.geometryMismatch (.descending run.particle last))
    match sizes[run.partition]?, filled[run.partition]? with
    | some size, some used =>
      let stop ← Size.add run.first run.count
      if run.first ≠ used ∨ size < stop then
        throw (.geometryMismatch
          (.misplacedRun run.particle run.first stop run.partition used))
      checkRuns sizes run.particle (filled.setIfInBounds run.partition stop) rest
    | _, _ => throw (.geometryMismatch (.missingPartition run.particle run.partition))

/-- How many particles runs and a given number of particles need. -/
def particlesOf (particles : Nat) (runs : List Run) : Except Fault Nat :=
  match runs.getLast? with
  | none => .ok particles
  | some run => do return max particles (← Size.add run.particle 1)

/-- The geometry of partitions of the given sizes and of runs in them. The
partitions have their identities even if the runs are refused. -/
def ofParts (sizes : List Nat) (runs : List Run) (particles : Nat) :
    Identified ParticleGeometry := do
  let partitions ← sizes.mapM freshPartition
  let checked := do
    checkRuns sizes.toArray 0 (Array.replicate sizes.length 0) runs
    particlesOf particles runs
  match checked with
  | .error fault => throw fault
  | .ok particles => return { id := ← freshGeometry, partitions, runs, particles }

/-- How many vertices there are. -/
def vertices (g : ParticleGeometry) : Except Fault Nat := Size.sum (g.partitions.map (·.vertices))

end ParticleGeometry

/-- What a mesh shows. -/
inductive Geometry where
  /-- A geometry without particles. -/
  | static (id : GeometryId) (partitions : List Partition)
  /-- A geometry of particles. -/
  | particles (geometry : ParticleGeometry)
deriving DecidableEq, Repr

namespace Geometry

/-- The identity of a geometry. -/
def id : Geometry → GeometryId
  | static id _ => id
  | particles g => g.id

/-- The vertex buffers of a geometry. -/
def partitions : Geometry → List Partition
  | static _ partitions => partitions
  | particles g => g.partitions

end Geometry

end ParticleShader
