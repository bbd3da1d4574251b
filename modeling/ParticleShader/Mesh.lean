import ParticleShader.Records

/-!
# Meshes

A mesh shows a geometry and holds the data that was made for each of its
partitions. Meshes that share data are given what was already made for the same
partitions.
-/

namespace ParticleShader

/-- A geometry with the data of its partitions. -/
structure Mesh (α : Type) where
  /-- What is shown. -/
  geometry : Geometry
  /-- Whether data that was already made may be used. -/
  share : Bool
  /-- The data of every partition, once it is made. -/
  bakes : List (Option (SharedBake α))
  /-- The data of every partition for the current frame, once it is made. -/
  dynamics : List (Option (DynamicBuffer α))

namespace Mesh

variable {α : Type}

/-- A mesh without data. -/
def ofGeometry (geometry : Geometry) (share : Bool) : Mesh α where
  geometry := geometry
  share := share
  bakes := geometry.partitions.map fun _ => none
  dynamics := geometry.partitions.map fun _ => none

/-- The mesh with another geometry, without data. -/
def withGeometry (m : Mesh α) (geometry : Geometry) : Mesh α := ofGeometry geometry m.share

/-- The data of a partition. -/
def bake? (m : Mesh α) (partition : Nat) : Option (SharedBake α) := m.bakes[partition]?.join

/-- The data of a partition for the current frame. -/
def dynamic? (m : Mesh α) (partition : Nat) : Option (DynamicBuffer α) :=
  m.dynamics[partition]?.join

end Mesh

end ParticleShader
