import ParticleShader.Geometry
import ParticleShader.Vector

/-!
# Vertex records

The buffers of a partition hold one record of values for each vertex. All
vertices of a run of one particle carry the same values. `Bake` is the data that
is made once; `DynamicBuffer` is the data that is refilled for every frame.
-/

namespace ParticleShader

/-- A record of zeros. -/
def zeroRecord {α : Type} [Scalar α] (stride : Nat) : List α := List.replicate stride Scalar.zero

/-- A record with other values from `offset` on. -/
def overwrite {α : Type} (record : List α) (offset : Nat) (values : List α) : List α :=
  record.take offset ++ values ++ record.drop (offset + values.length)

/-- The record of a vertex among records of length `stride`; a record without
values is there for every vertex. -/
def recordOf {α : Type} (stride : Nat) (rows : Array (List α)) (vertex : Nat) : Option (List α) :=
  if stride = 0 then some [] else rows[vertex]?

theorem length_overwrite {α : Type} {record values : List α} {offset : Nat}
    (h : offset + values.length ≤ record.length) :
    (overwrite record offset values).length = record.length := by
  simp only [overwrite, List.length_append, List.length_take, List.length_drop]
  omega

/-- The life of a run of vertices, kept for the nodes that are evaluated for every
frame. -/
structure RunRecord (α : Type) where
  /-- The particle. -/
  particle : Nat
  /-- When it starts. -/
  startTime : α
  /-- How long it lives. -/
  duration : α
  /-- The pause between two lives. -/
  delay : α
  /-- The partition of the run. -/
  partition : PartitionId
  /-- The position of the partition in the geometry. -/
  position : Nat
  /-- The first vertex. -/
  first : Nat
  /-- How many vertices there are. -/
  count : Nat
deriving DecidableEq

/-- The time at which a particle left its emitter in its current loop: its start
unless it loops. -/
def RunRecord.emissionTime {α : Type} [Scalar α] (r : RunRecord α) (looping : Bool) (now : α) : α :=
  let period := r.duration + r.delay
  if !looping ∨ now ≤ r.startTime ∨ period ≤ Scalar.zero then r.startTime
  else r.startTime + Scalar.floor ((now - r.startTime) / period) * period

/-- The data of one partition that is made once. -/
structure Bake (α : Type) where
  /-- The partition. -/
  partition : PartitionId
  /-- How many vertices it has. -/
  vertices : Nat
  /-- The length of a record. -/
  stride : Nat
  /-- The length of a record of the dynamic buffer beside it. -/
  dynamicStride : Nat
  /-- The records of the vertices. -/
  rows : Array (List α)
  /-- The runs, kept if some node is evaluated for every frame. -/
  runs : List (RunRecord α)

/-- The record of a vertex. -/
def Bake.vertex? {α : Type} (b : Bake α) (vertex : Nat) : Option (List α) :=
  recordOf b.stride b.rows vertex

/-- Data that several meshes may hold together. The buffer tells whether it is the
same. -/
structure SharedBake (α : Type) where
  /-- The identity of the buffer. -/
  buffer : Nat
  /-- The data in it. -/
  bake : Bake α

/-- The data of one partition that is refilled for every frame. -/
structure DynamicBuffer (α : Type) where
  /-- The length of a record. -/
  stride : Nat
  /-- The records of the vertices. -/
  rows : Array (List α)
  /-- Whether it was written since it was made. -/
  dirty : Bool := false

namespace DynamicBuffer

variable {α : Type}

/-- A buffer of zeros, if its length is a size. -/
def zero [Scalar α] (vertices stride : Nat) : Except Fault (DynamicBuffer α) := do
  let _ ← Size.mul vertices stride
  return { stride, rows := Array.replicate vertices (zeroRecord stride) }

/-- How many vertices can be told apart in the buffer. -/
def vertices (b : DynamicBuffer α) : Nat := if b.stride = 0 then 0 else b.rows.size

/-- The record of a vertex. -/
def vertex? (b : DynamicBuffer α) (vertex : Nat) : Option (List α) :=
  recordOf b.stride b.rows vertex

/-- Writes values from `offset` on in the records of `count` vertices. -/
def write (b : DynamicBuffer α) (first count offset : Nat) (values : List α) : DynamicBuffer α :=
  let rows := (List.range' first count).foldl
    (fun rows vertex => rows.modify vertex (overwrite · offset values)) b.rows
  { b with rows, dirty := true }

end DynamicBuffer

end ParticleShader
