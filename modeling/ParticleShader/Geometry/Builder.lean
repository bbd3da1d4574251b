import ParticleShader.Geometry

/-!
# Building particle geometry

A builder collects particles into partitions of bounded size. Particles are
added to the current partition; one that does not fit begins a new partition,
and one that fits into none is spread over several.
-/

namespace ParticleShader

/-- Particles that are collected into partitions. -/
structure GeometryBuilder where
  /-- How many vertices a partition may hold. -/
  capacity : Nat
  /-- The sizes of the partitions before the current one. -/
  closed : Array Nat := #[]
  /-- The size of the current partition. -/
  current : Nat := 0
  /-- The runs so far. -/
  runs : Array Run := #[]
  /-- The particle that is added next. -/
  next : Nat := 0
  /-- A partition holds at least one vertex. -/
  capacity_pos : 0 < capacity

namespace GeometryBuilder

/-- How many vertices a partition may hold unless the user says otherwise. -/
def defaultCapacity : Nat := 65535

/-- A builder for partitions of at most `capacity` vertices, at least one. -/
def ofCapacity (capacity : Nat) : GeometryBuilder where
  capacity := max capacity 1
  capacity_pos := by omega

/-- Closes the current partition unless it is empty. -/
def split (b : GeometryBuilder) : GeometryBuilder :=
  if 0 < b.current then { b with closed := b.closed.push b.current, current := 0 } else b

/-- Puts vertices of a particle at the end of the current partition. -/
def pushRun (b : GeometryBuilder) (particle count : Nat) : GeometryBuilder :=
  if count = 0 then b
  else
    let run : Run := { particle, partition := b.closed.size, first := b.current, count }
    { b with runs := b.runs.push run, current := b.current + count }

/-- A builder whose current partition has room. -/
def withRoom (b : GeometryBuilder) : GeometryBuilder :=
  if b.current < b.capacity then b else b.split

theorem withRoom_current_lt (b : GeometryBuilder) : b.withRoom.current < b.withRoom.capacity := by
  have := b.capacity_pos
  unfold withRoom split
  split
  · assumption
  · split <;> simp_all

/-- Puts vertices of a particle behind each other, in a new partition whenever the
current one is full. -/
def pushRuns (b : GeometryBuilder) (particle : Nat) : Nat → GeometryBuilder
  | 0 => b
  | remaining + 1 =>
    let count := min (remaining + 1) (b.withRoom.capacity - b.withRoom.current)
    pushRuns (b.withRoom.pushRun particle count) particle (remaining + 1 - count)
termination_by remaining => remaining
decreasing_by
  have := b.withRoom_current_lt
  omega

/-- Adds a particle and gives its index. -/
def addParticle (b : GeometryBuilder) (vertices : Nat) : Except Fault (GeometryBuilder × Nat) := do
  let index := b.next
  let needed ← if b.current = 0 then pure 0 else Size.add b.current vertices
  let filled := (if needed ≤ b.capacity then b else b.split).pushRuns index vertices
  return ({ filled with next := ← Size.add index 1 }, index)

/-- Adds vertices of the last or of a later particle to the current partition. -/
def addRun (b : GeometryBuilder) (particle vertices : Nat) : Except Fault GeometryBuilder := do
  if particle + 1 < b.next then throw (.geometryMismatch (.addedLate particle (b.next - 1)))
  if b.capacity < (← Size.add b.current vertices) then
    throw (.geometryMismatch (.oversizedRun vertices b.capacity))
  return { b.pushRun particle vertices with next := max b.next (← Size.add particle 1) }

/-- The sizes of the partitions; an empty last one counts only if it is the only
one. -/
def sizes (b : GeometryBuilder) : List Nat :=
  if b.current = 0 ∧ 0 < b.closed.size then b.closed.toList else b.closed.toList ++ [b.current]

/-- The geometry of the collected particles. -/
def build (b : GeometryBuilder) : Identified ParticleGeometry :=
  ParticleGeometry.ofParts b.sizes b.runs.toList b.next

end GeometryBuilder

end ParticleShader
