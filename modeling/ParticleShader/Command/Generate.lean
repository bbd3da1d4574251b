import ParticleShader.Command.Report
import ParticleShader.Command.Request
import ParticleShader.Text.ByteSize

/-!
# Generating data

The data of a described set for particles on a circle: their directions are
spread evenly, they start one after the other, and every property is set.
-/

namespace ParticleShader.Command

section

variable {α : Type} [Scalar α]

/-- A particle on the circle. It is accelerated downwards, turns more slowly the
later it comes, and takes on green. -/
def circleParticle (sin cos : α → α) (interval duration : α) (p : Particle α) : Particle α :=
  let zero : α := Scalar.zero
  let one : α := Scalar.one
  let share := Scalar.nat p.index / Scalar.nat (max p.total 1)
  let angle := share * Scalar.tau
  let direction : Vec3 α := ⟨cos angle, zero, sin angle⟩
  { p with
    startTime := Scalar.nat p.index * interval
    duration := duration
    position := some direction
    velocity := some (direction + Vec3.unitY)
    acceleration := some ⟨zero, Scalar.neg one, zero⟩
    scale := some ⟨one, Scalar.two, one, zero⟩
    rotationalVelocity := some ⟨zero, one, zero, one + share⟩
    colorStart := some ColorTransform.identity
    colorEnd := some ⟨⟨one, share, zero, one⟩, Vec4.zero⟩
    uv := some ⟨one, one⟩ }

end

/-- The geometry of equal particles. -/
def circleGeometry (options : GenerateOptions) : Except Fault ParticleGeometry := do
  let builder ← (List.range options.particles).foldlM
    (fun (b : GeometryBuilder) _ => return (← b.addParticle options.vertices).1)
    (.ofCapacity options.capacity)
  match builder.build {} with
  | .ok geometry _ => return geometry
  | .error fault _ => throw fault

/-- The first run of every particle. -/
def leadingRuns : List Run → List Run
  | first :: second :: rest =>
    if first.particle = second.particle then leadingRuns (first :: rest)
    else first :: leadingRuns (second :: rest)
  | runs => runs
termination_by runs => runs.length

/-- The line of the first vertex of a run. -/
def recordLine (bakes : Array (Bake Float32)) (run : Run) : Option String := do
  let bake ← bakes[run.partition]?
  let record ← bake.vertex? run.first
  let particle := Text.padLeft 4 (toString run.particle)
  let vertex := Text.padRight 5 (toString run.first)
  return s!"  particle {particle} p{run.partition} v{vertex} {Scalar.listText record}"

/-- What is printed of generated data, and the file it goes to. -/
def dataReport (options : GenerateOptions) (set : NodeSet Float32) (runs : List Run)
    (bakes : List (Bake Float32)) : Report :=
  let floats := (bakes.map fun b => b.stride * b.rows.size).foldl (· + ·) 0
  let size := Text.byteSize (4 * floats)
  let summary :=
    [s!"Particles:      {options.particles}",
     s!"Vertices:       {options.particles * options.vertices}",
     s!"Partitions:     {bakes.length}",
     s!"Record stride:  {set.stride}",
     s!"Dynamic stride: {set.dynamicStride}",
     s!"Buffer length:  {floats} floats ({size})"]
  let records :=
    if options.dump then (leadingRuns runs).filterMap (recordLine bakes.toArray) else []
  { printed := printLines (summary ++ records)
    file := options.output.map fun path =>
      { path
        values := bakes.flatMap fun b => b.rows.toList.flatten
        confirmation := printLines [s!"Wrote {size} to {path}"] } }

/-- Generates the data of a description, with the given sine and cosine. -/
def generate (sin cos : Float32 → Float32) (description : Description Float32)
    (options : GenerateOptions) : Report :=
  match description.animation (σ := Unit) with
  | .error failure => .failed failure
  | .ok animation =>
    match circleGeometry options with
    | .error fault => .failed (.faultDuring "Failed to build particle geometry" fault)
    | .ok geometry =>
      let initializer : Initializer Unit Float32 := fun p =>
        pure (circleParticle sin cos options.interval options.duration p)
      let animation := { animation with initializer := some initializer }
      let mesh := Mesh.ofGeometry (.particles geometry) true
      match (animation.generate mesh 0).run () with
      | (.error fault, _) => .failed (.faultDuring "Animation data generation failed" fault)
      | (.ok (animation, mesh, _), _) =>
        dataReport options animation.nodes geometry.runs (mesh.bakes.filterMap (·.map (·.bake)))

end ParticleShader.Command
