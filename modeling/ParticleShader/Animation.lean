import ParticleShader.Mesh
import ParticleShader.NodeSet

/-!
# Animations

An animation is a set of nodes with the function that initializes the particles
and the data that was already made for the layout of the set.

Data is made particle by particle. The initializer sees the particles in order
and may keep a state of type `σ` from one call to the next; the nodes then give
their values, which are copied to all vertices of the particle. Data is attached
to the mesh only when all particles are done.

Adding a node and making data change what they work on step by step (`join`,
`make`), and a fault leaves what the steps before it did. `add` and `generate` give
the outcome alone.
-/

namespace ParticleShader

/-- What sets the properties of a particle. -/
abbrev Initializer (σ α : Type) : Type := Particle α → StateM σ (Particle α)

/-- A set of nodes with an initializer and data that may be used again. -/
structure Animation (σ α : Type) where
  /-- The nodes. -/
  nodes : NodeSet α
  /-- What sets the properties of the particles. -/
  initializer : Option (Initializer σ α) := none
  /-- Data for the layout of the nodes, the newest first. -/
  kept : List (SharedBake α) := []

/-- What data is made with. -/
structure Workshop (σ α : Type) where
  /-- The animation that makes the data. -/
  animation : Animation σ α
  /-- The mesh that is given the data. -/
  mesh : Mesh α
  /-- The first buffer that is not in use. -/
  buffer : Nat
  /-- The state of the initializer. -/
  memory : σ

/-- A step of making data. At a fault everything is left as the steps before made it. -/
abbrev Making (σ α β : Type) : Type := EStateM Fault (Workshop σ α) β

/-- The life of the vertices of a run: that of its particle. -/
def Run.recordFor {α : Type} (run : Run) (partition : PartitionId) (particle : Particle α) :
    RunRecord α where
  particle := run.particle
  startTime := particle.startTime
  duration := particle.duration
  delay := particle.delay
  partition := partition
  position := run.partition
  first := run.first
  count := run.count

/-- Data in the making: the records of the first vertices of a partition. -/
structure Draft (α : Type) where
  /-- The partition. -/
  partition : Partition
  /-- The records so far. -/
  rows : Array (List α) := #[]
  /-- The runs so far. -/
  runs : Array (RunRecord α) := #[]

namespace Draft

variable {α : Type}

/-- A draft without records, if the length of the buffer is a size. -/
def ofPartition (partition : Partition) (stride : Nat) : Except Fault (Draft α) := do
  let _ ← Size.mul partition.vertices stride
  return { partition }

/-- The draft with the vertices of one more run. -/
def push (d : Draft α) (run : Run) (particle : Particle α) (record : List α) (keepRun : Bool) :
    Draft α :=
  { d with
    rows := d.rows ++ Array.replicate run.count record
    runs := if keepRun then d.runs.push (run.recordFor d.partition.id particle) else d.runs }

/-- The data of a draft. Vertices of no run have a record of zeros. -/
def bake [Scalar α] (d : Draft α) (stride dynamicStride : Nat) : Bake α where
  partition := d.partition.id
  vertices := d.partition.vertices
  stride := stride
  dynamicStride := dynamicStride
  rows := d.rows ++ Array.replicate (d.partition.vertices - d.rows.size) (zeroRecord stride)
  runs := d.runs.toList

end Draft

namespace Animation

variable {σ α : Type} [Scalar α]

/-- An animation without nodes. -/
def empty (lifecycle : Lifecycle) : Animation σ α := { nodes := NodeSet.empty lifecycle }

/-- Adds a node. Data that was made for the layout before is given up when the node has
joined the set. -/
def join (b : Behavior α) : EStateM Fault (Animation σ α) NodeId := fun a =>
  match NodeSet.join b a.nodes with
  | .ok id nodes => .ok id { a with nodes, kept := [] }
  | .error fault nodes => .error fault { a with nodes }

/-- The animation with one more node and the handle of the node, if it can be added. -/
def add (a : Animation σ α) (b : Behavior α) : Except Fault (Animation σ α × NodeId) := do
  let (nodes, id) ← a.nodes.add b
  return ({ a with nodes, kept := [] }, id)

/-- Gives up the data of the partitions of a geometry. -/
def invalidate (a : Animation σ α) (geometry : Geometry) : Animation σ α :=
  let gone := geometry.partitions.map (·.id)
  { a with kept := a.kept.filter fun k => !gone.contains k.bake.partition }

/-! ### Making data -/

/-- The record of a particle: zeros with the values of the nodes in their places. -/
def record (nodes : List (Node α)) (stride : Nat) (p : Particle α) : Except Fault (List α) :=
  nodes.foldlM (fun record n => return overwrite record n.offset (← n.behavior.values p))
    (zeroRecord stride)

/-- Puts a run of a particle into the draft of its partition, if there is one. -/
def draftRun (particle : Particle α) (record : List α) (keepRun : Bool)
    (drafts : Array (Option (Draft α))) (run : Run) : Except Fault (Array (Option (Draft α))) :=
  let filled := drafts[run.partition]?.join.map (·.rows.size)
  match filled with
  | none => .ok drafts
  | some filled =>
    if filled = run.first then
      .ok (drafts.modify run.partition (Option.map (·.push run particle record keepRun)))
    else
      .error (.geometryMismatch
        (.misplacedData run.particle run.first run.partition filled))

/-- Initializes the given particles and puts their runs, the next ones of `runs`,
into the drafts. The initializer is told the total; if it sets another one, it is
told that from the next particle on. -/
def draftParticles (set : NodeSet α) (initializer : Initializer σ α) :
    Nat → List Nat → List Run → Array (Option (Draft α)) →
      ExceptT Fault (StateM σ) (Array (Option (Draft α)))
  | _, [], _, drafts => pure drafts
  | total, index :: rest, runs, drafts => do
    let particle ← initializer (Particle.default index total)
    let record ← ExceptT.mk (pure (record (set.nodesIn .baked) set.stride particle))
    let (mine, others) := runs.span (·.particle == index)
    let drafts ← ExceptT.mk
      (pure (mine.foldlM (draftRun particle record set.hasDynamic) drafts))
    draftParticles set initializer particle.total rest others drafts

/-- The data that may be used again for a partition. -/
def reusable? (a : Animation σ α) (mesh : Mesh α) (partition : Partition) :
    Option (SharedBake α) :=
  if mesh.share then
    a.kept.find? fun k =>
      k.bake.partition == partition.id && k.bake.stride == a.nodes.stride &&
        k.bake.dynamicStride == a.nodes.dynamicStride
  else none

/-- An empty draft for every partition that needs data. -/
def newDrafts (a : Animation σ α) (mesh : Mesh α) (partitions : List Partition) :
    Except Fault (List (Option (Draft α))) :=
  partitions.mapM fun partition =>
    if (a.reusable? mesh partition).isSome then .ok none
    else some <$> Draft.ofPartition partition a.nodes.stride

/-- Gives the drafts buffers from `buffer` on; partitions without a draft keep
the data that is used again. -/
def attach (a : Animation σ α) (buffer : Nat) :
    List (Option (SharedBake α)) → List (Option (Draft α)) →
      List (SharedBake α) × List (SharedBake α) × Nat
  | some used :: slots, _ :: drafts =>
    let (all, fresh, next) := attach a buffer slots drafts
    (used :: all, fresh, next)
  | none :: slots, some draft :: drafts =>
    let made : SharedBake α := ⟨buffer, draft.bake a.nodes.stride a.nodes.dynamicStride⟩
    let (all, fresh, next) := attach a (buffer + 1) slots drafts
    (made :: all, made :: fresh, next)
  | _, _ => ([], [], buffer)

/-- Initializes the particles of a geometry and puts their runs into drafts, if there is a
draft. What the initializer did to its state stays done at a fault. -/
def fillDrafts (initializer : Initializer σ α) (geometry : ParticleGeometry)
    (drafts : List (Option (Draft α))) : Making σ α (List (Option (Draft α))) := fun w =>
  if drafts.any Option.isSome then
    let (outcome, memory) := (draftParticles w.animation.nodes initializer geometry.particles
      (List.range geometry.particles) geometry.runs drafts.toArray).run w.memory
    match outcome with
    | .ok drafts => .ok drafts.toList { w with memory }
    | .error fault => .error fault { w with memory }
  else .ok drafts w

/-- Gives the mesh the data of all partitions, in buffers that are not in use, and keeps it
if meshes share their data. -/
def handOver (geometry : ParticleGeometry) (drafts : List (Option (Draft α))) :
    Making σ α Unit :=
  modify fun w =>
    let used := geometry.partitions.map (w.animation.reusable? w.mesh)
    let (all, fresh, next) := w.animation.attach w.buffer used drafts
    let kept := if w.mesh.share then fresh ++ w.animation.kept else w.animation.kept
    { w with
      animation := { w.animation with kept }
      mesh := { w.mesh with bakes := all.map some }
      buffer := next }

/-- Makes the data of every partition of the mesh, or uses again what was made for the same
layout. Nothing but the state of the initializer changes before all data is there. -/
def make : Making σ α Unit := do
  let w ← get
  match w.animation.initializer, w.mesh.geometry with
  | none, _ => throw .missingInitializer
  | some _, .static _ _ => throw .notParticleGeometry
  | some initializer, .particles geometry =>
    if (← MonadExcept.ofExcept geometry.vertices) = 0 then throw .emptyGeometry
    let drafts ← MonadExcept.ofExcept (w.animation.newDrafts w.mesh geometry.partitions)
    let drafts ← fillDrafts initializer geometry drafts
    handOver geometry drafts

/-- What making the data of a mesh comes to: the animation, the mesh and the first buffer that
is not in use, if the data can be made. New data is put into buffers from `buffer` on. -/
def generate (a : Animation σ α) (mesh : Mesh α) (buffer : Nat) :
    ExceptT Fault (StateM σ) (Animation σ α × Mesh α × Nat) :=
  ExceptT.mk fun memory =>
    match make ⟨a, mesh, buffer, memory⟩ with
    | .ok _ w => (.ok (w.animation, w.mesh, w.buffer), w.memory)
    | .error fault w => (.error fault, w.memory)

/-! ### Filling data for a frame -/

/-- What writes the values of a node for a run; it is given zeros. -/
abbrev Fill (σ α : Type) : Type := {n : Nat} → RunRecord α → Vector α n → StateM σ (Vector α n)

/-- Writes the values of a node for every run of one partition. -/
def fillRuns (fill : Fill σ α) (offset length : Nat) :
    List (RunRecord α) → DynamicBuffer α → StateM σ (DynamicBuffer α)
  | [], buffer => pure buffer
  | run :: runs, buffer => do
    let values ← fill run (Vector.replicate length Scalar.zero)
    fillRuns fill offset length runs (buffer.write run.first run.count offset values.toList)

/-- The dynamic buffer of a partition if it fits its data, or one of zeros. -/
def currentBuffer (bake : Bake α) (stride : Nat) (buffer : Option (DynamicBuffer α)) :
    Except Fault (DynamicBuffer α) :=
  match buffer with
  | some b =>
    if b.stride = stride ∧ b.vertices = bake.vertices then .ok b
    else DynamicBuffer.zero bake.vertices stride
  | none => DynamicBuffer.zero bake.vertices stride

/-- Writes the values of a node for the partitions of a mesh from `position` on.
The buffers are given also where a partition ends it with a fault. -/
def fillPartitions (fill : Fill σ α) (offset length stride : Nat) :
    Nat → List (Option (SharedBake α)) → List (Option (DynamicBuffer α)) →
      StateM σ (Except Fault Unit × List (Option (DynamicBuffer α)))
  | position, slot :: slots, buffer :: buffers => do
    match slot with
    | none => return (.error (.geometryMismatch (.noData position)), buffer :: buffers)
    | some shared =>
      if shared.bake.dynamicStride ≠ stride then
        return (.error (.geometryMismatch (.otherLayout position shared.bake.dynamicStride stride)),
          buffer :: buffers)
      match currentBuffer shared.bake stride buffer with
      | .error fault => return (.error fault, buffer :: buffers)
      | .ok current =>
        let written ← fillRuns fill offset length shared.bake.runs current
        let (outcome, rest) ←
          fillPartitions fill offset length stride (position + 1) slots buffers
        return (outcome, some written :: rest)
  | _, _, buffers => return (.ok (), buffers)

/-- Writes the values of a node for every run of a mesh. -/
def writeDynamic (a : Animation σ α) (mesh : Mesh α) (id : NodeId) (fill : Fill σ α) :
    StateM σ (Except Fault Unit × Mesh α) := do
  match (a.nodes.nodesIn .dynamic).find? (·.id == id) with
  | none => return (.error (.unknownNode id), mesh)
  | some node =>
    let (outcome, dynamics) ←
      fillPartitions fill node.dynamicOffset node.behavior.length a.nodes.dynamicStride 0
        mesh.bakes mesh.dynamics
    return (outcome, { mesh with dynamics })

end Animation

end ParticleShader
