import ParticleShader.Node.Constants

/-!
# Sets of nodes

A set keeps its nodes in the order in which they emit code: by priority, and
among equals in the order in which they were added. Handles and places in the
records are given out in the order of addition and never change.

Time is kept by a node of its own. It has the handle `0` and joins the set with
the first other node, so a set without nodes has an empty record.

A node joins a set step by step (`join`): it is asked whether it goes with the set
and raises its features, time is kept, the node gets its handle, and the record
that it is kept in grows. A node that does not go with the set changes nothing; a
record that outgrows the sizes is found out when all but the growing is done.
-/

namespace ParticleShader

/-- Nodes in emission order and the layout of their records. -/
structure NodeSet (α : Type) where
  /-- What the nodes found and raised. -/
  settings : Settings := {}
  /-- The nodes in emission order. -/
  nodes : List (Node α) := []
  /-- The length of a record of the baked buffer. -/
  stride : Nat := 0
  /-- The length of a record of the dynamic buffer. -/
  dynamicStride : Nat := 0
  /-- The handle of the next node. The first one belongs to the node that keeps time. -/
  next : NodeId := nodes.length - 1 + 1

/-- A step that changes a set of nodes. At a fault the set is left as the steps before made
it. -/
abbrev Joining (α β : Type) : Type := EStateM Fault (NodeSet α) β

namespace NodeSet

variable {α : Type}

/-- The handle of the node that keeps time. -/
def timeId : NodeId := 0

/-- A set without nodes for particles that live as given. -/
def empty (lifecycle : Lifecycle) : NodeSet α := { settings := { lifecycle } }

/-- Whether the node that keeps time has joined the set. -/
def timeActive (s : NodeSet α) : Bool := !s.nodes.isEmpty

/-- The node with a handle. -/
def node? (s : NodeSet α) (id : NodeId) : Option (Node α) := s.nodes.find? (·.id == id)

/-- The nodes whose parameters are kept in a buffer. -/
def nodesIn (s : NodeSet α) (buffer : Buffer) : List (Node α) :=
  s.nodes.filter fun n => n.behavior.mode = .perParticle buffer

/-- Whether some node has parameters in the dynamic buffer. -/
def hasDynamic (s : NodeSet α) : Bool := !(s.nodesIn .dynamic).isEmpty

/-- Puts a node behind the nodes of its priority and before those of a larger one. -/
def insertNode (n : Node α) : List (Node α) → List (Node α)
  | [] => [n]
  | m :: ms =>
    if m.behavior.priority ≤ n.behavior.priority then m :: insertNode n ms else n :: m :: ms

/-- The set with the node that keeps time. -/
def withTime (s : NodeSet α) : NodeSet α :=
  if s.timeActive then s
  else
    let time : Behavior α := .time s.settings.lifecycle
    { s with nodes := [{ behavior := time, id := timeId }], stride := time.length }

/-- Raises the features of a behavior that goes with the set. -/
def raise [Scalar α] (b : Behavior α) : Joining α Unit := do
  let s ← get
  let raised ← MonadExcept.ofExcept (b.accept s.settings)
  set { s with settings := { s.settings with features := s.settings.features ∪ raised } }

/-- Gives a behavior its handle and its place at the end of the record that it is
kept in. -/
def place (b : Behavior α) : Joining α (Node α) := do
  let s ← get
  let node : Node α := { behavior := b, id := s.next }
  set { s with next := s.next + 1 }
  match b.mode with
  | .global => return node
  | .perParticle .baked =>
    let stride ← MonadExcept.ofExcept (Size.add s.stride b.length)
    modify fun s => { s with stride }
    return { node with offset := s.stride }
  | .perParticle .dynamic =>
    let dynamicStride ← MonadExcept.ofExcept (Size.add s.dynamicStride b.length)
    modify fun s => { s with dynamicStride }
    return { node with dynamicOffset := s.dynamicStride }

/-- Adds a node, if it goes with the set, and gives its handle. -/
def join [Scalar α] (b : Behavior α) : Joining α NodeId := do
  raise b
  modify withTime
  let node ← place b
  modify fun s => { s with nodes := insertNode node s.nodes }
  return node.id

/-- The set with one more node and the handle of the node, if it can be added. -/
def add [Scalar α] (s : NodeSet α) (b : Behavior α) : Except Fault (NodeSet α × NodeId) :=
  match join b s with
  | .ok id s => .ok (s, id)
  | .error fault _ => .error fault

end NodeSet

end ParticleShader
