import ParticleShader.Proofs.Node.Computation
import ParticleShader.Proofs.NodeSet.Features

/-!
# The motion behind many nodes

Nodes move a vertex one after the other, in the order of their priorities. Time is kept
before anything depends on it, and the velocity is accumulated before a node turns the
particle along it. So in the end it makes no difference when a node had its turn: the
displacement is the sum of the ways, the velocity the sum of the changes, and the vertex
is deformed by every node, all at the time that is kept in the end.
-/

namespace ParticleShader

variable {α K : Type}

/-! ### Kinds of behaviors -/

namespace Behavior

/-- It keeps the time. -/
def isTime : Behavior α → Bool
  | .time _ => true
  | _ => false

/-- It displaces the particle. -/
def isPosition : Behavior α → Bool
  | .position _ => true
  | _ => false

/-- It moves the particle at a constant velocity. -/
def isVelocity : Behavior α → Bool
  | .velocity _ => true
  | _ => false

/-- It accelerates the particle. -/
def isAcceleration : Behavior α → Bool
  | .acceleration _ => true
  | _ => false

/-- It offsets the placed vertex. -/
def isFollow : Behavior α → Bool
  | .follow => true
  | _ => false

/-- It has a value that moves the particle. -/
def moves (b : Behavior α) : Bool :=
  b.isPosition || b.isVelocity || b.isAcceleration || b.isFollow

/-- What the register of a value holds: an acceleration is kept as one half of it. -/
def held [Field K] (value : Fin 3 → K) : Behavior α → Fin 3 → K
  | .acceleration _ => (1 / (2 : Nat) : K) • value
  | _ => value

end Behavior

/-- The sum of the values of the nodes of a kind. -/
def total [Field K] (kind : Behavior α → Bool) (values : Node α → Fin 3 → K)
    (nodes : List (Node α)) : Fin 3 → K :=
  ((nodes.filter (kind ·.behavior)).map values).sum

/-! ### The order of the nodes -/

/-- One node stands before another one: its priority is not larger. -/
def Node.Before (m n : Node α) : Prop := m.behavior.priority ≤ n.behavior.priority

namespace NodeSet

/-- **The order of the nodes**: those of a built set stand in the order of their priorities. -/
theorem Built.sorted [Scalar α] {s : NodeSet α} (h : s.Built) : s.nodes.Pairwise Node.Before :=
  h.grown.joined.sorted.imp Node.Precedes.priority_le

end NodeSet

/-! ### One node after the other -/

section

variable [Field K] [LinearOrder K] [FloorRing K]

namespace Behavior

variable {F : Functions K} {on : Features} {b : Behavior α} {value : Fin 3 → K}
  {time time' : K}

omit [LinearOrder K] [FloorRing K] in
theorem way_congr (h : 0 < b.priority → time = time') : b.way value time = b.way value time' := by
  cases b with
  | velocity | acceleration => rw [h Int.one_pos]
  | _ => rfl

omit [LinearOrder K] [FloorRing K] in
theorem speed_congr (h : 0 < b.priority → time = time') :
    b.speed value time = b.speed value time' := by
  cases b with
  | acceleration => rw [h Int.one_pos]
  | _ => rfl

theorem deform_congr {i : Inputs K} {life life' : K} {velocity velocity' v : Fin 3 → K}
    (htime : 0 < b.priority → time = time' ∧ life = life')
    (hvelocity : b.raised.velocity = true → velocity = velocity') :
    b.deform F on i time life velocity v = b.deform F on i time' life' velocity' v := by
  cases b with
  | scale curve value =>
    obtain ⟨rfl, rfl⟩ := htime Int.one_pos
    rfl
  | rotationalVelocity value =>
    obtain ⟨rfl, rfl⟩ := htime (by simp [priority])
    rfl
  | rotateToHeading =>
    obtain rfl := hvelocity rfl
    rfl
  | _ => rfl

/-- A node of the color block moves nothing. -/
theorem move_of_color (hcatalogue : b.IsCatalogue) (hblock : Block.ofPriority b.priority = .color)
    (i : Inputs K) (a : Motion K) : b.move F on i a = a := by
  cases b with
  | color animation => exact move_color animation
  | custom node => exact hcatalogue.elim
  | _ => simp [priority, Block.ofPriority, Block.colorPriority, Block.postPriority] at hblock

/-- A node behind the placement offsets the vertex if it follows. -/
theorem deform_of_post (hcatalogue : b.IsCatalogue) (hblock : Block.ofPriority b.priority = .post)
    (i : Inputs K) (life : K) (velocity v : Fin 3 → K) :
    b.deform F on i time life velocity v = v + if b.isFollow then i.vector else 0 := by
  cases b with
  | follow | uv | spriteSheet => simp [deform, isFollow]
  | custom node => exact hcatalogue.elim
  | _ => simp [priority, Block.ofPriority, Block.colorPriority, Block.postPriority] at hblock

end Behavior

/-- The motion behind nodes, one after the other, of which the registers hold some inputs. -/
def Motion.after (F : Functions K) (on : Features) (inputs : Node α → Inputs K)
    (nodes : List (Node α)) (a : Motion K) : Motion K :=
  nodes.foldl (fun a n => n.behavior.move F on (inputs n) a) a

namespace Motion

variable {F : Functions K} {on : Features} {inputs : Node α → Inputs K} {n : Node α}
  {nodes : List (Node α)} {a : Motion K}

theorem after_cons : a.after F on inputs (n :: nodes) =
    (n.behavior.move F on (inputs n) a).after F on inputs nodes := rfl

theorem after_append {nodes' : List (Node α)} : a.after F on inputs (nodes ++ nodes') =
    (a.after F on inputs nodes).after F on inputs nodes' := List.foldl_append

/-- Nothing moves behind nodes that move nothing. -/
theorem after_of_still (h : ∀ n ∈ nodes, ∀ i a, n.behavior.move F on i a = a) :
    a.after F on inputs nodes = a := by
  induction nodes generalizing a with
  | nil => rfl
  | cons n nodes ih =>
    obtain ⟨hn, hrest⟩ := List.forall_mem_cons.mp h
    rw [after_cons, ih hrest, hn]

/-- Time and life are what they were where no node keeps them. -/
theorem time_after (h : ∀ n ∈ nodes, n.behavior.isTime = false) :
    (a.after F on inputs nodes).time = a.time ∧ (a.after F on inputs nodes).life = a.life := by
  induction nodes generalizing a with
  | nil => exact ⟨rfl, rfl⟩
  | cons n nodes ih =>
    obtain ⟨hn, hrest⟩ := List.forall_mem_cons.mp h
    have hsame : (n.behavior.move F on (inputs n) a).time = a.time ∧
        (n.behavior.move F on (inputs n) a).life = a.life := by
      cases hbehavior : n.behavior with
      | time lifecycle => simp [hbehavior, Behavior.isTime] at hn
      | _ => exact ⟨rfl, rfl⟩
    obtain ⟨htime, hlife⟩ := ih (a := n.behavior.move F on (inputs n) a) hrest
    exact ⟨htime.trans hsame.1, hlife.trans hsame.2⟩

/-- The velocity is what it was where only nodes come that change no velocity. -/
theorem velocity_after_of_lt (h : ∀ n ∈ nodes, 1 < n.behavior.priority) :
    (a.after F on inputs nodes).velocity = a.velocity := by
  induction nodes generalizing a with
  | nil => rfl
  | cons n nodes ih =>
    obtain ⟨hn, hrest⟩ := List.forall_mem_cons.mp h
    refine (ih hrest).trans ?_
    cases hbehavior : n.behavior with
    | velocity value => simp [hbehavior, Behavior.priority] at hn
    | acceleration value => simp [hbehavior, Behavior.priority] at hn
    | _ => simp [hbehavior, Behavior.move, Behavior.speed]

/-- **Nothing comes too early**: where a node depends on time, on life or on the velocity,
these are what they are in the end. -/
theorem settled (hsorted : (n :: nodes).Pairwise Node.Before) :
    (0 < n.behavior.priority → (a.after F on inputs (n :: nodes)).time = a.time ∧
      (a.after F on inputs (n :: nodes)).life = a.life) ∧
    (1 < n.behavior.priority → (a.after F on inputs (n :: nodes)).velocity = a.velocity) := by
  have hall : ∀ m ∈ n :: nodes, n.Before m :=
    List.forall_mem_cons.mpr ⟨Int.le_refl _, (List.pairwise_cons.mp hsorted).1⟩
  refine ⟨fun hpositive => time_after fun m hm => ?_,
    fun hlate => velocity_after_of_lt fun m hm => ?_⟩
  · have hm := Int.lt_of_lt_of_le hpositive (hall m hm)
    cases hbehavior : m.behavior with
    | time lifecycle => simp [hbehavior, Behavior.priority] at hm
    | _ => rfl
  · exact Int.lt_of_lt_of_le hlate (hall m hm)

/-- Where no node is left that keeps the time, it is that of the end. -/
theorem time_take {count : Nat} (h : ∀ n ∈ nodes.drop count, n.behavior.isTime = false) :
    (a.after F on inputs (nodes.take count)).time = (a.after F on inputs nodes).time := by
  have hsplit : a.after F on inputs nodes =
      (a.after F on inputs (nodes.take count)).after F on inputs (nodes.drop count) := by
    rw [← after_append, List.take_append_drop]
  rw [hsplit, (time_after h).1]

/-- Where a node has its turn that depends on the velocity, it is that of the end. -/
theorem velocity_take {count : Nat} (hsorted : nodes.Pairwise Node.Before)
    (hn : nodes[count]? = some n) (hlate : 1 < n.behavior.priority) :
    (a.after F on inputs (nodes.take count)).velocity = (a.after F on inputs nodes).velocity := by
  obtain ⟨hlt, rfl⟩ := List.getElem?_eq_some_iff.mp hn
  have hdrop : nodes.drop count = nodes[count] :: nodes.drop (count + 1) :=
    List.drop_eq_getElem_cons hlt
  have hsplit : a.after F on inputs nodes = (a.after F on inputs (nodes.take count)).after F on
      inputs (nodes[count] :: nodes.drop (count + 1)) := by
    rw [← hdrop, ← after_append, List.take_append_drop]
  rw [hsplit, (settled (hdrop ▸ hsorted.drop)).2 hlate]

/-- The displacement is the sum of the ways, each at the time that is kept in the end. -/
theorem displacement_after (hsorted : nodes.Pairwise Node.Before) :
    (a.after F on inputs nodes).displacement = a.displacement +
      (nodes.map fun n =>
        n.behavior.way (inputs n).vector (a.after F on inputs nodes).time).sum := by
  induction nodes generalizing a with
  | nil => simp [after]
  | cons n nodes ih =>
    have hway : n.behavior.way (inputs n).vector (a.after F on inputs (n :: nodes)).time =
        n.behavior.way (inputs n).vector a.time :=
      Behavior.way_congr fun hpositive => ((settled hsorted).1 hpositive).1
    rw [List.map_cons, List.sum_cons, hway, after_cons, ih (List.pairwise_cons.mp hsorted).2,
      ← add_assoc]
    rfl

/-- The velocity is the sum of the changes, if it is accumulated. -/
theorem velocity_after (hon : on.velocity = true) (hsorted : nodes.Pairwise Node.Before) :
    (a.after F on inputs nodes).velocity = a.velocity +
      (nodes.map fun n =>
        n.behavior.speed (inputs n).vector (a.after F on inputs nodes).time).sum := by
  induction nodes generalizing a with
  | nil => simp [after]
  | cons n nodes ih =>
    have hspeed : n.behavior.speed (inputs n).vector (a.after F on inputs (n :: nodes)).time =
        n.behavior.speed (inputs n).vector a.time :=
      Behavior.speed_congr fun hpositive => ((settled hsorted).1 hpositive).1
    have hmove : (n.behavior.move F on (inputs n) a).velocity =
        a.velocity + n.behavior.speed (inputs n).vector a.time := if_pos hon
    rw [List.map_cons, List.sum_cons, hspeed, after_cons, ih (List.pairwise_cons.mp hsorted).2,
      hmove, add_assoc]

/-- The vertex is deformed by every node at the time, the life and the velocity that there
are in the end. -/
theorem vertex_after (hsorted : nodes.Pairwise Node.Before) :
    (a.after F on inputs nodes).vertex = nodes.foldl (fun v n =>
      n.behavior.deform F on (inputs n) (a.after F on inputs nodes).time
        (a.after F on inputs nodes).life (a.after F on inputs nodes).velocity v) a.vertex := by
  induction nodes generalizing a with
  | nil => rfl
  | cons n nodes ih =>
    have hdeform : ∀ v, n.behavior.deform F on (inputs n) (a.after F on inputs (n :: nodes)).time
        (a.after F on inputs (n :: nodes)).life (a.after F on inputs (n :: nodes)).velocity v =
          n.behavior.deform F on (inputs n) a.time a.life a.velocity v := by
      refine fun v => Behavior.deform_congr (settled hsorted).1 fun hraises => (settled hsorted).2 ?_
      cases hbehavior : n.behavior with
      | rotateToHeading => simp [Behavior.priority]
      | _ => simp [hbehavior, Behavior.raised] at hraises
    rw [List.foldl_cons, hdeform, after_cons, ih (List.pairwise_cons.mp hsorted).2]
    rfl

end Motion

/-! ### Sums of values -/

section

variable {kind : Behavior α → Bool} {values : Node α → Fin 3 → K} {nodes : List (Node α)}
  {inputs : Node α → Inputs K}

omit [LinearOrder K] [FloorRing K] in
@[simp] theorem total_nil : total kind values [] = 0 := rfl

omit [LinearOrder K] [FloorRing K] in
@[simp] theorem total_cons {n : Node α} : total kind values (n :: nodes) =
    (if kind n.behavior then values n else 0) + total kind values nodes := by
  unfold total
  rw [List.filter_cons]
  split <;> simp

omit [LinearOrder K] [FloorRing K] in
/-- Nodes of other kinds do not count. -/
theorem total_filter {p : Node α → Bool} (h : ∀ n, kind n.behavior = true → p n = true) :
    total kind values (nodes.filter p) = total kind values nodes := by
  unfold total
  rw [List.filter_filter]
  congr 2
  refine List.filter_congr fun n _ => ?_
  cases hkind : kind n.behavior with
  | false => rfl
  | true => exact h n hkind

/-- The registers of a node that moves the particle hold its value. -/
def Node.Supplied (n : Node α) (inputs : Node α → Inputs K) (values : Node α → Fin 3 → K) : Prop :=
  n.behavior.moves = true → (inputs n).vector = n.behavior.held (values n)

omit [LinearOrder K] [FloorRing K] in
theorem Node.Supplied.way {n : Node α} (h : n.Supplied inputs values) (t : K) :
    n.behavior.way (inputs n).vector t = n.behavior.way (n.behavior.held (values n)) t := by
  unfold Node.Supplied at h
  cases hbehavior : n.behavior <;> rw [hbehavior] at h
  case position | velocity | acceleration => rw [h rfl]
  all_goals rfl

omit [LinearOrder K] [FloorRing K] in
theorem Node.Supplied.speed {n : Node α} (h : n.Supplied inputs values) (t : K) :
    n.behavior.speed (inputs n).vector t = n.behavior.speed (n.behavior.held (values n)) t := by
  unfold Node.Supplied at h
  cases hbehavior : n.behavior <;> rw [hbehavior] at h
  case position | velocity | acceleration => rw [h rfl]
  all_goals rfl

variable [CharZero K]

omit [LinearOrder K] [FloorRing K] [CharZero K] in
theorem Behavior.way_held (b : Behavior α) (value : Fin 3 → K) (t : K) :
    b.way (b.held value) t = (if b.isPosition then value else 0) +
      t • (if b.isVelocity then value else 0) +
        (t * t / (2 : Nat)) • (if b.isAcceleration then value else 0) := by
  cases b <;> simp [way, held, isPosition, isVelocity, isAcceleration]
  module

omit [LinearOrder K] [FloorRing K] in
theorem Behavior.speed_held (b : Behavior α) (value : Fin 3 → K) (t : K) :
    b.speed (b.held value) t = (if b.isVelocity then value else 0) +
      t • (if b.isAcceleration then value else 0) := by
  cases b <;> simp [speed, held, isVelocity, isAcceleration]
  module

omit [LinearOrder K] [FloorRing K] in
/-- The ways add up to the position at a time. -/
theorem sum_way (h : ∀ n ∈ nodes, n.Supplied inputs values) (t : K) :
    (nodes.map fun n => n.behavior.way (inputs n).vector t).sum =
      total Behavior.isPosition values nodes + t • total Behavior.isVelocity values nodes +
        (t * t / (2 : Nat)) • total Behavior.isAcceleration values nodes := by
  induction nodes with
  | nil => simp
  | cons n nodes ih =>
    obtain ⟨hn, hrest⟩ := List.forall_mem_cons.mp h
    rw [List.map_cons, List.sum_cons, ih hrest, hn.way, Behavior.way_held, total_cons, total_cons,
      total_cons]
    module

omit [LinearOrder K] [FloorRing K] in
/-- The changes add up to the velocity at a time. -/
theorem sum_speed (h : ∀ n ∈ nodes, n.Supplied inputs values) (t : K) :
    (nodes.map fun n => n.behavior.speed (inputs n).vector t).sum =
      total Behavior.isVelocity values nodes + t • total Behavior.isAcceleration values nodes := by
  induction nodes with
  | nil => simp
  | cons n nodes ih =>
    obtain ⟨hn, hrest⟩ := List.forall_mem_cons.mp h
    rw [List.map_cons, List.sum_cons, ih hrest, hn.speed, Behavior.speed_held, total_cons,
      total_cons]
    module

omit [CharZero K] in
/-- Nodes behind the placement add the values of those that follow. -/
theorem foldl_post {F : Functions K} {on : Features} {t life : K} {velocity v : Fin 3 → K}
    (hcatalogue : ∀ n ∈ nodes, n.behavior.IsCatalogue)
    (hblock : ∀ n ∈ nodes, n.info.block = .post) (h : ∀ n ∈ nodes, n.Supplied inputs values) :
    nodes.foldl (fun v n => n.behavior.deform F on (inputs n) t life velocity v) v =
      v + total Behavior.isFollow values nodes := by
  induction nodes generalizing v with
  | nil => simp
  | cons n nodes ih =>
    rw [List.forall_mem_cons] at hcatalogue hblock h
    obtain ⟨hn, hrest⟩ := h
    rw [List.foldl_cons, ih hcatalogue.2 hblock.2 hrest,
      Behavior.deform_of_post hcatalogue.1 hblock.1, total_cons, add_assoc]
    unfold Node.Supplied at hn
    cases hbehavior : n.behavior <;> rw [hbehavior] at hn
    case follow => rw [hn rfl]; rfl
    all_goals rfl

end

end

end ParticleShader
