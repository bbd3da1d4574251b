import ParticleShader.Proofs.NodeSet.Grown

/-!
# Sets built from the catalogue

The sets that accepted additions of catalogue nodes lead to, and what all of them
have in common: the places of the nodes in a record do not overlap, and their handles
tell them apart.
-/

namespace ParticleShader

variable {α : Type}

/-- A behavior of the catalogue, not one of the user. -/
def Behavior.IsCatalogue : Behavior α → Prop
  | .custom _ => False
  | _ => True

/-- The features that a catalogue node raises wherever it is accepted. -/
def Behavior.raised : Behavior α → Features
  | .rotateToHeading => { velocity := true }
  | .billboard _ => { billboard := true }
  | .uv _ _ | .spriteSheet _ => { uvNode := true }
  | .color animation =>
    { colorMultiplier := animation.usesMultiplier, colorOffset := animation.usesOffset }
  | _ => {}

namespace NodeSet

/-- The sets that accepted additions of catalogue nodes lead to. -/
inductive Built [Scalar α] : NodeSet α → Prop where
  /-- A set without nodes. -/
  | empty (lifecycle : Lifecycle) : Built (NodeSet.empty lifecycle)
  /-- A set with one more node. -/
  | add {s s' : NodeSet α} {b : Behavior α} {id : NodeId} :
    Built s → b.IsCatalogue → s.add b = .ok (s', id) → Built s'

theorem Built.grown [Scalar α] {s : NodeSet α} (h : s.Built) : s.Grown := by
  induction h with
  | empty lifecycle => exact .empty lifecycle
  | add _ _ hadd ih => exact .add ih hadd

/-! ### The layout of the records -/

/-- The places of the nodes in the records of a buffer lie in the record and do
not overlap. -/
structure Laid (s : NodeSet α) (buffer : Buffer) : Prop where
  /-- They end inside the record. -/
  inside : ∀ n ∈ s.nodesIn buffer, n.offsetIn buffer + n.behavior.length ≤ s.strideOf buffer
  /-- They do not overlap. -/
  apart : (s.nodesIn buffer).Pairwise (Node.Apart buffer)

theorem Joined.laid {s : NodeSet α} {order : List (Node α)} (h : s.Joined order)
    (buffer : Buffer) : s.Laid buffer := by
  have hperm : (order.filter fun n => n.behavior.mode = .perParticle buffer).Perm
      (s.nodesIn buffer) := h.perm.filter _
  exact ⟨fun n hn => ((h.tiled buffer).inside n (hperm.mem_iff.mpr hn)).2,
    (hperm.pairwise_iff Node.Apart.symm).mp (h.tiled buffer).apart⟩

/-- **The layout of a built set**: no two nodes share a place in a record. -/
theorem Built.laid [Scalar α] {s : NodeSet α} (h : s.Built) (buffer : Buffer) : s.Laid buffer :=
  h.grown.joined.laid buffer

/-- A property that the behavior of the node that keeps time and every added
behavior have holds of all nodes. -/
theorem Built.forall_nodes [Scalar α] {P : Behavior α → Prop} {s : NodeSet α} (h : s.Built)
    (htime : ∀ lifecycle, P (.time lifecycle)) (hadd : ∀ b : Behavior α, b.IsCatalogue → P b) :
    ∀ n ∈ s.nodes, P n.behavior := by
  induction h with
  | empty lifecycle => exact fun n hn => by simp [NodeSet.empty] at hn
  | @add s s' b id _ hb hs ih =>
    obtain ⟨n, -, hn⟩ := add_eq_ok hs
    intro m hm
    rw [hn.nodes, mem_insertNode] at hm
    rcases hm with rfl | hm
    · rw [hn.behavior]
      exact hadd b hb
    · unfold withTime at hm
      split at hm
      · exact ih m hm
      · rw [List.mem_singleton] at hm
        subst hm
        exact htime _

theorem Built.isCatalogue [Scalar α] {s : NodeSet α} (h : s.Built) :
    ∀ n ∈ s.nodes, n.behavior.IsCatalogue :=
  h.forall_nodes (fun _ => trivial) fun _ hb => hb

/-! ### Handles -/

theorem Built.nodup_ids [Scalar α] {s : NodeSet α} (h : s.Built) :
    (s.nodes.map (·.id)).Nodup := h.grown.joined.nodup_ids

/-- Handles tell the nodes of a built set apart. -/
theorem Built.eq_of_id [Scalar α] {s : NodeSet α} (h : s.Built) {m n : Node α}
    (hm : m ∈ s.nodes) (hn : n ∈ s.nodes) (hid : m.id = n.id) : m = n :=
  List.inj_on_of_nodup_map h.nodup_ids hm hn hid

/-- A node of a built set is found by its handle. -/
theorem Built.node?_id [Scalar α] {s : NodeSet α} (h : s.Built) {n : Node α}
    (hn : n ∈ s.nodes) : s.node? n.id = some n := h.grown.joined.node?_eq_some.mpr ⟨hn, rfl⟩

end NodeSet

end ParticleShader
