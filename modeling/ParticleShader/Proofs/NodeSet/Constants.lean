import Mathlib.Data.List.Flatten
import Mathlib.Data.List.Lattice
import ParticleShader.Proofs.Node.Staging
import ParticleShader.Proofs.NodeSet.Compiled

/-!
# Where the constants lie

The constants that the nodes of a set take follow each other without a gap, and none is
taken twice: **`constantsOf_nodes`** says that the constants of all parameters together are
those behind the constant of the shared registers, each once. So every node finds its own
when it stages them.
-/

namespace ParticleShader

variable {α : Type}

/-- What a need is remembered by: the handle of the node and the number of the parameter. -/
def Need.key (need : Node α × Need) : NodeId × Nat := (need.1.id, need.2.slot)

namespace Ledger

/-- The constants that were taken for a parameter. -/
def constantsOf (l : Ledger) (need : Node α × Need) : List Nat :=
  match need.2 with
  | .constants slot count =>
    match l.indices.lookup (need.1.id, slot) with
    | some index => List.range' index count
    | none => []
  | .stream _ _ _ => []

theorem lookup_take_of_ne {l : Ledger} {n : Node α} {need : Need} {key : NodeId × Nat}
    (h : key ≠ Need.key (n, need)) :
    (l.take n need).indices.lookup key = l.indices.lookup key := by
  cases need with
  | constants slot count =>
    have hne : (key == (n.id, slot)) = false := beq_eq_false_iff_ne.mpr h
    show List.lookup key (((n.id, slot), l.constants) :: l.indices) = _
    rw [List.lookup_cons, hne]
  | stream slot start components =>
    have hne : (key == (n.id, slot)) = false := beq_eq_false_iff_ne.mpr h
    show List.lookup key (((n.id, slot), l.attributes) :: l.indices) = _
    rw [List.lookup_cons, hne]

/-- Other needs do not change where a parameter is. -/
theorem lookup_takeAll_of_notMem {l : Ledger} {needs : List (Node α × Need)}
    {key : NodeId × Nat} (h : key ∉ needs.map Need.key) :
    (l.takeAll needs).indices.lookup key = l.indices.lookup key := by
  induction needs generalizing l with
  | nil => rfl
  | cons need needs ih =>
    rw [List.map_cons, List.mem_cons, not_or] at h
    rw [takeAll_cons, ih h.2, lookup_take_of_ne h.1]

/-- Other needs do not change what is remembered of a parameter. -/
theorem index?_takeAll {c c' : Compilation α} {needs : List (Node α × Need)} {id : NodeId}
    {slot : Nat} (hledger : c'.ledger = c.ledger.takeAll needs)
    (h : (id, slot) ∉ needs.map Need.key) : c'.index? id slot = c.index? id slot := by
  have hindices : c'.indices = (c.ledger.takeAll needs).indices := congrArg indices hledger
  unfold Compilation.index?
  rw [hindices]
  exact lookup_takeAll_of_notMem h

theorem constants_le_take (l : Ledger) (n : Node α) (need : Need) :
    l.constants ≤ (l.take n need).constants := by
  cases need with
  | constants slot count => exact Nat.le_add_right ..
  | stream slot start components => exact Nat.le_refl _

theorem constants_le_takeAll (l : Ledger) (needs : List (Node α × Need)) :
    l.constants ≤ (l.takeAll needs).constants := by
  induction needs generalizing l with
  | nil => exact Nat.le_refl _
  | cons need needs ih => exact (constants_le_take l need.1 need.2).trans (ih _)

theorem lookup_take_self (l : Ledger) (n : Node α) (slot count : Nat) :
    (l.take n (.constants slot count)).indices.lookup (n.id, slot) = some l.constants :=
  List.lookup_cons_self

/-- Constants that are taken lie between what is taken before and what is taken in the
end. -/
theorem exists_index_takeAll {l : Ledger} {needs : List (Node α × Need)}
    (hnodup : (needs.map Need.key).Nodup) {n : Node α} {slot count : Nat}
    (hneed : (n, .constants slot count) ∈ needs) :
    ∃ index, (l.takeAll needs).indices.lookup (n.id, slot) = some index ∧
      l.constants ≤ index ∧ index + count ≤ (l.takeAll needs).constants := by
  induction needs generalizing l with
  | nil => simp at hneed
  | cons need needs ih =>
    rw [List.map_cons, List.nodup_cons] at hnodup
    rcases List.mem_cons.mp hneed with rfl | hrest
    · have hlater := constants_le_takeAll (l.take n (.constants slot count)) needs
      refine ⟨l.constants, ?_, Nat.le_refl _, hlater⟩
      rw [← lookup_take_self l n slot count]
      exact lookup_takeAll_of_notMem hnodup.1
    · obtain ⟨index, hindex, hlow, hhigh⟩ := ih hnodup.2 hrest
      exact ⟨index, hindex, (constants_le_take l need.1 need.2).trans hlow, hhigh⟩

/-- The constants of the first need are taken first. -/
theorem constantsOf_takeAll_cons {l : Ledger} {n : Node α} {need : Need}
    {needs : List (Node α × Need)} (h : Need.key (n, need) ∉ needs.map Need.key) :
    ((l.take n need).takeAll needs).constantsOf (n, need) =
      List.range' l.constants ((l.take n need).constants - l.constants) := by
  cases need with
  | constants slot count =>
    have hcount : (l.take n (.constants slot count)).constants - l.constants = count :=
      Nat.add_sub_cancel_left ..
    have hlookup : ((l.take n (.constants slot count)).takeAll needs).indices.lookup (n.id, slot) =
        some l.constants := by
      rw [← lookup_take_self l n slot count]
      exact lookup_takeAll_of_notMem h
    simp only [constantsOf, hlookup, hcount]
  | stream slot start components =>
    have hsame : (l.take n (.stream slot start components)).constants = l.constants := rfl
    rw [hsame, Nat.sub_self]
    rfl

/-- **Constants follow each other**: those of needs that are met one after the other are
all that are taken from the first to the last, in ascending order. -/
theorem constantsOf_takeAll {l : Ledger} {needs : List (Node α × Need)}
    (h : (needs.map Need.key).Nodup) : needs.flatMap (l.takeAll needs).constantsOf =
      List.range' l.constants ((l.takeAll needs).constants - l.constants) := by
  induction needs generalizing l with
  | nil =>
    have hsame : (l.takeAll ([] : List (Node α × Need))).constants = l.constants := rfl
    rw [hsame, Nat.sub_self]
    rfl
  | cons need needs ih =>
    obtain ⟨n, need⟩ := need
    rw [List.map_cons, List.nodup_cons] at h
    have hfirst := constants_le_take l n need
    have hrest := constants_le_takeAll (l.take n need) needs
    rw [List.flatMap_cons, takeAll_cons, constantsOf_takeAll_cons h.1, ih h.2]
    have hstart : (l.take n need).constants =
        l.constants + ((l.take n need).constants - l.constants) := by omega
    have hcount : ((l.take n need).takeAll needs).constants - l.constants =
        (l.take n need).constants - l.constants +
          (((l.take n need).takeAll needs).constants - (l.take n need).constants) := by omega
    rw [hcount, ← List.range'_append_1, ← hstart]

end Ledger

/-- No parameter of a node is taken twice. -/
theorem Node.nodup_keys [Scalar α] (f : Features) (n : Node α) :
    ((n.needs f).map Need.key).Nodup := by
  have hkeys : (n.needs f).map Need.key = ((n.behavior.needs f).map Need.slot).map (n.id, ·) := by
    simp [Node.needs, Need.key, Function.comp_def]
  rw [hkeys]
  exact (n.behavior.nodup_slots f).map fun _ _ h => (Prod.mk.inj h).2

namespace NodeSet

open Compile Compilation Node

variable {s : NodeSet α} {c c' : Compilation α} {f : Features} {pass : Pass}

/-! ### The needs of a set, node by node -/

theorem perm_blocks (nodes : List (Node α)) :
    ([Block.primary, .post, .color].flatMap fun block =>
      nodes.filter (·.info.block = block)).Perm nodes := by
  induction nodes with
  | nil => exact .refl _
  | cons n nodes ih =>
    refine List.Perm.trans ?_ (ih.cons n)
    simp only [List.flatMap_cons, List.flatMap_nil, List.append_nil]
    cases hblock : n.info.block
    · simp only [List.filter_cons, hblock, decide_true, if_true, reduceCtorEq, decide_false,
        Bool.false_eq_true, if_false]
      exact .refl _
    · simp only [List.filter_cons, hblock, decide_true, if_true, reduceCtorEq, decide_false,
        Bool.false_eq_true, if_false, List.cons_append]
      exact List.perm_middle
    · simp only [List.filter_cons, hblock, decide_true, if_true, reduceCtorEq, decide_false,
        Bool.false_eq_true, if_false]
      rw [← List.append_assoc, ← List.append_assoc]
      exact List.perm_middle

variable [Scalar α]

/-- The needs of a set, of vertex code and texture code, are those of its nodes. -/
theorem perm_needs (s : NodeSet α) (f : Features) :
    (s.vertexNeeds f ++ s.uvNeeds f).Perm (s.nodes.flatMap (Node.needs f)) := by
  have hblocks : s.vertexNeeds f = ([Block.primary, .post, .color].flatMap fun block =>
      s.nodes.filter (·.info.block = block)).flatMap (Node.vertexNeeds f) := by
    unfold vertexNeeds
    rw [List.flatMap_assoc]
  have hvertex : (s.vertexNeeds f).Perm (s.nodes.flatMap (Node.vertexNeeds f)) := by
    rw [hblocks]
    exact (perm_blocks s.nodes).flatMap_right _
  refine (hvertex.append_right _).trans ?_
  refine (List.flatMap_append_perm _ _ _).trans (List.Perm.of_eq ?_)
  refine congrArg₂ _ (funext fun n => ?_) rfl
  simp [Node.needs, Node.vertexNeeds, Node.uvNeeds, Behavior.needs]

/-- No parameter of a built set is taken twice. -/
theorem Built.nodup_keys (h : s.Built) (f : Features) :
    ((s.nodes.flatMap (Node.needs f)).map Need.key).Nodup := by
  rw [List.map_flatMap, List.nodup_flatMap]
  refine ⟨fun n _ => n.nodup_keys f, ?_⟩
  refine (List.pairwise_map.mp h.nodup_ids).imp fun {m n} hne => ?_
  intro key hm hn
  simp only [Node.needs, List.map_map, List.mem_map] at hm hn
  obtain ⟨_, -, rfl⟩ := hm
  obtain ⟨_, -, hkey⟩ := hn
  exact hne (Prod.mk.inj hkey).1.symm

/-- A set is compiled together with the texture code it needs. -/
abbrev Finishable (s : NodeSet α) (pass : Pass) (c : Compilation α) : Prop :=
  s.Compiled pass (s.vertexNeeds (s.featuresFor pass) ++ s.uvNeeds (s.featuresFor pass)) c

theorem Built.nodup_needs (h : s.Built) (f : Features) :
    ((s.vertexNeeds f ++ s.uvNeeds f).map Need.key).Nodup :=
  ((s.perm_needs f).map Need.key).nodup_iff.mpr (h.nodup_keys f)

/-- **All constants are taken for parameters**: those of the nodes of a built set are the
constants behind the one of the shared registers, each once. -/
theorem Built.constantsOf_nodes (h : s.Built) (hc : s.Finishable pass c) :
    ((s.nodes.flatMap (Node.needs (s.featuresFor pass))).flatMap c.ledger.constantsOf).Perm
      (List.range' (pass.taken.vertexConstants + 1)
        (c.used.vertexConstants - (pass.taken.vertexConstants + 1))) := by
  have hall :=
    Ledger.constantsOf_takeAll (l := Ledger.opened pass) (h.nodup_needs (s.featuresFor pass))
  rw [← hc.ledger] at hall
  exact ((s.perm_needs (s.featuresFor pass)).flatMap_right _).symm.trans (List.Perm.of_eq hall)

/-- Every node of a built set finds the constants that its code takes. -/
theorem Built.exists_index (h : s.Built) (hc : s.Finishable pass c) {n : Node α}
    (hn : n ∈ s.nodes) {slot count : Nat}
    (hneed : .constants slot count ∈ n.behavior.needs (s.featuresFor pass)) :
    ∃ index, c.index? n.id slot = some index ∧ pass.taken.vertexConstants < index ∧
      index + count ≤ c.used.vertexConstants := by
  have hmem : (n, .constants slot count) ∈
      s.vertexNeeds (s.featuresFor pass) ++ s.uvNeeds (s.featuresFor pass) := by
    refine (s.perm_needs _).mem_iff.mpr (List.mem_flatMap.mpr ⟨n, hn, ?_⟩)
    exact List.mem_map.mpr ⟨_, hneed, rfl⟩
  have hindex := Ledger.exists_index_takeAll (l := Ledger.opened pass) (h.nodup_needs _) hmem
  rw [← hc.ledger] at hindex
  exact hindex

end NodeSet

end ParticleShader
