import ParticleShader.Proofs.NodeSet.Built

/-!
# Features of a built set

The switches that a set hands to a compilation are those that its nodes raise, no
more and no less, and the node that keeps time is there exactly if there is another
node.
-/

namespace ParticleShader

variable {α : Type}

/-! ### Unions -/

namespace Features

theorem empty_union (a : Features) : ({} : Features) ∪ a = a := rfl

theorem union_comm (a b : Features) : a ∪ b = b ∪ a := by
  show union a b = union b a
  simp only [union, Bool.or_comm]

theorem union_assoc (a b c : Features) : a ∪ b ∪ c = a ∪ (b ∪ c) := by
  show union (union a b) c = union a (union b c)
  simp only [union, Bool.or_assoc]

theorem union_left_comm (a b c : Features) : a ∪ (b ∪ c) = b ∪ (a ∪ c) := by
  rw [← union_assoc, union_comm a b, union_assoc]

end Features

/-- A catalogue node raises the same features wherever it is accepted. -/
theorem Behavior.accept_eq_ok [Scalar α] {b : Behavior α} {settings : Settings} {f : Features}
    (hb : b.IsCatalogue) (h : b.accept settings = .ok f) : f = b.raised := by
  cases b with
  | spriteSheet sheet =>
    simp only [accept] at h
    split at h <;> split at h <;> cases h <;> rfl
  | color animation =>
    simp only [accept] at h
    split at h
    · split at h <;> cases h
      rfl
    · cases h
      rfl
  | custom node => exact hb.elim
  | _ =>
    cases h
    rfl

namespace NodeSet

/-- The features that the nodes of a set raise together. -/
def raised (s : NodeSet α) : Features :=
  s.nodes.foldr (fun n features => n.behavior.raised ∪ features) {}

theorem foldr_raised_insertNode (n : Node α) : ∀ ns : List (Node α),
    (insertNode n ns).foldr (fun n features => n.behavior.raised ∪ features) {} =
      n.behavior.raised ∪ ns.foldr (fun n features => n.behavior.raised ∪ features) {}
  | [] => rfl
  | m :: ms => by
    unfold insertNode
    split
    · rw [List.foldr_cons, foldr_raised_insertNode n ms, List.foldr_cons,
        Features.union_left_comm]
    · rfl

theorem raised_withTime (s : NodeSet α) : s.withTime.raised = s.raised := by
  unfold withTime
  split
  · rfl
  · rename_i h
    have hnodes : s.nodes = [] := by simpa [timeActive] using h
    simp [raised, hnodes, Behavior.raised, Features.empty_union]

/-- **The features of a built set** are those that its nodes raise. -/
theorem Built.features_eq_raised [Scalar α] {s : NodeSet α} (h : s.Built) :
    s.settings.features = s.raised := by
  induction h with
  | empty lifecycle => rfl
  | @add s s' b id _ hb hadd ih =>
    obtain ⟨n, -, hn⟩ := add_eq_ok hadd
    obtain ⟨f, hf, hsettings⟩ := hn.features
    rw [hsettings, Behavior.accept_eq_ok hb hf, ← hn.behavior, ih, Features.union_comm]
    show _ = s'.nodes.foldr _ _
    rw [hn.nodes, foldr_raised_insertNode, ← raised_withTime s]
    rfl

/-- A switch is raised by a set if one of its nodes raises it. -/
theorem raised_eq_any (s : NodeSet α) (switch : Features → Bool) (hempty : switch {} = false)
    (hunion : ∀ a b, switch (a ∪ b) = (switch a || switch b)) :
    switch s.raised = s.nodes.any fun n => switch n.behavior.raised := by
  unfold raised
  induction s.nodes with
  | nil => exact hempty
  | cons n ns ih => rw [List.foldr_cons, hunion, ih, List.any_cons]

theorem raised_of_mem (s : NodeSet α) (switch : Features → Bool) (hempty : switch {} = false)
    (hunion : ∀ a b, switch (a ∪ b) = (switch a || switch b)) {n : Node α} (hn : n ∈ s.nodes)
    (h : switch n.behavior.raised = true) : switch s.raised = true := by
  rw [raised_eq_any s switch hempty hunion]
  exact List.any_eq_true.mpr ⟨n, hn, h⟩

/-! ### The node that keeps time -/

/-- The node that keeps time, if it has joined the set. -/
def timeNodes (s : NodeSet α) : List (Node α) :=
  if s.timeActive then [{ behavior := .time s.settings.lifecycle, id := timeId }] else []

/-- The nodes that were added. -/
def added (s : NodeSet α) : List (Node α) := s.nodes.filter (·.id ≠ timeId)

theorem filter_insertNode {n : Node α} {p : Node α → Bool} (h : p n = false) :
    ∀ ns : List (Node α), (insertNode n ns).filter p = ns.filter p
  | [] => by simp [insertNode, h]
  | m :: ms => by
    unfold insertNode
    split
    · rw [List.filter_cons, List.filter_cons, filter_insertNode h ms]
    · rw [List.filter_cons, h]
      rfl

theorem filter_withTime {s : NodeSet α} (h : s.nodes.filter (·.id = timeId) = s.timeNodes) :
    s.withTime.nodes.filter (·.id = timeId) =
      [{ behavior := .time s.settings.lifecycle, id := timeId }] := by
  unfold withTime
  split
  · rename_i hactive
    rw [h, timeNodes, if_pos hactive]
  · rfl

theorem Built.filter_timeId [Scalar α] {s : NodeSet α} (h : s.Built) :
    s.nodes.filter (·.id = timeId) = s.timeNodes := by
  induction h with
  | empty lifecycle => rfl
  | @add s s' b id hs hb hadd ih =>
    obtain ⟨n, -, hn⟩ := add_eq_ok hadd
    obtain ⟨_, -, hsettings⟩ := hn.features
    have htime := filter_withTime ih
    have hid : n.id ≠ timeId := by
      rw [hn.id, hs.grown.joined.next]
      exact Nat.ne_of_gt (Nat.le_max_right ..)
    have hactive : s'.timeActive = true := by
      have hmem : n ∈ s'.nodes := by
        rw [hn.nodes]
        exact mem_insertNode.mpr (.inl rfl)
      cases hnodes : s'.nodes with
      | nil => simp [hnodes] at hmem
      | cons m ms => simp [timeActive, hnodes]
    rw [hn.nodes, filter_insertNode (by simpa using hid), htime, timeNodes, if_pos hactive,
      hsettings]

/-- The nodes of a built set: those that were added, and the one that keeps time once
there are any. -/
theorem Built.nodes_perm [Scalar α] {s : NodeSet α} (h : s.Built) :
    s.nodes.Perm (s.timeNodes ++ s.added) := by
  rw [← h.filter_timeId]
  have hperm := List.filter_append_perm (fun n : Node α => decide (n.id = timeId)) s.nodes
  simp only [added, decide_not]
  exact hperm.symm

theorem priority_nonneg {b : Behavior α} (hb : b.IsCatalogue) : 0 ≤ b.priority := by
  cases b with
  | custom node => exact hb.elim
  | _ => simp [Behavior.priority, Block.postPriority, Block.colorPriority]

theorem withTime_nodes {s : NodeSet α} (h : s.nodes ≠ [] → ∃ rest,
    s.nodes = { behavior := .time s.settings.lifecycle, id := timeId } :: rest) :
    ∃ rest,
      s.withTime.nodes = { behavior := .time s.settings.lifecycle, id := timeId } :: rest := by
  unfold withTime
  split
  · rename_i hactive
    exact h (by simpa [timeActive] using hactive)
  · exact ⟨[], rfl⟩

/-- **Time comes first**: nothing that was added is put before the node that keeps it. -/
theorem Built.nodes_eq [Scalar α] {s : NodeSet α} (h : s.Built) : s.nodes ≠ [] → ∃ rest,
    s.nodes = { behavior := .time s.settings.lifecycle, id := timeId } :: rest := by
  induction h with
  | empty lifecycle => exact fun h => absurd rfl h
  | @add s s' b id _ hb hadd ih =>
    obtain ⟨n, -, hn⟩ := add_eq_ok hadd
    obtain ⟨_, -, hsettings⟩ := hn.features
    obtain ⟨rest, hrest⟩ := withTime_nodes ih
    have hbehind : (0 : Int) ≤ n.behavior.priority := by
      rw [hn.behavior]
      exact priority_nonneg hb
    intro _
    rw [hn.nodes, hrest, hsettings]
    exact ⟨insertNode n rest, if_pos hbehind⟩

end NodeSet

end ParticleShader
