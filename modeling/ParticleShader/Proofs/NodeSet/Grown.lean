import Mathlib.Data.List.Nodup
import Mathlib.Data.List.Perm.Basic
import ParticleShader.NodeSet
import ParticleShader.Proofs.Outcome

/-!
# Sets that grew by additions

A set keeps its nodes in two orders at once. They stand in the order in which they emit
code, and their values lie in the records in the order in which they joined. One addition
goes on with both: the new node is put behind those of its priority, and its values go to
the end of a record. So every set that accepted additions lead to has both orders, of
whatever priority and length its nodes are.
-/

namespace ParticleShader

variable {α : Type}

/-- Where the values of a node begin in a record of a buffer. -/
def Node.offsetIn (n : Node α) : Buffer → Nat
  | .baked => n.offset
  | .dynamic => n.dynamicOffset

/-- Two nodes do not share a place in a record. -/
def Node.Apart (buffer : Buffer) (m n : Node α) : Prop :=
  m.offsetIn buffer + m.behavior.length ≤ n.offsetIn buffer ∨
    n.offsetIn buffer + n.behavior.length ≤ m.offsetIn buffer

theorem Node.Apart.symm {buffer : Buffer} {m n : Node α} (h : m.Apart buffer n) :
    n.Apart buffer m := Or.symm h

/-- One node stands strictly before another one: its priority is smaller, or it is the
same and the node joined earlier. -/
def Node.Precedes (m n : Node α) : Prop :=
  m.behavior.priority < n.behavior.priority ∨
    m.behavior.priority = n.behavior.priority ∧ m.id < n.id

theorem Node.Precedes.priority_le {m n : Node α} (h : m.Precedes n) :
    m.behavior.priority ≤ n.behavior.priority :=
  h.elim Int.le_of_lt fun h => Int.le_of_eq h.1

/-- A key that occurs once leads to its element. -/
theorem find?_of_nodup_map {β γ : Type} [DecidableEq γ] {g : β → γ} {l : List β} {b : β}
    (h : (l.map g).Nodup) (hb : b ∈ l) : l.find? (fun a => g a = g b) = some b := by
  cases hfind : l.find? (fun a => g a = g b) with
  | none => exact absurd (List.find?_eq_none.mp hfind b hb) (by simp)
  | some a =>
    have hkey : g a = g b := by simpa using List.find?_some hfind
    rw [List.inj_on_of_nodup_map h (List.mem_of_find?_eq_some hfind) hb hkey]

/-! ### Values one behind the other -/

/-- The values of nodes lie one behind the other in the records of a buffer, from `start`
to `stop`. -/
def Tiled (buffer : Buffer) : Nat → List (Node α) → Nat → Prop
  | start, [], stop => start = stop
  | start, n :: ns, stop =>
    n.offsetIn buffer = start ∧ Tiled buffer (start + n.behavior.length) ns stop

namespace Tiled

variable {buffer : Buffer} {start stop : Nat} {ns : List (Node α)}

theorem le (h : Tiled buffer start ns stop) : start ≤ stop := by
  induction ns generalizing start with
  | nil => exact Nat.le_of_eq h
  | cons n ns ih => exact Nat.le_trans (Nat.le_add_right ..) (ih h.2)

theorem inside (h : Tiled buffer start ns stop) :
    ∀ n ∈ ns, start ≤ n.offsetIn buffer ∧ n.offsetIn buffer + n.behavior.length ≤ stop := by
  induction ns generalizing start with
  | nil => simp
  | cons n ns ih =>
    refine List.forall_mem_cons.mpr ⟨⟨Nat.le_of_eq h.1.symm, h.1 ▸ h.2.le⟩, fun m hm => ?_⟩
    obtain ⟨hbegin, hend⟩ := ih h.2 m hm
    exact ⟨Nat.le_trans (Nat.le_add_right ..) hbegin, hend⟩

theorem apart (h : Tiled buffer start ns stop) : ns.Pairwise (Node.Apart buffer) := by
  induction ns generalizing start with
  | nil => exact List.Pairwise.nil
  | cons n ns ih =>
    refine List.pairwise_cons.mpr ⟨fun m hm => .inl ?_, ih h.2⟩
    rw [h.1]
    exact (h.2.inside m hm).1

/-- One more node at the end. -/
theorem snoc {n : Node α} (h : Tiled buffer start ns stop) (hn : n.offsetIn buffer = stop) :
    Tiled buffer start (ns ++ [n]) (stop + n.behavior.length) := by
  induction ns generalizing start with
  | nil => exact ⟨hn.trans h.symm, by rw [h]; rfl⟩
  | cons m ns ih => exact ⟨h.1, ih h.2⟩

end Tiled

namespace NodeSet

/-- The length of a record of a buffer. -/
def strideOf (s : NodeSet α) : Buffer → Nat
  | .baked => s.stride
  | .dynamic => s.dynamicStride

theorem mem_nodesIn {s : NodeSet α} {buffer : Buffer} {n : Node α} :
    n ∈ s.nodesIn buffer ↔ n ∈ s.nodes ∧ n.behavior.mode = .perParticle buffer := by
  simp [nodesIn]

/-! ### One addition -/

theorem insertNode_perm (n : Node α) : ∀ ns : List (Node α), (insertNode n ns).Perm (n :: ns)
  | [] => .refl _
  | m :: ms => by
    unfold insertNode
    split
    · exact ((insertNode_perm n ms).cons m).trans (.swap n m ms)
    · exact .refl _

theorem mem_insertNode {n m : Node α} {ns : List (Node α)} :
    m ∈ insertNode n ns ↔ m = n ∨ m ∈ ns := by
  rw [(insertNode_perm n ns).mem_iff, List.mem_cons]

/-- A node that joins later is put where the nodes stay in order. -/
theorem precedes_insertNode {n : Node α} {ns : List (Node α)} (h : ns.Pairwise Node.Precedes)
    (hlater : ∀ m ∈ ns, m.id < n.id) : (insertNode n ns).Pairwise Node.Precedes := by
  induction ns with
  | nil => exact List.pairwise_singleton _ n
  | cons m ns ih =>
    obtain ⟨hfirst, hrest⟩ := List.pairwise_cons.mp h
    obtain ⟨hm, hns⟩ := List.forall_mem_cons.mp hlater
    unfold insertNode
    split
    · rename_i hle
      refine List.pairwise_cons.mpr ⟨fun o ho => ?_, ih hrest hns⟩
      rcases mem_insertNode.mp ho with rfl | ho
      · exact (Int.lt_or_eq_of_le hle).imp_right fun heq => ⟨heq, hm⟩
      · exact hfirst o ho
    · rename_i hlt
      have hlt := Int.not_le.mp hlt
      refine List.pairwise_cons.mpr ⟨List.forall_mem_cons.mpr ⟨.inl hlt, fun o ho => ?_⟩, h⟩
      exact .inl (Int.lt_of_lt_of_le hlt (hfirst o ho).priority_le)

/-- Placing a behavior: it gets the next handle and the end of the record it is kept in. -/
theorem leads_place {s s' : NodeSet α} {b : Behavior α} {n : Node α}
    (h : Leads (place b) s n s') :
    n.behavior = b ∧ n.id = s.next ∧ s'.next = s.next + 1 ∧ s'.nodes = s.nodes ∧
      s'.settings = s.settings ∧
      ∀ buffer, (b.mode = .perParticle buffer → n.offsetIn buffer = s.strideOf buffer) ∧
        s'.strideOf buffer =
          s.strideOf buffer + if b.mode = .perParticle buffer then b.length else 0 := by
  unfold place at h
  rw [leads_get_bind] at h
  simp only [leads_bind, leads_set] at h
  obtain ⟨-, _, rfl, h⟩ := h
  split at h <;> rename_i hmode
  · obtain ⟨rfl, rfl⟩ := leads_result.mp h
    exact ⟨rfl, rfl, rfl, rfl, rfl, fun buffer => by simp [hmode, strideOf]⟩
  · simp only [leads_bind, leads_ofExcept, leads_modify] at h
    obtain ⟨stride, _, ⟨hs, rfl⟩, -, _, rfl, h⟩ := h
    obtain ⟨-, rfl⟩ := Size.add_eq_ok.mp hs
    obtain ⟨rfl, rfl⟩ := leads_result.mp h
    refine ⟨rfl, rfl, rfl, rfl, rfl, fun buffer => ?_⟩
    cases buffer <;> simp [hmode, Node.offsetIn, strideOf]
  · simp only [leads_bind, leads_ofExcept, leads_modify] at h
    obtain ⟨stride, _, ⟨hs, rfl⟩, -, _, rfl, h⟩ := h
    obtain ⟨-, rfl⟩ := Size.add_eq_ok.mp hs
    obtain ⟨rfl, rfl⟩ := leads_result.mp h
    refine ⟨rfl, rfl, rfl, rfl, rfl, fun buffer => ?_⟩
    cases buffer <;> simp [hmode, Node.offsetIn, strideOf]

/-- What an accepted addition does to a set. -/
structure Adds [Scalar α] (s : NodeSet α) (b : Behavior α) (s' : NodeSet α) (n : Node α) :
    Prop where
  /-- The new node has the behavior. -/
  behavior : n.behavior = b
  /-- Its handle is the next one. -/
  id : n.id = s.next
  /-- The one behind it comes next. -/
  next : s'.next = s.next + 1
  /-- It is put among the others, the node that keeps time included. -/
  nodes : s'.nodes = insertNode n s.withTime.nodes
  /-- It raises its features. -/
  features : ∃ raised, b.accept s.settings = .ok raised ∧
    s'.settings = { s.settings with features := s.settings.features ∪ raised }
  /-- It is placed at the end of the record that it is kept in. -/
  offset : ∀ buffer, b.mode = .perParticle buffer →
    n.offsetIn buffer = s.withTime.strideOf buffer
  /-- Only that record grows, by the values of the node. -/
  stride : ∀ buffer, s'.strideOf buffer =
    s.withTime.strideOf buffer + if b.mode = .perParticle buffer then b.length else 0

/-- Time is kept alike whatever features are raised. -/
theorem withTime_features (s : NodeSet α) (features : Features) :
    ({ s with settings := { s.settings with features } } : NodeSet α).withTime =
      { s.withTime with settings := { s.settings with features } } := by
  unfold withTime timeActive
  split <;> rfl

theorem withTime_next (s : NodeSet α) : s.withTime.next = s.next := by
  unfold withTime
  split <;> rfl

@[simp] theorem leads_raise [Scalar α] {s s' : NodeSet α} {b : Behavior α} {r : Unit} :
    Leads (raise b) s r s' ↔ ∃ raised, b.accept s.settings = .ok raised ∧
      { s with settings := { s.settings with features := s.settings.features ∪ raised } } = s' := by
  unfold raise
  rw [leads_get_bind]
  simp only [leads_bind, leads_ofExcept, leads_set]
  constructor
  · rintro ⟨raised, _, ⟨haccept, rfl⟩, h⟩
    exact ⟨raised, haccept, h⟩
  · rintro ⟨raised, haccept, h⟩
    exact ⟨raised, s, ⟨haccept, rfl⟩, h⟩

/-- What becomes of a set that a node joins. -/
theorem leads_join [Scalar α] {s s' : NodeSet α} {b : Behavior α} {id : NodeId}
    (h : Leads (join b) s id s') : ∃ n : Node α, n.id = id ∧ s.Adds b s' n := by
  unfold join at h
  simp only [leads_bind, leads_raise, leads_modify] at h
  obtain ⟨-, _, ⟨raised, hraised, rfl⟩, -, _, rfl, n, placed, hplaced, -, _, rfl, h⟩ := h
  obtain ⟨rfl, rfl⟩ := leads_result.mp h
  rw [withTime_features] at hplaced
  obtain ⟨hb, hid, hnext, hnodes, hsettings, hplace⟩ := leads_place hplaced
  rw [withTime_next] at hid hnext
  refine ⟨n, rfl, hb, hid, hnext, congrArg _ hnodes, ⟨raised, hraised, hsettings⟩, ?_, ?_⟩
  · exact fun buffer hmode => ((hplace buffer).1 hmode).trans (by cases buffer <;> rfl)
  · exact fun buffer => .trans (by cases buffer <;> rfl)
      ((hplace buffer).2.trans (by cases buffer <;> rfl))

/-- Adding a node is having it join the set. -/
theorem add_eq_ok_iff [Scalar α] {s s' : NodeSet α} {b : Behavior α} {id : NodeId} :
    s.add b = .ok (s', id) ↔ Leads (join b) s id s' := by
  unfold add Leads EStateM.run
  cases join b s <;> simp [and_comm]

theorem add_eq_ok [Scalar α] {s s' : NodeSet α} {b : Behavior α} {id : NodeId}
    (h : s.add b = .ok (s', id)) : ∃ n : Node α, n.id = id ∧ s.Adds b s' n :=
  leads_join (add_eq_ok_iff.mp h)

/-! ### What a set does not take -/

/-- The values of a behavior make a record of a set too long. -/
def Outgrows (s : NodeSet α) (b : Behavior α) : Prop :=
  ∃ buffer, b.mode = .perParticle buffer ∧ Size.bound ≤ s.withTime.strideOf buffer + b.length

instance (s : NodeSet α) (b : Behavior α) : Decidable (s.Outgrows b) :=
  match hmode : b.mode with
  | .global => .isFalse fun ⟨_, h, _⟩ => by cases hmode.symm.trans h
  | .perParticle buffer =>
    decidable_of_iff (Size.bound ≤ s.withTime.strideOf buffer + b.length)
      ⟨fun h => ⟨buffer, hmode, h⟩, fun ⟨_, h, hlong⟩ => by cases hmode.symm.trans h; exact hlong⟩

/-- The features that a behavior raises are those of the set, the node that keeps time has joined
it, and a handle is given out. -/
def prepared (s : NodeSet α) (raised : Features) : NodeSet α :=
  { s.withTime with
    settings := { s.settings with features := s.settings.features ∪ raised }
    next := s.next + 1 }

theorem run_raise_eq_error [Scalar α] {s s' : NodeSet α} {b : Behavior α} {fault : Fault} :
    (raise b).run s = .error fault s' ↔ b.accept s.settings = .error fault ∧ s' = s := by
  have hstart : (raise b).run s = (do
      let raised ← MonadExcept.ofExcept (b.accept s.settings)
      set { s with settings := { s.settings with features := s.settings.features ∪ raised } } :
        Joining α Unit).run s := rfl
  rw [hstart, run_bind_eq_error, run_ofExcept_eq_error]
  simp [eq_comm]

theorem run_place_eq_error {s s' : NodeSet α} {b : Behavior α} {fault : Fault} :
    (place b).run s = .error fault s' ↔ fault = .sizeOverflow ∧
      (∃ buffer, b.mode = .perParticle buffer ∧ Size.bound ≤ s.strideOf buffer + b.length) ∧
      s' = { s with next := s.next + 1 } := by
  unfold place
  simp only [run_bind_eq_error, leads_get, leads_set, EStateM.run_get, EStateM.run_set]
  cases hmode : b.mode with
  | global => simp
  | perParticle buffer =>
    cases buffer <;>
      simp only [run_bind_eq_error, run_ofExcept_eq_error, leads_ofExcept, Size.add_eq_error] <;>
      simp [strideOf, and_assoc, eq_comm]

/-- **What a set does not take**: a behavior that does not go with the settings, and then nothing
changes; or one that goes with them but whose values make a record too long, and then all is done
but the last two steps. -/
theorem run_join_eq_error [Scalar α] {s s' : NodeSet α} {b : Behavior α} {fault : Fault} :
    (join b).run s = .error fault s' ↔
      (b.accept s.settings = .error fault ∧ s' = s) ∨
      ∃ raised, b.accept s.settings = .ok raised ∧ s.Outgrows b ∧ fault = .sizeOverflow ∧
        s' = s.prepared raised := by
  -- behind the features nothing can fail but the growing of the record
  have hrest (raised : Features) : ((do
      modify withTime
      let node ← place b
      modify fun s => { s with nodes := insertNode node s.nodes }
      return node.id : Joining α NodeId).run
        { s with settings := { s.settings with features := s.settings.features ∪ raised } } =
          .error fault s') ↔ s.Outgrows b ∧ fault = .sizeOverflow ∧ s' = s.prepared raised := by
    have htime : (modify withTime : Joining α PUnit).run
        { s with settings := { s.settings with features := s.settings.features ∪ raised } } =
          .ok ⟨⟩ { s.withTime with
            settings := { s.settings with features := s.settings.features ∪ raised } } :=
      congrArg (EStateM.Result.ok PUnit.unit) (withTime_features s _)
    have hnext := withTime_next s
    rw [EStateM.run_bind, htime]
    simp only [run_bind_eq_error, run_place_eq_error, leads_modify, EStateM.run_modify,
      EStateM.run_pure, reduceCtorEq, and_false, exists_false, or_false, hnext]
    constructor
    · rintro ⟨hfault, ⟨buffer, hmode, hlong⟩, hs⟩
      exact ⟨⟨buffer, hmode, by cases buffer <;> exact hlong⟩, hfault, hs⟩
    · rintro ⟨⟨buffer, hmode, hlong⟩, hfault, hs⟩
      exact ⟨hfault, ⟨buffer, hmode, by cases buffer <;> exact hlong⟩, hs⟩
  unfold join
  rw [run_bind_eq_error, run_raise_eq_error]
  simp only [leads_raise]
  constructor
  · rintro (⟨haccept, hs⟩ | ⟨-, _, ⟨raised, haccept, rfl⟩, h⟩)
    · exact .inl ⟨haccept, hs⟩
    · exact .inr ⟨raised, haccept, (hrest raised).mp h⟩
  · rintro (⟨haccept, hs⟩ | ⟨raised, haccept, h⟩)
    · exact .inl ⟨haccept, hs⟩
    · exact .inr ⟨⟨⟩, _, ⟨raised, haccept, rfl⟩, (hrest raised).mpr h⟩

theorem add_eq_error [Scalar α] {s : NodeSet α} {b : Behavior α} {fault : Fault} :
    s.add b = .error fault ↔ b.accept s.settings = .error fault ∨
      (∃ raised, b.accept s.settings = .ok raised) ∧ s.Outgrows b ∧ fault = .sizeOverflow := by
  have hadd : s.add b = .error fault ↔ ∃ s', (join b).run s = .error fault s' := by
    unfold add EStateM.run
    cases join b s <;> simp
  rw [hadd]
  simp only [run_join_eq_error]
  constructor
  · rintro ⟨s', ⟨haccept, -⟩ | ⟨raised, haccept, hlong, hfault, -⟩⟩
    · exact .inl haccept
    · exact .inr ⟨⟨raised, haccept⟩, hlong, hfault⟩
  · rintro (haccept | ⟨⟨raised, haccept⟩, hlong, hfault⟩)
    · exact ⟨s, .inl ⟨haccept, rfl⟩⟩
    · exact ⟨_, .inr ⟨raised, haccept, hlong, hfault, rfl⟩⟩

/-! ### The two orders -/

/-- The nodes in the order of their handles. -/
def byId (s : NodeSet α) : List (Node α) := (List.range s.nodes.length).filterMap s.node?

/-- The nodes of a set in the order in which they joined: it gave them their handles and
their places in the records, and it decides between nodes of the same priority. -/
structure Joined (s : NodeSet α) (order : List (Node α)) : Prop where
  /-- They are the nodes of the set. -/
  perm : order.Perm s.nodes
  /-- Their handles count them. -/
  ids : order.map (·.id) = List.range order.length
  /-- The set has them by priority. -/
  sorted : s.nodes.Pairwise Node.Precedes
  /-- The records of each buffer are filled from the beginning to the end. -/
  tiled : ∀ buffer, Tiled buffer 0
    (order.filter fun n => n.behavior.mode = .perParticle buffer) (s.strideOf buffer)
  /-- The next handle comes behind theirs, and behind that of the node that keeps time. -/
  next : s.next = max order.length 1

/-- The node that keeps time. -/
def timeNode (lifecycle : Lifecycle) : Node α := { behavior := .time lifecycle, id := timeId }

namespace Joined

variable {s s' : NodeSet α} {order : List (Node α)}

theorem empty (lifecycle : Lifecycle) : (NodeSet.empty lifecycle : NodeSet α).Joined [] :=
  ⟨.refl _, rfl, List.Pairwise.nil, fun buffer => by cases buffer <;> rfl, rfl⟩

theorem length_eq (h : s.Joined order) : s.nodes.length = order.length := h.perm.length_eq.symm

theorem nodup_ids (h : s.Joined order) : (s.nodes.map (·.id)).Nodup := by
  rw [← (h.perm.map _).nodup_iff, h.ids]
  exact List.nodup_range

theorem id_lt (h : s.Joined order) {n : Node α} (hn : n ∈ s.nodes) :
    n.id < s.nodes.length := by
  have hid : n.id ∈ order.map (·.id) := List.mem_map_of_mem (h.perm.mem_iff.mpr hn)
  rwa [h.ids, List.mem_range, ← h.length_eq] at hid

/-- The node that keeps time is the first one. -/
theorem withTime (h : s.Joined order) : s.withTime.Joined
    (if s.timeActive then order else [timeNode s.settings.lifecycle]) := by
  unfold NodeSet.withTime
  split
  · exact h
  · rename_i hinactive
    have hnodes : s.nodes = [] := by simpa [timeActive] using hinactive
    obtain rfl : order = [] := List.perm_nil.mp (hnodes ▸ h.perm)
    refine ⟨.refl _, rfl, List.pairwise_singleton _ _, fun buffer => ?_, h.next⟩
    cases buffer with
    | baked => exact ⟨rfl, Nat.zero_add _⟩
    | dynamic => exact h.tiled .dynamic

/-- With the node that keeps time the next handle is the number of nodes. -/
theorem next_withTime (h : s.withTime.Joined order) : s.next = order.length := by
  have hpos : 0 < s.withTime.nodes.length := by
    unfold NodeSet.withTime
    split
    · rename_i hactive
      rw [timeActive, Bool.not_eq_true', List.isEmpty_eq_false_iff] at hactive
      exact List.length_pos_of_ne_nil hactive
    · exact Nat.zero_lt_one
  rw [h.length_eq] at hpos
  rw [← withTime_next, h.next, Nat.max_eq_left hpos]

/-- A node that is added is the last one. -/
theorem adds [Scalar α] {b : Behavior α} {n : Node α} (h : s.withTime.Joined order)
    (hn : s.Adds b s' n) : s'.Joined (order ++ [n]) := by
  have hid : n.id = order.length := hn.id.trans h.next_withTime
  have hlater : ∀ m ∈ s.withTime.nodes, m.id < n.id := fun m hm => by
    rw [hid, ← h.length_eq]
    exact h.id_lt hm
  refine ⟨?_, ?_, ?_, fun buffer => ?_, ?_⟩
  · rw [hn.nodes]
    exact (List.perm_append_singleton n order).trans
      ((h.perm.cons n).trans (insertNode_perm n _).symm)
  · simp only [List.map_append, h.ids, List.map_cons, hid, List.map_nil, List.length_append,
      List.length_cons, List.length_nil, List.range_succ, Nat.zero_add]
  · rw [hn.nodes]
    exact precedes_insertNode h.sorted hlater
  · have hstride := hn.stride buffer
    by_cases hmode : b.mode = .perParticle buffer
    · rw [List.filter_append, List.filter_cons_of_pos (by simp [hn.behavior, hmode])]
      rw [if_pos hmode, ← hn.behavior] at hstride
      rw [hstride]
      exact (h.tiled buffer).snoc (hn.offset buffer hmode)
    · rw [List.filter_append, List.filter_cons_of_neg (by simp [hn.behavior, hmode]),
        List.filter_nil, List.append_nil]
      rw [if_neg hmode, Nat.add_zero] at hstride
      rw [hstride]
      exact h.tiled buffer
  · rw [hn.next, h.next_withTime, List.length_append, List.length_singleton,
      Nat.max_eq_left (Nat.le_add_left ..)]

/-- A node of the set is the one that its handle leads to. -/
theorem node?_eq_some (h : s.Joined order) {id : NodeId} {n : Node α} :
    s.node? id = some n ↔ n ∈ s.nodes ∧ n.id = id := by
  unfold node?
  constructor
  · intro hfind
    exact ⟨List.mem_of_find?_eq_some hfind, by simpa using List.find?_some hfind⟩
  · rintro ⟨hn, rfl⟩
    exact find?_of_nodup_map h.nodup_ids hn

/-- The order of joining is that of the handles. -/
theorem byId_eq (h : s.Joined order) : s.byId = order := by
  have hfind : ∀ n ∈ order, (s.node? ∘ (·.id)) n = some n := fun n hn =>
    h.node?_eq_some.mpr ⟨h.perm.mem_iff.mp hn, rfl⟩
  rw [byId, h.length_eq, ← h.ids, List.filterMap_map, List.filterMap_congr hfind,
    List.filterMap_some]

end Joined

/-- The sets that accepted additions lead to. -/
inductive Grown [Scalar α] : NodeSet α → Prop where
  /-- A set without nodes. -/
  | empty (lifecycle : Lifecycle) : Grown (NodeSet.empty lifecycle)
  /-- A set with one more node. -/
  | add {s s' : NodeSet α} {b : Behavior α} {id : NodeId} :
    Grown s → s.add b = .ok (s', id) → Grown s'

/-- **The two orders of a set**: every set that additions lead to has its nodes by priority,
and by handle in its records. -/
theorem Grown.joined [Scalar α] {s : NodeSet α} (h : s.Grown) : s.Joined s.byId := by
  suffices ∃ order, s.Joined order by
    obtain ⟨order, horder⟩ := this
    rwa [horder.byId_eq]
  induction h with
  | empty lifecycle => exact ⟨[], .empty lifecycle⟩
  | add _ hadd ih =>
    obtain ⟨order, horder⟩ := ih
    obtain ⟨n, -, hn⟩ := add_eq_ok hadd
    exact ⟨_, horder.withTime.adds hn⟩

end NodeSet

end ParticleShader
