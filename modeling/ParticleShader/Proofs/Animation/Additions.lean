import ParticleShader.Animation
import ParticleShader.Proofs.NodeSet.Grown
import ParticleShader.Proofs.Rational

/-!
# Additions one after the other

Nodes are offered to an animation, which takes them or rejects them. What it took accounts
for all that its set is: the order of the nodes, their handles, their places in the records,
the node that keeps time and the features. What it rejected leaves no trace
(**`offerAll_spec`**).

Only a node whose values do not fit in a record of a length that is a word is found out too
late: by then its features are raised, the node that keeps time has joined and a handle is
spent (`largest_node_leaves_traces`). So the results are about nodes that find room (`HasRoom`).
-/

namespace ParticleShader

variable {σ α : Type}

/-- A behavior that was accepted. -/
structure Admission (α : Type) where
  /-- The behavior. -/
  behavior : Behavior α
  /-- The handle it got. -/
  id : NodeId
  /-- The features it raised in the set as it was. -/
  raised : Features

namespace NodeSet

variable {s s' : NodeSet α} {lifecycle : Lifecycle} {admitted : List (Admission α)}

/-! ### What a set consists of -/

/-- The accepted behaviors, in the order of their acceptance, account for a set of particles
that live as given. -/
structure Accounts (lifecycle : Lifecycle) (admitted : List (Admission α)) (s : NodeSet α) :
    Prop where
  /-- The nodes stand by priority and handle, and fill the records by handle. -/
  joined : s.Joined s.byId
  /-- Handles are given out from one on. -/
  handles : admitted.map (·.id) = List.range' 1 admitted.length
  /-- Nothing else is in the set than the accepted behaviors, behind the one that keeps
  time. -/
  behaviors : s.byId.map (·.behavior) =
    if admitted.isEmpty then [] else .time lifecycle :: admitted.map (·.behavior)
  /-- Time is kept once something was accepted. -/
  active : s.timeActive = !admitted.isEmpty
  /-- It is the first in the baked records. -/
  time : admitted ≠ [] → ∃ n, s.node? timeId = some n ∧ n.behavior = .time lifecycle ∧
    n.offset = 0 ∧ n.behavior.length = 4
  /-- The features are those that were raised. -/
  settings : s.settings = { lifecycle, features := admitted.foldl (· ∪ ·.raised) {} }

theorem Accounts.empty (lifecycle : Lifecycle) :
    (NodeSet.empty lifecycle : NodeSet α).Accounts lifecycle [] :=
  ⟨.empty lifecycle, rfl, rfl, rfl, fun h => absurd rfl h, rfl⟩

theorem Adds.mem [Scalar α] {b : Behavior α} {m n : Node α} (hn : s.Adds b s' n) :
    m ∈ s'.nodes ↔ m = n ∨ m ∈ s.withTime.nodes := by rw [hn.nodes, mem_insertNode]

/-- The handles in a set have been given out before the next one, that of the node that keeps
time first of all. -/
def Issued (s : NodeSet α) : Prop := 0 < s.next ∧ ∀ n ∈ s.nodes, n.id < s.next

theorem find?_insertNode {n : Node α} {id : NodeId} (hid : n.id ≠ id) (ns : List (Node α)) :
    (insertNode n ns).find? (·.id == id) = ns.find? (·.id == id) := by
  have hskip (ms : List (Node α)) : (n :: ms).find? (·.id == id) = ms.find? (·.id == id) :=
    List.find?_cons_of_neg (by simpa using hid)
  induction ns with
  | nil => exact hskip []
  | cons m ms ih =>
    unfold insertNode
    split
    · rw [List.find?_cons, List.find?_cons, ih]
    · exact hskip (m :: ms)

/-- A handle leads to the same node when the one that keeps time joins. -/
theorem node?_withTime {m : Node α} {id : NodeId} (hm : s.node? id = some m) :
    s.withTime.node? id = some m := by
  have hactive : s.timeActive = true := by
    rw [timeActive, Bool.not_eq_true', List.isEmpty_eq_false_iff_exists_mem]
    exact ⟨m, List.mem_of_find?_eq_some hm⟩
  rwa [withTime, if_pos hactive]

theorem Issued.withTime (h : s.Issued) : s.withTime.Issued := by
  unfold NodeSet.withTime
  split
  · exact h
  · exact ⟨h.1, List.forall_mem_singleton.mpr h.1⟩

theorem Issued.prepared (h : s.Issued) (raised : Features) : (s.prepared raised).Issued := by
  refine ⟨Nat.succ_pos _, fun n hn => Nat.lt_succ_of_lt ?_⟩
  rw [← withTime_next]
  exact h.withTime.2 n hn

theorem Adds.issued [Scalar α] {b : Behavior α} {n : Node α} (h : s.Issued)
    (hn : s.Adds b s' n) : s'.Issued := by
  rw [Issued, hn.next]
  refine ⟨Nat.succ_pos _, fun m hm => ?_⟩
  rcases hn.mem.mp hm with rfl | hm
  · exact hn.id ▸ Nat.lt_succ_self _
  · exact withTime_next s ▸ Nat.lt_succ_of_lt (h.withTime.2 m hm)

/-- A handle keeps leading to the same node. -/
theorem Adds.node?_eq_some [Scalar α] {b : Behavior α} {n m : Node α} {id : NodeId}
    (h : s.Issued) (hn : s.Adds b s' n) (hm : s.node? id = some m) : s'.node? id = some m := by
  have hid : n.id ≠ id := by
    have hold := h.2 m (List.mem_of_find?_eq_some hm)
    rw [show m.id = id by simpa using List.find?_some hm, ← hn.id] at hold
    exact Nat.ne_of_gt hold
  rw [node?, hn.nodes, find?_insertNode hid]
  exact node?_withTime hm

theorem Joined.issued {order : List (Node α)} (h : s.Joined order) : s.Issued := by
  rw [Issued, h.next]
  refine ⟨Nat.lt_of_lt_of_le Nat.zero_lt_one (Nat.le_max_right ..), fun n hn => ?_⟩
  exact Nat.lt_of_lt_of_le (h.length_eq ▸ h.id_lt hn) (Nat.le_max_left ..)

/-- Handles are given out in order. -/
theorem Accounts.next_eq (h : s.Accounts lifecycle admitted) : s.next = admitted.length + 1 := by
  have hlength := congrArg List.length h.behaviors
  rw [List.length_map] at hlength
  rw [h.joined.next, hlength]
  cases admitted with
  | nil => rfl
  | cons x xs => simp

/-- One more accepted behavior. -/
theorem Accounts.adds [Scalar α] {b : Behavior α} {n : Node α} {raised : Features}
    (h : s.Accounts lifecycle admitted) (hn : s.Adds b s' n)
    (hraised : b.accept s.settings = .ok raised) :
    s'.Accounts lifecycle (admitted ++ [⟨b, n.id, raised⟩]) := by
  have hlifecycle : s.settings.lifecycle = lifecycle := by rw [h.settings]
  have hwith := h.joined.withTime
  have hbehaviors : (if s.timeActive then s.byId else [timeNode s.settings.lifecycle]).map
      (·.behavior) = .time lifecycle :: admitted.map (·.behavior) := by
    have hold := h.behaviors
    rw [h.active]
    cases admitted with
    | nil => rw [hlifecycle]; rfl
    | cons x xs => exact hold
  have hid : n.id = 1 + admitted.length := by rw [hn.id, h.next_eq, Nat.add_comm]
  have hjoined := hwith.adds hn
  have hbyId := hjoined.byId_eq
  have hnonempty : (admitted ++ [(⟨b, n.id, raised⟩ : Admission α)]).isEmpty = false := by simp
  refine ⟨hbyId ▸ hjoined, ?_, ?_, ?_, fun _ => ?_, ?_⟩
  · rw [List.map_append, h.handles, List.length_append, List.length_singleton,
      List.range'_1_concat]
    exact congrArg (List.range' 1 admitted.length ++ [·]) hid
  · rw [hbyId, hnonempty, List.map_append, hbehaviors, List.map_append]
    simp only [List.map_cons, List.map_nil, hn.behavior]
    rfl
  · rw [hnonempty, timeActive, Bool.not_false, Bool.not_eq_true',
      List.isEmpty_eq_false_iff_exists_mem]
    exact ⟨n, hn.mem.mpr (.inl rfl)⟩
  · by_cases hfirst : admitted = []
    · refine ⟨timeNode lifecycle, hjoined.node?_eq_some.mpr ⟨hn.mem.mpr (.inr ?_), rfl⟩,
        rfl, rfl, rfl⟩
      rw [withTime, h.active, hfirst, hlifecycle]
      exact List.mem_singleton_self _
    · obtain ⟨m, hm, htime⟩ := h.time hfirst
      exact ⟨m, hn.node?_eq_some h.joined.issued hm, htime⟩
  · obtain ⟨_, hraised', hsettings⟩ := hn.features
    cases hraised.symm.trans hraised'
    rw [hsettings, h.settings, List.foldl_append]
    rfl

end NodeSet

namespace Animation

/-! ### What was accepted -/

/-- What was accepted, by the answers to the offers. -/
def admissions (answers : List (Except Fault (Admission α))) : List (Admission α) :=
  answers.filterMap Except.toOption

section

variable {fault : Fault} {admission : Admission α}
  {answers : List (Except Fault (Admission α))}

@[simp] theorem admissions_nil : admissions ([] : List (Except Fault (Admission α))) = [] := rfl

@[simp] theorem admissions_error : admissions (.error fault :: answers) = admissions answers := rfl

@[simp] theorem admissions_ok :
    admissions (.ok admission :: answers) = admission :: admissions answers := rfl

end

variable [Scalar α]

/-! ### One offer -/

/-- Has a node join an animation and tells what was accepted. What an offer that ends in a fault
did stays done. -/
def offer (a : Animation σ α) (b : Behavior α) :
    Except Fault (Admission α) × Animation σ α :=
  match (join b).run a with
  | .ok id added => (do return ⟨b, id, ← b.accept a.nodes.settings⟩, added)
  | .error fault left => (.error fault, left)

/-- Offers nodes one after the other. -/
def offerAll (a : Animation σ α) :
    List (Behavior α) → List (Except Fault (Admission α)) × Animation σ α
  | [] => ([], a)
  | b :: bs =>
    let (answer, offered) := a.offer b
    let (answers, last) := offered.offerAll bs
    (answer :: answers, last)

/-- Every node finds room for its values when its turn comes, if it goes with the set. -/
def HasRoom (a : Animation σ α) : List (Behavior α) → Prop
  | [] => True
  | b :: bs =>
    ((b.accept a.nodes.settings).isOk → ¬ a.nodes.Outgrows b) ∧ (a.offer b).2.HasRoom bs

instance : (a : Animation σ α) → (bs : List (Behavior α)) → Decidable (a.HasRoom bs)
  | _, [] => .isTrue trivial
  | a, b :: bs =>
    have := instDecidableHasRoom (a.offer b).2 bs
    inferInstanceAs (Decidable (_ ∧ _))

variable {a : Animation σ α} {b : Behavior α}

/-- A node that does not go with the set leaves the animation as it was. -/
theorem offer_of_reject {fault : Fault} (h : b.accept a.nodes.settings = .error fault) :
    a.offer b = (.error fault, a) := by
  have hjoin : NodeSet.join b a.nodes = .error fault a.nodes :=
    NodeSet.run_join_eq_error.mpr (.inl ⟨h, rfl⟩)
  simp only [offer, EStateM.run, join, hjoin]

/-- A node that goes with the set but makes a record too long is given up when the set is prepared
for it. -/
theorem offer_of_outgrows {raised : Features} (h : b.accept a.nodes.settings = .ok raised)
    (hlong : a.nodes.Outgrows b) :
    a.offer b = (.error .sizeOverflow, { a with nodes := a.nodes.prepared raised }) := by
  have hjoin : NodeSet.join b a.nodes = .error .sizeOverflow (a.nodes.prepared raised) :=
    NodeSet.run_join_eq_error.mpr (.inr ⟨raised, h, hlong, rfl, rfl⟩)
  simp only [offer, EStateM.run, join, hjoin]

/-- Any other node is added, and the data of the old layout given up. -/
theorem offer_of_fits {raised : Features} (h : b.accept a.nodes.settings = .ok raised)
    (hfits : ¬ a.nodes.Outgrows b) :
    ∃ nodes n, a.nodes.Adds b nodes n ∧
      a.offer b = (.ok ⟨b, n.id, raised⟩, { a with nodes, kept := [] }) := by
  cases hjoin : NodeSet.join b a.nodes with
  | error fault nodes =>
    rcases NodeSet.run_join_eq_error.mp hjoin with ⟨haccept, -⟩ | ⟨_, -, hlong, -⟩
    · cases h.symm.trans haccept
    · exact absurd hlong hfits
  | ok id nodes =>
    obtain ⟨n, rfl, hn⟩ := NodeSet.leads_join hjoin
    refine ⟨nodes, n, hn, ?_⟩
    simp only [offer, EStateM.run, join, hjoin, h, bind, Except.bind, pure, Except.pure]

/-- An offer that finds room is rejected and changes nothing, or the node is added. -/
theorem offer_cases (hroom : (b.accept a.nodes.settings).isOk → ¬ a.nodes.Outgrows b) :
    (∃ fault, b.accept a.nodes.settings = .error fault ∧ a.offer b = (.error fault, a)) ∨
      ∃ raised nodes n, b.accept a.nodes.settings = .ok raised ∧ a.nodes.Adds b nodes n ∧
        a.offer b = (.ok ⟨b, n.id, raised⟩, { a with nodes, kept := [] }) := by
  cases haccept : b.accept a.nodes.settings with
  | error fault => exact .inl ⟨fault, rfl, offer_of_reject haccept⟩
  | ok raised =>
    obtain ⟨nodes, n, hn, hoffer⟩ := offer_of_fits haccept (hroom (by rw [haccept]; rfl))
    exact .inr ⟨raised, nodes, n, rfl, hn, hoffer⟩

/-- Whatever is offered, a handle that was given out leads to the same node. -/
theorem node?_offer (h : a.nodes.Issued) (b : Behavior α) :
    (a.offer b).2.nodes.Issued ∧
      ∀ id n, a.nodes.node? id = some n → (a.offer b).2.nodes.node? id = some n := by
  cases haccept : b.accept a.nodes.settings with
  | error fault =>
    rw [offer_of_reject haccept]
    exact ⟨h, fun _ _ hn => hn⟩
  | ok raised =>
    by_cases hlong : a.nodes.Outgrows b
    · rw [offer_of_outgrows haccept hlong]
      exact ⟨h.prepared raised, fun _ _ hn => NodeSet.node?_withTime hn⟩
    · obtain ⟨nodes, n, hn, hoffer⟩ := offer_of_fits haccept hlong
      rw [hoffer]
      exact ⟨hn.issued h, fun _ _ hm => hn.node?_eq_some h hm⟩

/-! ### All offers -/

theorem node?_offerAll (bs : List (Behavior α)) :
    ∀ {a : Animation σ α}, a.nodes.Issued → ∀ id n, a.nodes.node? id = some n →
      (a.offerAll bs).2.nodes.node? id = some n := by
  induction bs with
  | nil => exact fun _ _ _ hn => hn
  | cons b bs ih =>
    intro a h id n hn
    obtain ⟨hissued, hkeeps⟩ := node?_offer h b
    exact ih hissued id n (hkeeps id n hn)

/-- What was accepted keeps accounting for the set. -/
theorem accounts_offerAll {lifecycle : Lifecycle} (bs : List (Behavior α)) :
    ∀ {a : Animation σ α} {admitted : List (Admission α)}, a.nodes.Accounts lifecycle admitted →
      a.HasRoom bs →
      (a.offerAll bs).2.nodes.Accounts lifecycle (admitted ++ admissions (a.offerAll bs).1) := by
  induction bs with
  | nil =>
    intro a admitted h _
    rwa [offerAll, admissions_nil, List.append_nil]
  | cons b bs ih =>
    rintro a admitted h ⟨hroom, hrest⟩
    rcases offer_cases hroom with ⟨fault, -, hoffer⟩ | ⟨raised, nodes, n, hraised, hn, hoffer⟩
    · rw [hoffer] at hrest
      simpa only [offerAll, hoffer, admissions_error] using ih h hrest
    · rw [hoffer] at hrest
      have haccounts := @ih { a with nodes, kept := [] } _ (h.adds hn hraised) hrest
      rw [List.append_assoc] at haccounts
      simp only [offerAll, hoffer]
      exact haccounts

/-- The rejected offers may be left out. -/
theorem offerAll_admissions (bs : List (Behavior α)) : ∀ a : Animation σ α, a.HasRoom bs →
    a.offerAll ((admissions (a.offerAll bs).1).map (·.behavior)) =
      ((admissions (a.offerAll bs).1).map .ok, (a.offerAll bs).2) := by
  induction bs with
  | nil => exact fun _ _ => rfl
  | cons b bs ih =>
    rintro a ⟨hroom, hrest⟩
    rcases offer_cases hroom with ⟨fault, -, hoffer⟩ | ⟨raised, nodes, n, -, -, hoffer⟩
    · rw [hoffer] at hrest
      simpa only [offerAll, hoffer, admissions_error] using ih a hrest
    · rw [hoffer] at hrest
      simp only [offerAll, hoffer, admissions_ok, List.map_cons, ih _ hrest]

/-- Data that was kept stays until something is accepted. -/
theorem kept_offerAll (bs : List (Behavior α)) : ∀ a : Animation σ α, a.HasRoom bs →
    (a.offerAll bs).2.initializer = a.initializer ∧
      (a.offerAll bs).2.kept = if (admissions (a.offerAll bs).1).isEmpty then a.kept else [] := by
  induction bs with
  | nil => exact fun _ _ => ⟨rfl, rfl⟩
  | cons b bs ih =>
    rintro a ⟨hroom, hrest⟩
    rcases offer_cases hroom with ⟨fault, -, hoffer⟩ | ⟨raised, nodes, n, -, -, hoffer⟩
    · rw [hoffer] at hrest
      simpa only [offerAll, hoffer, admissions_error] using ih a hrest
    · rw [hoffer] at hrest
      simpa [offerAll, hoffer] using ih { a with nodes, kept := [] } hrest

/-- **Additions to a fresh set**, of whatever nodes in whatever order, as long as their values
find room: the accepted ones account for the set; a handle that was given out leads to the same
node ever after; the rejected ones might as well not have been offered; and of one more node it is
told exactly when it is rejected, by an animation that stays as it was, when it is accepted, and
when its values find no room, which leaves the animation prepared for a node that does not come. -/
theorem offerAll_spec (lifecycle : Lifecycle) (initializer : Option (Initializer σ α))
    (kept : List (SharedBake α)) (bs : List (Behavior α))
    (hroom : HasRoom { nodes := .empty lifecycle, initializer, kept } bs) :
    let fresh : Animation σ α := { nodes := .empty lifecycle, initializer, kept }
    let (answers, a) := fresh.offerAll bs
    let admitted := admissions answers
    a.nodes.Accounts lifecycle admitted ∧
      (∀ later id n, a.nodes.node? id = some n →
        (a.offerAll later).2.nodes.node? id = some n) ∧
      fresh.offerAll (admitted.map (·.behavior)) = (admitted.map .ok, a) ∧
      (a.initializer = initializer ∧ a.kept = if admitted.isEmpty then kept else []) ∧
      ∀ b,
        (∀ fault, b.accept a.nodes.settings = .error fault → a.offer b = (.error fault, a)) ∧
        (∀ raised, b.accept a.nodes.settings = .ok raised →
          (¬ a.nodes.Outgrows b → ∃ nodes, a.offer b =
            (.ok ⟨b, admitted.length + 1, raised⟩, { a with nodes, kept := [] })) ∧
          (a.nodes.Outgrows b → a.offer b =
            (.error .sizeOverflow, { a with nodes := a.nodes.prepared raised }))) := by
  intro fresh
  have haccounts : (fresh.offerAll bs).2.nodes.Accounts lifecycle
      (admissions (fresh.offerAll bs).1) :=
    accounts_offerAll bs (a := fresh) (NodeSet.Accounts.empty lifecycle) hroom
  refine ⟨haccounts, fun later => node?_offerAll later haccounts.joined.issued,
    offerAll_admissions bs fresh hroom, kept_offerAll bs fresh hroom, fun b =>
      ⟨fun fault => offer_of_reject, fun raised haccept =>
        ⟨fun hfits => ?_, offer_of_outgrows haccept⟩⟩⟩
  obtain ⟨nodes, n, hn, hoffer⟩ := offer_of_fits haccept hfits
  have hid : n.id = (admissions (fresh.offerAll bs).1).length + 1 := by
    rw [hn.id, haccounts.next_eq]
  exact ⟨nodes, hid ▸ hoffer⟩

/-- A node of the user that keeps values in the baked records. -/
def userNode (length : Nat) (priority : Int) (answer : Except Fault Features) : Behavior Rat :=
  .custom
    { name := "node", mode := .perParticle .baked, length, priority
      accept := fun _ => answer, vertexCode := fun _ => pure [] }

/-- Three nodes of the user: one that stands before the node that keeps time, one that does not go
with the set, and one that raises a feature. -/
def threeNodes : List (Behavior Rat) :=
  [userNode 2 (-1) (.ok {}), userNode 2 7 (.error (.unknownNode 7)),
    userNode 2 0 (.ok { velocity := true })]

/-- Two of them are accepted and account for the set. -/
theorem threeNodes_account :
    let fresh : Animation Nat Rat := { nodes := .empty {} }
    fresh.HasRoom threeNodes ∧
      (fresh.offerAll threeNodes).2.nodes.Accounts {}
        (admissions (fresh.offerAll threeNodes).1) ∧
      (admissions (fresh.offerAll threeNodes).1).map (·.id) = [1, 2] ∧
      (fresh.offerAll threeNodes).2.nodes.nodes.map (fun n => (n.id, n.offset)) =
        [(1, 4), (0, 0), (2, 6)] ∧
      (fresh.offerAll threeNodes).2.nodes.settings.features = { velocity := true } :=
  ⟨by decide, (offerAll_spec {} none [] threeNodes (by decide)).1, by decide, by decide, by decide⟩

/-- A node whose values find no room behind those of the node that keeps time leaves its feature
and that node behind, and takes a handle. -/
theorem largest_node_leaves_traces :
    let fresh : Animation Nat Rat := { nodes := .empty {} }
    let largest := userNode (Size.bound - 1) 0 (.ok { velocity := true })
    largest.accept fresh.nodes.settings = .ok { velocity := true } ∧
      (fresh.offer largest).1.toOption.isNone ∧
      (fresh.offer largest).2.nodes.settings.features = { velocity := true } ∧
      (fresh.offer largest).2.nodes.timeActive = true ∧
      (fresh.offer largest).2.nodes.nodes.map (·.id) = [0] ∧
      (fresh.offer largest).2.nodes.next = 2 := by
  decide

end Animation

end ParticleShader
