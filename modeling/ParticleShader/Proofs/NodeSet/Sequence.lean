import ParticleShader.Proofs.NodeSet.Compiled

/-!
# The sequence of the code

The vertex program of a set is written from its beginning to its end: every part of it, be
it a fixed fragment or the code of one node, is what its step gives in the state that the
part before it left. The three blocks pick their nodes from the same list. Because the
nodes stand by priority and the blocks divide the priorities, what they pick is, read one
after the other, the list itself. None of this depends on what the nodes do, so it holds
of nodes of the user as well.
-/

namespace ParticleShader

variable {α : Type}

open Compile Compilation

/-! ### Blocks and priorities -/

namespace Block

variable {priority : Int}

theorem ofPriority_eq_primary : ofPriority priority = primary ↔ priority < postPriority := by
  unfold ofPriority
  split <;> rename_i h
  · simp [h]
  · split <;> simp [h]

theorem ofPriority_eq_post :
    ofPriority priority = post ↔ postPriority ≤ priority ∧ priority < colorPriority := by
  unfold ofPriority
  split <;> rename_i h
  · simpa using fun hle => absurd h (Int.not_lt.mpr hle)
  · split <;> rename_i h' <;> simp [Int.not_lt.mp h, h']

theorem ofPriority_eq_color : ofPriority priority = color ↔ colorPriority ≤ priority := by
  unfold ofPriority
  split <;> rename_i h
  · have hlt : priority < colorPriority := Int.lt_trans h (by decide)
    simpa using hlt
  · split <;> rename_i h' <;> simp [h', Int.not_lt.mp]

end Block

/-- Elements that come first may be picked first. -/
theorem filter_append_filter_not {β : Type} {p : β → Bool} {l : List β}
    (h : l.Pairwise fun a b => p b = true → p a = true) :
    l.filter p ++ l.filter (fun b => !p b) = l := by
  induction l with
  | nil => rfl
  | cons a l ih =>
    obtain ⟨hfirst, hrest⟩ := List.pairwise_cons.mp h
    cases ha : p a with
    | true => simpa [ha] using ih hrest
    | false =>
      have hnone : ∀ b ∈ l, p b = false := fun b hb => by
        simpa [ha] using mt (hfirst b hb)
      have hpicked : l.filter p = [] := List.filter_eq_nil_iff.mpr fun b hb => by simp [hnone b hb]
      have hkept : l.filter (fun b => !p b) = l :=
        List.filter_eq_self.mpr fun b hb => by simp [hnone b hb]
      simp [ha, hpicked, hkept]

namespace NodeSet

variable {s : NodeSet α} {c c' c₁ : Compilation α} {p : Program}

/-- **The blocks divide the nodes**: read one after the other they are the list itself. -/
theorem Joined.blocks {order : List (Node α)} (h : s.Joined order) :
    s.nodes.filter (·.info.block = .primary) ++ s.nodes.filter (·.info.block = .post) ++
      s.nodes.filter (·.info.block = .color) = s.nodes := by
  have hsorted := h.sorted.imp Node.Precedes.priority_le
  have hbefore : (s.nodes.filter fun n => !decide (n.info.block = .color)) ++
      s.nodes.filter (·.info.block = .color) = s.nodes := by
    have hfirst := filter_append_filter_not (p := fun n : Node α => !decide (n.info.block = .color))
      (hsorted.imp fun {m n} hle => ?_)
    · simpa using hfirst
    · simp only [Bool.not_eq_true', decide_eq_false_iff_not, NodeInfo.block,
        Block.ofPriority_eq_color]
      exact mt fun hcolor => Int.le_trans hcolor hle
  have hplaced : s.nodes.filter (·.info.block = .primary) ++
      s.nodes.filter (·.info.block = .post) =
        s.nodes.filter fun n => !decide (n.info.block = .color) := by
    have hsplit := filter_append_filter_not
      (p := fun n : Node α => decide (n.info.block = .primary))
      (l := s.nodes.filter fun n => !decide (n.info.block = .color))
      ((hsorted.sublist List.filter_sublist).imp fun {m n} hle => ?_)
    · rw [List.filter_filter, List.filter_filter] at hsplit
      rw [← hsplit]
      congr 1
      all_goals
        refine List.filter_congr fun n _ => ?_
        cases n.info.block <;> rfl
    · simp only [decide_eq_true_eq, NodeInfo.block, Block.ofPriority_eq_primary]
      exact Int.lt_of_le_of_lt hle
  rw [hplaced, hbefore]

/-! ### Code after code -/

/-- Code of nodes, each run on the state that the one before it left. -/
def Writes (code : Node α → Compile α Program) :
    Compilation α → List (Node α × Program) → Compilation α → Prop
  | c, [], c' => c = c'
  | c, (n, p) :: pieces, c' => ∃ c₁, Leads (code n) c p c₁ ∧ Writes code c₁ pieces c'

theorem leads_gather {code : Node α → Compile α Program} {nodes : List (Node α)} :
    Leads (gather code nodes) c p c' ↔
      ∃ pieces : List (Node α × Program), pieces.map Prod.fst = nodes ∧
        pieces.flatMap Prod.snd = p ∧ Writes code c pieces c' := by
  induction nodes generalizing c p with
  | nil =>
    rw [gather, leads_result]
    constructor
    · rintro ⟨rfl, rfl⟩
      exact ⟨[], rfl, rfl, rfl⟩
    · rintro ⟨pieces, hnodes, rfl, hwrites⟩
      obtain rfl := List.map_eq_nil_iff.mp hnodes
      exact ⟨rfl, hwrites.symm⟩
  | cons n nodes ih =>
    simp only [gather, leads_bind, leads_pure]
    constructor
    · rintro ⟨first, c₁, hfirst, others, c₂, hothers, rfl, rfl⟩
      obtain ⟨pieces, rfl, rfl, hwrites⟩ := ih.mp hothers
      exact ⟨(n, first) :: pieces, rfl, rfl, c₁, hfirst, hwrites⟩
    · rintro ⟨pieces, hnodes, rfl, hwrites⟩
      cases pieces with
      | nil => cases hnodes
      | cons piece pieces =>
        obtain ⟨rfl, rfl⟩ := List.cons.inj hnodes
        obtain ⟨c₁, hfirst, hothers⟩ := hwrites
        exact ⟨piece.2, c₁, hfirst, _, c', ih.mpr ⟨pieces, rfl, rfl, hothers⟩, rfl, rfl⟩

/-! ### The vertex program -/

/-- The vertex program of a set in its parts. -/
structure Sequence (α : Type) where
  /-- The copy of the vertex. -/
  start : Program
  /-- The nodes before the placement, each with its code. -/
  primary : List (Node α × Program)
  /-- The placement of the vertex. -/
  placement : Program
  /-- The nodes behind the placement, each with its code. -/
  post : List (Node α × Program)
  /-- The preparation of the color. -/
  colorStart : Program
  /-- The nodes of the color, each with its code. -/
  color : List (Node α × Program)
  /-- The hand-over of the color. -/
  handOver : Program

namespace Sequence

/-- The parts, one after the other. -/
def code (q : Sequence α) : Program :=
  q.start ++ q.primary.flatMap Prod.snd ++ q.placement ++ q.post.flatMap Prod.snd ++
    (q.colorStart ++ q.color.flatMap Prod.snd ++ q.handOver)

/-- The nodes in the order of their code. -/
def nodes (q : Sequence α) : List (Node α) := (q.primary ++ q.post ++ q.color).map Prod.fst

/-- The parts are written one after the other, each in the state that the one before it
left but for the phase. -/
def Written (q : Sequence α) (c c' : Compilation α) : Prop :=
  ∃ c₁ c₂ c₃ c₄ c₅ c₆,
    Leads initCode { c with phase := .init } q.start c₁ ∧
    Writes Node.vertexCode { c₁ with phase := .primary } q.primary c₂ ∧
    Leads combineCode { c₂ with phase := .combine } q.placement c₃ ∧
    Writes Node.vertexCode { c₃ with phase := .post } q.post c₄ ∧
    Leads initColor { c₄ with phase := .colorInit } q.colorStart c₅ ∧
    Writes Node.vertexCode { c₅ with phase := .color } q.color c₆ ∧
    c' = { c₆ with phase := .colorCombine } ∧ q.handOver = c'.colorPassCode

end Sequence

theorem of_vertexFragments (h : Leads s.vertexFragments c p c') :
    ∃ q : Sequence α, q.code = p ∧ q.Written c c' ∧
      q.primary.map Prod.fst = s.nodes.filter (·.info.block = .primary) ∧
      q.post.map Prod.fst = s.nodes.filter (·.info.block = .post) ∧
      q.color.map Prod.fst = s.nodes.filter (·.info.block = .color) := by
  simp only [vertexFragments, placeFragments, colorFragments, leads_bind, leads_enter,
    leads_pure, leads_get] at h
  obtain ⟨_, _, ⟨_, _, ⟨-, rfl⟩, start, c₁, hstart, _, _, ⟨-, rfl⟩, _, c₂, hfirst, _, _,
    ⟨-, rfl⟩, placement, c₃, hplacement, _, _, ⟨-, rfl⟩, _, c₄, hsecond, rfl, rfl⟩, h⟩ := h
  obtain ⟨_, _, ⟨_, _, ⟨-, rfl⟩, colorStart, c₅, hcolorStart, _, _, ⟨-, rfl⟩, _, c₆, hthird, _, _,
    ⟨-, rfl⟩, _, _, ⟨rfl, rfl⟩, rfl, rfl⟩, rfl, rfl⟩ := h
  obtain ⟨primary, hprimary, rfl, hwrites₂⟩ := leads_gather.mp hfirst
  obtain ⟨post, hpost, rfl, hwrites₄⟩ := leads_gather.mp hsecond
  obtain ⟨color, hcolor, rfl, hwrites₆⟩ := leads_gather.mp hthird
  exact ⟨⟨start, primary, placement, post, colorStart, color, _⟩, rfl,
    ⟨c₁, c₂, c₃, c₄, c₅, c₆, hstart, hwrites₂, hplacement, hwrites₄, hcolorStart, hwrites₆, rfl,
      rfl⟩, hprimary, hpost, hcolor⟩

/-- The nodes of the blocks, one after the other, are those of the set. -/
theorem Joined.nodes_eq {order : List (Node α)} {q : Sequence α} (h : s.Joined order)
    (hprimary : q.primary.map Prod.fst = s.nodes.filter (·.info.block = .primary))
    (hpost : q.post.map Prod.fst = s.nodes.filter (·.info.block = .post))
    (hcolor : q.color.map Prod.fst = s.nodes.filter (·.info.block = .color)) :
    q.nodes = s.nodes := by
  rw [Sequence.nodes, List.map_append, List.map_append, hprimary, hpost, hcolor, h.blocks]

/-! ### The texture code -/

section

variable [Scalar α] {source target : String} {q : Program}

/-- The texture code of a set that animates the texture: the nodes have their turns between
two copies, in the order of the set. -/
def WritesTexture (s : NodeSet α) (source target : String) (c : Compilation α) (q : Program)
    (c' : Compilation α) : Prop :=
  ∃ uv pieces c₁, Leads (setUv source target) c uv { c with uv := some uv } ∧
    Writes Node.uvCode { c with uv := some uv } pieces c₁ ∧ pieces.map Prod.fst = s.nodes ∧
    q = Statement.mov uv.working.xy uv.source :: pieces.flatMap Prod.snd ++
      [Statement.mov uv.target uv.working.xy] ∧
    c' = { c₁ with uvCode := some q }

theorem writesTexture_of_writeUvCode (hon : c.features.uvNode = true)
    (h : Leads (s.writeUvCode source target) c q c') : s.WritesTexture source target c q c' := by
  unfold writeUvCode at h
  rw [leads_has_bind, if_pos hon] at h
  simp only [leads_bind, leads_pure, storeUvCode, leads_modify] at h
  obtain ⟨uv, _, huv, _, c₁, hnodes, _, _, rfl, rfl, rfl⟩ := h
  obtain ⟨pieces, hpieces, rfl, hwrites⟩ := leads_gather.mp hnodes
  obtain ⟨_, _, _, -, -, -, -, rfl⟩ := leads_setUv.mp huv
  exact ⟨uv, pieces, c₁, huv, hwrites, hpieces, rfl, rfl⟩

theorem writesTexture_of_uvCode (hon : c.features.uvNode = true) (hnone : c.uvCode = none)
    (h : Leads (s.uvCode source target) c q c') : s.WritesTexture source target c q c' := by
  have hwritten : c.writtenUvCode source target = .ok none := by
    unfold writtenUvCode
    rw [hnone]
    cases c.uv <;> rfl
  unfold uvCode at h
  rw [leads_get_bind] at h
  split at h
  · simp at h
  · simp only [leads_bind, leads_ofOutcome, hwritten] at h
    obtain ⟨_, _, ⟨⟨⟩, rfl⟩, h⟩ := h
    exact writesTexture_of_writeUvCode hon (leads_orAbandon.mp h)

end

/-! ### Code that leaves the texture alone -/

/-- What the texture code depends on is the same in two states of a compilation. -/
structure SameTexture (c c' : Compilation α) : Prop where
  /-- The same features are on. -/
  features : c'.features = c.features
  /-- The registers of the texture code are the same. -/
  uv : c'.uv = c.uv
  /-- The texture code is the same. -/
  uvCode : c'.uvCode = c.uvCode

theorem SameTexture.enter (c : Compilation α) (phase : Phase) :
    SameTexture c { c with phase } := ⟨rfl, rfl, rfl⟩

theorem SameTexture.trans {c'' : Compilation α} (h : SameTexture c c') (h' : SameTexture c' c'') :
    SameTexture c c'' :=
  ⟨h'.features.trans h.features, h'.uv.trans h.uv, h'.uvCode.trans h.uvCode⟩

/-- Code of a node leaves the texture alone. -/
def LeavesTexture (code : Compile α Program) : Prop :=
  ∀ {c p c'}, Leads code c p c' → SameTexture c c'

theorem leavesTexture_vertexCode {n : Node α}
    (h : ∀ node, n.behavior = .custom node → LeavesTexture (node.vertexCode n.info)) :
    LeavesTexture n.vertexCode := by
  intro c p c' hcode
  by_cases hcatalogue : n.behavior.IsCatalogue
  · have hrecords := Node.records_vertexCode hcatalogue hcode
    rw [hrecords.frame]
    exact ⟨rfl, rfl, rfl⟩
  · cases hb : n.behavior with
    | custom node =>
      simp only [Node.vertexCode, hb] at hcode
      exact h node hb hcode
    | _ => exact absurd (by rw [hb]; exact trivial) hcatalogue

theorem leavesTexture_of_isCatalogue [Scalar α] {n : Node α} (hn : n.behavior.IsCatalogue) :
    LeavesTexture n.uvCode := by
  intro c p c' hcode
  rw [(Node.records_uvCode hn hcode).frame]
  exact ⟨rfl, rfl, rfl⟩

theorem leavesTexture_uvCode [Scalar α] {n : Node α}
    (h : ∀ node, n.behavior = .custom node → LeavesTexture (node.uvCode n.info)) :
    LeavesTexture n.uvCode := by
  intro c p c' hcode
  by_cases hcatalogue : n.behavior.IsCatalogue
  · exact leavesTexture_of_isCatalogue hcatalogue hcode
  · cases hb : n.behavior with
    | custom node =>
      simp only [Node.uvCode, hb] at hcode
      exact h node hb hcode
    | _ => exact absurd (by rw [hb]; exact trivial) hcatalogue

theorem Writes.sameTexture {code : Node α → Compile α Program} {pieces : List (Node α × Program)}
    (hleaves : ∀ n ∈ pieces.map Prod.fst, LeavesTexture (code n))
    (h : Writes code c pieces c') : SameTexture c c' := by
  induction pieces generalizing c with
  | nil =>
    obtain rfl : c = c' := h
    exact ⟨rfl, rfl, rfl⟩
  | cons piece pieces ih =>
    rw [List.map_cons, List.forall_mem_cons] at hleaves
    obtain ⟨c₁, hfirst, hothers⟩ := h
    exact (hleaves.1 hfirst).trans (ih hleaves.2 hothers)

/-- Texture code that was written is given again, if no node takes the registers back. -/
theorem WritesTexture.again [Scalar α] {source target source' target' : String} {q q' : Program}
    {c'' : Compilation α} (hleaves : ∀ n ∈ s.nodes, LeavesTexture n.uvCode)
    (h : s.WritesTexture source target c q c')
    (hagain : Leads (s.uvCode source' target') c' q' c'') : q' = q ∧ c'' = c' := by
  obtain ⟨uv, pieces, c₁, -, hwrites, hpieces, -, rfl⟩ := h
  exact stays_uvCode (c := { c₁ with uvCode := some q })
    (hwrites.sameTexture (hpieces ▸ hleaves)).uv rfl hagain

theorem sameTexture_accumulator {wanted : Features → Bool} {start : Register}
    {putTarget putVarying : Register → ColorRegisters → ColorRegisters}
    (h : Leads (accumulator wanted start putTarget putVarying) c p c') : SameTexture c c' := by
  rw [leads_accumulator] at h
  split at h
  · obtain ⟨_, _, -, -, -, rfl⟩ := h
    exact ⟨rfl, rfl, rfl⟩
  · obtain ⟨-, rfl⟩ := h
    exact ⟨rfl, rfl, rfl⟩

theorem sameTexture_initColor (h : Leads initColor c p c') : SameTexture c c' := by
  obtain ⟨shared, -, h⟩ := leads_initColor.mp h
  split at h
  · obtain ⟨_, _, _, hmultiplier, hoffset, -⟩ := h
    exact (sameTexture_accumulator hmultiplier).trans (sameTexture_accumulator hoffset)
  · obtain ⟨-, rfl⟩ := h
    exact ⟨rfl, rfl, rfl⟩

theorem Sequence.Written.sameTexture {q : Sequence α} (h : q.Written c c')
    (hleaves : ∀ n ∈ q.nodes, LeavesTexture n.vertexCode) : SameTexture c c' := by
  simp only [Sequence.nodes, List.map_append, List.forall_mem_append] at hleaves
  obtain ⟨⟨hprimary, hpost⟩, hcolor⟩ := hleaves
  obtain ⟨c₁, c₂, c₃, c₄, c₅, c₆, hstart, hwrites₂, hplacement, hwrites₄, hcolorStart, hwrites₆,
    rfl, -⟩ := h
  have hinit : SameTexture c c₁ := by
    obtain ⟨_, -, -, rfl⟩ := leads_initCode.mp hstart
    exact .enter c .init
  have hplaced : SameTexture c₂ c₃ := by
    obtain ⟨_, -, -, rfl⟩ := leads_combineCode.mp hplacement
    exact .enter c₂ .combine
  have hfirst := (SameTexture.enter c₁ .primary).trans (hwrites₂.sameTexture hprimary)
  have hsecond := (SameTexture.enter c₃ .post).trans (hwrites₄.sameTexture hpost)
  have hprepared := (SameTexture.enter c₄ .colorInit).trans (sameTexture_initColor hcolorStart)
  have hthird := (SameTexture.enter c₅ .color).trans (hwrites₆.sameTexture hcolor)
  exact (((((hinit.trans hfirst).trans hplaced).trans hsecond).trans hprepared).trans
    hthird).trans (.enter c₆ .colorCombine)

theorem texture_of_reset {profile : Profile} {pass : Pass} {features : Features}
    {sourceNames targetNames : List String} {u : Unit}
    (h : Leads (reset profile pass features sourceNames targetNames) c u c') :
    c'.features = features ∧ c'.uvCode = none := by
  obtain ⟨sources, targets, -, -, hshare⟩ := leads_reset.mp h
  obtain ⟨source, rest, vertex, directions, shared, c₁, -, -, -, -, hshared, rfl⟩ :=
    leads_shareRegisters.mp hshare
  obtain ⟨-, displacement, temporary, others, -, rfl, rfl⟩ := leads_allocateShared.mp hshared
  rw [claimingAll_frame]
  exact ⟨rfl, rfl⟩

/-! ### The whole code -/

variable [Scalar α]

/-- A node of the catalogue that animates the texture makes the set do so. -/
theorem Grown.uvNode_of_mem (h : s.Grown) {n : Node α} (hn : n ∈ s.nodes)
    (huv : n.behavior.raised.uvNode = true) : s.settings.features.uvNode = true := by
  induction h with
  | empty lifecycle => simp [NodeSet.empty] at hn
  | @add s s' b id _ hadd ih =>
    obtain ⟨m, -, hm⟩ := add_eq_ok hadd
    obtain ⟨f, hf, hsettings⟩ := hm.features
    have hunion : s'.settings.features.uvNode = (s.settings.features.uvNode || f.uvNode) := by
      rw [hsettings]
      rfl
    rw [hunion, Bool.or_eq_true]
    rw [hm.nodes, mem_insertNode] at hn
    rcases hn with rfl | hn
    · rw [hm.behavior] at huv
      by_cases hb : b.IsCatalogue
      · rw [Behavior.accept_eq_ok hb hf]
        exact .inr huv
      · cases b with
        | custom node => cases huv
        | _ => exact absurd trivial hb
    · unfold withTime at hn
      split at hn
      · exact .inl (ih hn)
      · rw [List.mem_singleton] at hn
        subst hn
        cases huv

variable {pass : Pass} {profile : Profile} {sourceNames targetNames : List String}

/-- **The sequence of the code**: the vertex program is made of its parts in their order, and
the nodes in them are those of the set in their order, each once. Texture code that is
written for a set that animates the texture has the turns of the nodes between two copies,
and is given again ever after, if no node of the user takes back what is remembered of it in its
turn. It is to be written if no node of the user did so before. -/
theorem Grown.sequence_spec (h : s.Grown)
    (hcode : Leads (s.vertexCode pass profile sourceNames targetNames) c p c₁) :
    (∃ (c₀ : Compilation α) (q : Sequence α),
      Leads (reset profile pass (s.settings.features ∪ pass.features) sourceNames targetNames)
        c () c₀ ∧ q.Written c₀ c₁ ∧ p = q.code ∧
      q.nodes = s.nodes ∧ (s.nodes.map (·.id)).Nodup ∧
      (∀ n ∈ q.primary.map Prod.fst, n.behavior.priority < 9) ∧
      (∀ n ∈ q.post.map Prod.fst, 9 ≤ n.behavior.priority ∧ n.behavior.priority < 18) ∧
      ∀ n ∈ q.color.map Prod.fst, 18 ≤ n.behavior.priority) ∧
    (∀ c₂ source target q c₃, c₂.features.uvNode = true → c₂.uvCode = none →
      Leads (s.uvCode source target) c₂ q c₃ →
        s.WritesTexture source target c₂ q c₃ ∧
        ((∀ n ∈ s.nodes, ∀ node, n.behavior = .custom node →
          LeavesTexture (node.uvCode n.info)) →
          ∀ source' target' q' c₄, Leads (s.uvCode source' target') c₃ q' c₄ →
            q' = q ∧ c₄ = c₃)) ∧
    ((∃ n ∈ s.nodes, n.behavior.raised.uvNode = true) → s.settings.features.uvNode = true) ∧
    (s.settings.features.uvNode = true →
      (∀ n ∈ s.nodes, ∀ node, n.behavior = .custom node →
        LeavesTexture (node.vertexCode n.info)) →
      c₁.features.uvNode = true ∧ c₁.uvCode = none) := by
  have hjoined := h.joined
  obtain ⟨⟨⟩, c₀, hreset, hfragments⟩ := leads_bind.mp (leads_orAbandon.mp hcode)
  obtain ⟨q, rfl, hwritten, hprimary, hpost, hcolor⟩ := of_vertexFragments hfragments
  have hnodes := hjoined.nodes_eq hprimary hpost hcolor
  refine ⟨⟨c₀, q, hreset, hwritten, rfl, hnodes, hjoined.nodup_ids, ?_, ?_, ?_⟩,
    fun c₂ source target q' c₃ hon hnone huv => ?_, ?_, fun hon hleaves => ?_⟩
  · rw [hprimary]
    exact fun n hn => Block.ofPriority_eq_primary.mp (of_decide_eq_true (List.mem_filter.mp hn).2)
  · rw [hpost]
    exact fun n hn => Block.ofPriority_eq_post.mp (of_decide_eq_true (List.mem_filter.mp hn).2)
  · rw [hcolor]
    exact fun n hn => Block.ofPriority_eq_color.mp (of_decide_eq_true (List.mem_filter.mp hn).2)
  · have hwrites := writesTexture_of_uvCode hon hnone huv
    exact ⟨hwrites, fun hleaves _ _ _ _ =>
      hwrites.again fun n hn => leavesTexture_uvCode (hleaves n hn)⟩
  · rintro ⟨n, hn, huv⟩
    exact h.uvNode_of_mem hn huv
  · obtain ⟨hfeatures, hnone⟩ := texture_of_reset hreset
    have hsame := hwritten.sameTexture fun n hn =>
      leavesTexture_vertexCode (hleaves n (hnodes ▸ hn))
    rw [hsame.features, hsame.uvCode, hfeatures]
    refine ⟨?_, hnone⟩
    show (s.settings.features.uvNode || pass.features.uvNode) = true
    rw [hon, Bool.true_or]

/-- A node of the user that has its turn before anything else. -/
def early : Node Rat where
  behavior := .custom
    { name := "early", mode := .global, length := 0, priority := -1
      accept := fun _ => .ok {}, vertexCode := fun _ => pure [] }
  id := 1

/-- Particles whose texture scrolls behind such a node. -/
def preceded : NodeSet Rat where
  settings := { features := { uvNode := true } }
  nodes := [early, timeNode {}, { behavior := .uv .u (.perParticle .baked), id := 2, offset := 4 }]
  stride := 6

theorem preceded_sequence : ∃ p c₁ code c₂,
    Leads (preceded.vertexCode scrollingPass .baseline ["va0"] ["vt0"]) { profile := .standard }
      p c₁ ∧
    Leads (preceded.uvCode "va1" "v0") c₁ code c₂ ∧
    (∃ (c₀ : Compilation Rat) (q : Sequence Rat), q.Written c₀ c₁ ∧ p = q.code ∧
      q.nodes.map (·.id) = [1, 0, 2]) ∧
    preceded.WritesTexture "va1" "v0" c₁ code c₂ := by
  have hfirst : (NodeSet.empty {}).add early.behavior =
      .ok ({ nodes := [early, timeNode {}], stride := 4 }, 1) := rfl
  have hgrown : preceded.Grown :=
    .add (b := .uv .u (.perParticle .baked)) (.add (.empty {}) hfirst) rfl
  have hsucceeds : succeeds (do
      let _ ← preceded.vertexCode scrollingPass .baseline ["va0"] ["vt0"]
      preceded.uvCode "va1" "v0") { profile := .standard } = true := by decide +kernel
  obtain ⟨code, c₂, hboth⟩ := exists_leads hsucceeds
  obtain ⟨p, c₁, hvertex, huv⟩ := leads_bind.mp hboth
  obtain ⟨⟨c₀, q, -, hwritten, hp, hnodes, -⟩, htexture, -, huntouched⟩ :=
    hgrown.sequence_spec hvertex
  have hleaves : ∀ n ∈ preceded.nodes, ∀ node, n.behavior = .custom node →
      LeavesTexture (node.vertexCode n.info) := by
    intro n hn node hb c p c' hcode
    simp only [preceded, List.mem_cons, List.not_mem_nil, or_false] at hn
    rcases hn with rfl | rfl | rfl <;> cases hb
    obtain ⟨-, rfl⟩ := leads_result.mp hcode
    exact ⟨rfl, rfl, rfl⟩
  obtain ⟨hon, hnone⟩ := huntouched rfl hleaves
  exact ⟨p, c₁, code, c₂, hvertex, huv, ⟨c₀, q, hwritten, hp, by rw [hnodes]; rfl⟩,
    (htexture c₁ "va1" "v0" code c₂ hon hnone huv).1⟩

end NodeSet

end ParticleShader
