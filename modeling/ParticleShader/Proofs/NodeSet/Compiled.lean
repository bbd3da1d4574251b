import ParticleShader.Proofs.Node.Needs
import ParticleShader.Proofs.NodeSet.WellFormed

/-!
# What a compiled set takes

The ledger of a compilation behind the vertex code and any number of requests for texture
code: the constant of the shared registers, then the needs of the nodes, block by block,
then what the texture code needs, once. Nothing else that the two do touches the ledger.
-/

namespace ParticleShader

variable {α : Type}

open Compile Compilation Node

theorem SharedRegisters.index_zero_ofPlaces (source vertex : Register)
    (directions : List Register) (helper displacement temporary : Nat) (velocity : Bool) :
    (ofPlaces source vertex directions helper displacement temporary velocity).zero.index =
      helper := by
  cases velocity <;> rfl

/-- The ledger in which only the constant of the shared registers is taken. -/
def Ledger.opened (pass : Pass) : Ledger where
  attributes := pass.taken.vertexAttributes
  constants := pass.taken.vertexConstants + 1
  indices := []
  bindings := []

namespace NodeSet

variable {s : NodeSet α} {c c' c₁ c₂ : Compilation α} {shared : SharedRegisters} {f : Features}
  {pass : Pass} {profile : Profile} {sourceNames targetNames : List String} {p q : Program}
  {needs : List (Node α × Need)}

/-- The needs of the vertex code of a set, in the order of its blocks. -/
def vertexNeeds (s : NodeSet α) (features : Features) : List (Node α × Need) :=
  [Block.primary, .post, .color].flatMap fun block =>
    (s.nodes.filter (·.info.block = block)).flatMap (Node.vertexNeeds features)

/-- The needs of the texture code of a set. -/
def uvNeeds [Scalar α] (s : NodeSet α) (features : Features) : List (Node α × Need) :=
  s.nodes.flatMap (Node.uvNeeds features)

theorem mem_vertexNeeds {n : Node α} {need : Need} :
    (n, need) ∈ s.vertexNeeds f ↔ n ∈ s.nodes ∧ need ∈ n.behavior.vertexNeeds f := by
  simp only [vertexNeeds, Node.vertexNeeds, List.mem_flatMap, List.mem_map, List.mem_filter,
    Prod.mk.injEq, decide_eq_true_eq]
  constructor
  · rintro ⟨block, -, m, ⟨hm, -⟩, need', hneed, rfl, rfl⟩
    exact ⟨hm, hneed⟩
  · rintro ⟨hn, hneed⟩
    refine ⟨n.info.block, ?_, n, ⟨hn, rfl⟩, need, hneed, rfl, rfl⟩
    cases n.info.block <;> decide

theorem mem_uvNeeds [Scalar α] {n : Node α} {need : Need} :
    (n, need) ∈ s.uvNeeds f ↔ n ∈ s.nodes ∧ need ∈ n.behavior.uvNeeds f := by
  simp only [uvNeeds, Node.uvNeeds, List.mem_flatMap, List.mem_map, Prod.mk.injEq]
  constructor
  · rintro ⟨m, hm, need', hneed, rfl, rfl⟩
    exact ⟨hm, hneed⟩
  · rintro ⟨hn, hneed⟩
    exact ⟨n, hn, need, hneed, rfl, rfl⟩

/-! ### The vertex code -/

/-- A set is compiled for a pass so far that some needs were met. -/
structure Compiled (s : NodeSet α) (pass : Pass) (needs : List (Node α × Need))
    (c : Compilation α) : Prop where
  /-- The vertex code is written. -/
  phase : c.phase = .colorCombine
  /-- The registers of the material are those of the pass. -/
  taken : c.taken = pass.taken
  /-- The features of the nodes and of the pass are on. -/
  features : c.features = s.featuresFor pass
  /-- The needs are entered behind the constant of the shared registers. -/
  ledger : c.ledger = (Ledger.opened pass).takeAll needs
  /-- That constant is the first one behind the pass. -/
  shared : ∃ shared, c.shared = some shared ∧ shared.zero.index = pass.taken.vertexConstants
  /-- Constants are taken within the profile. -/
  room : c.used.vertexConstants ≤ c.limit .vertexConstant

theorem Compiled.records {more : List (Node α × Need)} (h : s.Compiled pass needs c)
    (hrecords : c.Records c' more) : s.Compiled pass (needs ++ more) c' := by
  have hledger : c'.ledger = (Ledger.opened pass).takeAll (needs ++ more) := by
    rw [hrecords.ledger, h.ledger, Ledger.takeAll_append]
  have hroom := hrecords.room h.room
  rw [hrecords.frame] at hledger hroom ⊢
  exact ⟨h.phase, h.taken, h.features, hledger, h.shared, hroom⟩

/-- The code of nodes takes what they need, node by node. -/
theorem records_gather {code : Node α → Compile α Program}
    {needs : Features → Node α → List (Node α × Need)} {nodes : List (Node α)}
    (hcode : ∀ n ∈ nodes, ∀ {c c' : Compilation α} {p}, Leads (code n) c p c' →
      c.Records c' (needs c.features n))
    (h : Leads (gather code nodes) c p c') :
    c.Records c' (nodes.flatMap (needs c.features)) := by
  induction nodes generalizing c p with
  | nil =>
    obtain ⟨-, rfl⟩ := leads_result.mp h
    exact .refl c'
  | cons n nodes ih =>
    simp only [gather, leads_bind, leads_pure] at h
    obtain ⟨first, c₁, hfirst, others, c₂, hothers, -, rfl⟩ := h
    rw [List.forall_mem_cons] at hcode
    have hrecords := hcode.1 hfirst
    have hrest := ih hcode.2 hothers
    rw [hrecords.features] at hrest
    exact hrecords.trans hrest

theorem records_blockCode {block : Block} (hcatalogue : ∀ n ∈ s.nodes, n.behavior.IsCatalogue)
    (h : Leads (s.blockCode block) c p c') : c.Records c'
      ((s.nodes.filter (·.info.block = block)).flatMap (Node.vertexNeeds c.features)) :=
  records_gather (fun n hn => records_vertexCode (hcatalogue n (List.mem_filter.mp hn).1)) h

/-- Between two states of a compilation some needs were met, and what stands fast from the
beginning is the same. -/
structure Advances (c c' : Compilation α) (needs : List (Node α × Need)) : Prop where
  /-- The needs are entered in their order. -/
  ledger : c'.ledger = c.ledger.takeAll needs
  /-- The registers of the material stay. -/
  taken : c'.taken = c.taken
  /-- The shared registers stay. -/
  shared : c'.shared = c.shared
  /-- Constants are taken within the profile. -/
  room : c.used.vertexConstants ≤ c.limit .vertexConstant →
    c'.used.vertexConstants ≤ c'.limit .vertexConstant

theorem Advances.trans {c'' : Compilation α} {more : List (Node α × Need)}
    (h : Advances c c' needs) (h' : Advances c' c'' more) : Advances c c'' (needs ++ more) := by
  refine ⟨?_, h'.taken.trans h.taken, h'.shared.trans h.shared, fun hroom => h'.room (h.room hroom)⟩
  rw [h'.ledger, h.ledger, Ledger.takeAll_append]

theorem Advances.enter (c : Compilation α) (phase : Phase) : Advances c { c with phase } [] :=
  ⟨rfl, rfl, rfl, id⟩

theorem advances_blockCode {block : Block} {phase : Phase}
    (hcatalogue : ∀ n ∈ s.nodes, n.behavior.IsCatalogue) (hfeatures : c.features = f)
    (h : Leads (s.blockCode block) { c with phase } p c') : Advances c c'
      ((s.nodes.filter (·.info.block = block)).flatMap (Node.vertexNeeds f)) := by
  have hrecords := records_blockCode hcatalogue h
  subst hfeatures
  refine ⟨hrecords.ledger, ?_, ?_, hrecords.room⟩ <;> rw [hrecords.frame]

/-- The color accumulators are not in the ledger. -/
theorem advances_initColor {phase : Phase} (hc : c.Begun shared phase f)
    (hactive : phase.isActive = true) (h : Leads initColor c p c') : Advances c c' [] := by
  have hspends := spends_initColor hc hactive
  have hused := (hspends.spent h).used
  have hattributes : c'.used.vertexAttributes = c.used.vertexAttributes := hused .vertexAttribute
  have hconstants : c'.used.vertexConstants = c.used.vertexConstants := hused .vertexConstant
  have hframe := (hspends.after h).1
  have hprofile : c'.profile = c.profile := (hspends.spent h).profile
  refine ⟨?_, ?_, ?_, fun hroom => ?_⟩
  · unfold ledger
    rw [hattributes, hconstants, hframe]
    rfl
  · rw [hframe]
  · rw [hframe]
  · unfold limit
    rw [hconstants, hprofile]
    exact hroom

theorem ledger_of_reset {features : Features} {u : Unit}
    (h : Leads (reset profile pass features sourceNames targetNames) c u c') :
    c'.ledger = Ledger.opened pass ∧ c'.taken = pass.taken ∧
      (∃ shared, c'.shared = some shared ∧ shared.zero.index = pass.taken.vertexConstants) ∧
      c'.used.vertexConstants ≤ c'.limit .vertexConstant := by
  obtain ⟨sources, targets, -, -, hshare⟩ := leads_reset.mp h
  obtain ⟨source, rest, vertex, directions, shared, c₁, -, -, -, -, hshared, rfl⟩ :=
    leads_shareRegisters.mp hshare
  obtain ⟨hroom, displacement, temporary, others, -, rfl, rfl⟩ := leads_allocateShared.mp hshared
  rw [claimingAll_frame] at hroom ⊢
  exact ⟨rfl, rfl, ⟨_, rfl, SharedRegisters.index_zero_ofPlaces ..⟩, hroom⟩

variable [Scalar α]

/-- The fragments of the vertex program take what the blocks need. -/
theorem Built.advances_vertexFragments (h : s.Built) (hcovers : Covers f s)
    (hc : c.Begun shared .reset f) (hcode : Leads s.vertexFragments c p c') :
    Advances c c' (s.vertexNeeds f) := by
  simp only [vertexFragments, leads_bind, leads_pure] at hcode
  obtain ⟨placed, c₁, hplace, colored, c₂, hcolors, -, rfl⟩ := hcode
  obtain ⟨-, hbegun, -⟩ := h.extends_placeFragments hcovers hc hplace
  obtain ⟨primary, c₃, _, post, _, hprimary, hgrows, hpost, -, -⟩ :=
    h.of_placeFragments hcovers hc hplace
  obtain ⟨start, c₄, color, c₅, _, hstart, hbegun₄, -, hcolor, -, -, rfl⟩ :=
    h.of_colorFragments hcovers hbegun hcolors
  have hfirst := advances_blockCode h.isCatalogue hc.features hprimary
  have hfeatures : c₃.features = f := hgrows.features.trans hc.features
  have hsecond := advances_blockCode h.isCatalogue hfeatures hpost
  have hinit := (Advances.enter c₁ .colorInit).trans
    (advances_initColor (hbegun.enter .colorInit) rfl hstart)
  have hthird := advances_blockCode h.isCatalogue hbegun₄.features hcolor
  have hall := (((hfirst.trans hsecond).trans hinit).trans hthird).trans
    (Advances.enter c₅ .colorCombine)
  simpa [vertexNeeds] using hall

/-- Vertex code meets the needs of its set. -/
theorem Built.compiled_vertexCode (h : s.Built)
    (hcode : Leads (s.vertexCode pass profile sourceNames targetNames) c p c₁) :
    s.Compiled pass (s.vertexNeeds (s.featuresFor pass)) c₁ ∧ c₁.uv = none := by
  have hfeatures : s.settings.features ∪ pass.features = s.featuresFor pass := by
    rw [h.features_eq_raised, featuresFor]
  obtain ⟨_, c₀, hreset, hfragments⟩ := leads_bind.mp (leads_orAbandon.mp hcode)
  rw [hfeatures] at hreset
  obtain ⟨hledger, htaken, hshared, hroom⟩ := ledger_of_reset hreset
  obtain ⟨_, _, shared, -, -, hopened⟩ := opened_of_reset hreset
  have hcovers := covers_featuresFor s pass
  obtain ⟨hafter, hbegun, -⟩ :=
    h.extends_vertexFragments hcovers hopened.begun hfragments hopened.color
  obtain ⟨hledger₁, htaken₁, hshared₁, hroom₁⟩ :=
    h.advances_vertexFragments hcovers hopened.begun hfragments
  refine ⟨⟨hbegun.phase, htaken₁.trans htaken, hbegun.features, ?_, ?_, hroom₁ hroom⟩,
    hafter.uv.trans hopened.uv⟩
  · rw [hledger₁, hledger]
  · rw [hshared₁]
    exact hshared

/-! ### The texture code -/

/-- Requests for texture code, one after the other; each says from which register to
which. -/
def uvCodes (s : NodeSet α) : List (String × String) → Compile α (List Program)
  | [] => pure []
  | (source, target) :: calls => do
    let code ← s.uvCode source target
    let codes ← uvCodes s calls
    return code :: codes

omit [Scalar α] in
/-- Texture code that was written is given again, without a change. -/
theorem writtenUvCode_of_written {uv : UvRegisters} {code : Program} {sourceName targetName : String}
    {r : Option Program} (huv : c.uv = some uv) (hcode : c.uvCode = some code)
    (h : c.writtenUvCode sourceName targetName = .ok r) : r = some code := by
  unfold writtenUvCode at h
  rw [huv, hcode] at h
  obtain ⟨source, -, h⟩ := Outcome.bind_eq_ok.mp h
  obtain ⟨target, -, h⟩ := Outcome.bind_eq_ok.mp h
  split at h
  · cases h
  · exact (Outcome.pure_eq_ok.mp h).symm

theorem stays_uvCode {uv : UvRegisters} {code : Program} {sourceName targetName : String}
    (huv : c.uv = some uv) (hcode : c.uvCode = some code)
    (h : Leads (s.uvCode sourceName targetName) c q c') : q = code ∧ c' = c := by
  unfold uvCode at h
  rw [leads_get_bind] at h
  split at h
  · simp at h
  · simp only [leads_bind, leads_ofOutcome] at h
    obtain ⟨r, _, ⟨hwritten, rfl⟩, h⟩ := h
    rw [writtenUvCode_of_written huv hcode hwritten] at h
    exact leads_result.mp h

theorem stays_uvCodes {uv : UvRegisters} {code : Program} {calls : List (String × String)}
    {codes : List Program} (huv : c.uv = some uv) (hcode : c.uvCode = some code)
    (h : Leads (s.uvCodes calls) c codes c') : (∀ q ∈ codes, q = code) ∧ c' = c := by
  induction calls generalizing codes c' with
  | nil =>
    obtain ⟨rfl, rfl⟩ := leads_result.mp h
    exact ⟨nofun, rfl⟩
  | cons call calls ih =>
    simp only [uvCodes, leads_bind, leads_pure] at h
    obtain ⟨first, c₁, hfirst, others, c₂, hothers, rfl, rfl⟩ := h
    obtain ⟨rfl, rfl⟩ := stays_uvCode huv hcode hfirst
    obtain ⟨hsame, rfl⟩ := ih hothers
    exact ⟨List.forall_mem_cons.mpr ⟨rfl, hsame⟩, rfl⟩

/-- Texture code that is written meets the needs of the nodes, if one of them animates the
texture. -/
theorem Compiled.writeUvCode {sourceName targetName : String}
    (hcatalogue : ∀ n ∈ s.nodes, n.behavior.IsCatalogue) (h : s.Compiled pass needs c)
    (hcode : Leads (s.writeUvCode sourceName targetName) c q c') :
    if (s.featuresFor pass).uvNode then
      s.Compiled pass (needs ++ s.uvNeeds (s.featuresFor pass)) c' ∧
        ∃ uv code, c'.uv = some uv ∧ c'.uvCode = some code
    else c' = c := by
  unfold NodeSet.writeUvCode at hcode
  rw [leads_has_bind, h.features] at hcode
  split at hcode <;> rename_i hnode
  · rw [if_pos hnode]
    simp only [leads_bind, leads_setUv, leads_pure, storeUvCode, leads_modify] at hcode
    obtain ⟨_, _, ⟨shared, source, target, -, -, -, rfl, rfl⟩, nodes, c₁, hnodes, _, _, rfl, -,
      rfl⟩ := hcode
    have hrecords := records_gather (fun n hn => records_uvCode (hcatalogue n hn)) hnodes
    have hcompiled : s.Compiled pass needs
        { c with uv := some ⟨source, shared.displacement, target⟩ } :=
      ⟨h.phase, h.taken, h.features, h.ledger, h.shared, h.room⟩
    obtain ⟨hphase, htaken, hfeatures, hledger, hshared, hroom⟩ := hcompiled.records hrecords
    refine ⟨⟨hphase, htaken, hfeatures, ?_, hshared, hroom⟩, ?_⟩
    · rw [← h.features]
      exact hledger
    · rw [hrecords.frame]
      exact ⟨_, _, rfl, rfl⟩
  · rw [if_neg hnode]
    simp only [leads_bind, leads_ofOutcome, leads_pure] at hcode
    obtain ⟨_, _, ⟨-, rfl⟩, _, _, ⟨-, rfl⟩, -, rfl⟩ := hcode
    rfl

/-- Requests for texture code meet the needs of the nodes once, if there are requests and
a node animates the texture. -/
theorem Compiled.uvCodes {calls : List (String × String)} {codes : List Program}
    (hcatalogue : ∀ n ∈ s.nodes, n.behavior.IsCatalogue) (h : s.Compiled pass needs c) (huv : c.uv = none)
    (hcode : Leads (s.uvCodes calls) c codes c') :
    s.Compiled pass (needs ++
      if (s.featuresFor pass).uvNode ∧ calls ≠ [] then s.uvNeeds (s.featuresFor pass) else [])
      c' := by
  induction calls generalizing codes with
  | nil =>
    obtain ⟨-, rfl⟩ := leads_result.mp hcode
    simpa using h
  | cons call calls ih =>
    simp only [NodeSet.uvCodes, leads_bind, leads_pure] at hcode
    obtain ⟨first, c₁, hfirst, others, c₂, hothers, -, rfl⟩ := hcode
    have hactive : c.isActive = true := by
      unfold isActive
      rw [h.phase]
      rfl
    have hphase : c.phase ≠ .done := by
      intro hdone
      rw [h.phase] at hdone
      cases hdone
    rw [leads_uvCode hactive hphase huv] at hfirst
    have hwritten := h.writeUvCode hcatalogue hfirst
    by_cases hnode : (s.featuresFor pass).uvNode = true
    · rw [if_pos hnode] at hwritten
      obtain ⟨hcompiled, uv, code, huv', hcode'⟩ := hwritten
      obtain ⟨-, rfl⟩ := stays_uvCodes huv' hcode' hothers
      simpa [hnode] using hcompiled
    · rw [if_neg hnode] at hwritten
      subst hwritten
      have hrest := ih hothers
      simp only [hnode, Bool.false_eq_true, false_and, if_false] at hrest ⊢
      exact hrest

/-- **What a compilation takes**: the needs of the vertex code, and those of the texture
code if a node animates the texture and it was asked for. -/
theorem Built.compiled (h : s.Built) {calls : List (String × String)} {codes : List Program}
    (hvertex : Leads (s.vertexCode pass profile sourceNames targetNames) c p c₁)
    (huv : Leads (s.uvCodes calls) c₁ codes c₂) :
    s.Compiled pass (s.vertexNeeds (s.featuresFor pass) ++
      if (s.featuresFor pass).uvNode ∧ calls ≠ [] then s.uvNeeds (s.featuresFor pass) else [])
      c₂ := by
  obtain ⟨hcompiled, hnone⟩ := h.compiled_vertexCode hvertex
  exact hcompiled.uvCodes h.isCatalogue hnone huv

end NodeSet

end ParticleShader
