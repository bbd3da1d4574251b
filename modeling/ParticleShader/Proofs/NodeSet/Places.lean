import ParticleShader.Proofs.NodeSet.Assembly
import ParticleShader.Proofs.NodeSet.Transfer

/-!
# The places of a set

With different whole temporaries as targets the registers that all nodes share have their
places from the beginning of a compilation to its end. The code of the node that keeps time
stands right behind the beginning (`Built.exists_timeCode`), and when the vertex code is
written no free temporary is a place (`Built.hosts_vertexCode`).
-/

namespace ParticleShader

open Compile Compilation

variable {α : Type}

namespace NodeSet

variable [Scalar α] {s : NodeSet α} {c c₀ c₁ : Compilation α} {pass : Pass} {profile : Profile}
  {sourceNames targetNames : List String} {sources targets : List Register} {p : Program}
  {P : Layout} {f : Features}

/-- A compilation in which the shared registers have their places and nothing is written yet. -/
structure Placed (pass : Pass) (f : Features) (sources targets : List Register)
    (c : Compilation α) (P : Layout) : Prop where
  /-- The shared registers have their places. -/
  hosts : c.Hosts P
  /-- They are shared out. -/
  begun : c.Begun P.shared .reset f
  /-- No node has taken anything. -/
  ledger : c.ledger = .opened pass
  /-- No color was animated yet. -/
  color : c.color = {}
  /-- Null, one and two are in the constant behind those of the pass. -/
  helper : P.helper = pass.taken.vertexConstants
  /-- The vertex comes from the first source. -/
  source : sources.head? = some P.source
  /-- The vertex and the directions are the targets. -/
  oriented : targets = .temporary P.vertex :: P.directions
  /-- The sources are remembered. -/
  copied : c.sources = sources
  /-- The targets are remembered. -/
  targeted : c.targets = targets

/-- Vertex code is written from a state in which the shared registers have their places. -/
theorem Built.exists_placed (h : s.Built)
    (hsources : sourceNames.mapM Register.ofName = .ok sources)
    (htargets : targetNames.mapM Register.ofName = .ok targets)
    (hwhole : ∀ r ∈ targets, ∃ i, r = .temporary i) (hnodup : targets.Nodup)
    (hcode : Leads (s.vertexCode pass profile sourceNames targetNames) c p c₁) :
    ∃ (P : Layout) (c₀ : Compilation α),
      Placed pass (s.featuresFor pass) sources targets c₀ P ∧ Leads s.vertexFragments c₀ p c₁ := by
  have hfeatures : s.settings.features ∪ pass.features = s.featuresFor pass := by
    rw [h.features_eq_raised, featuresFor]
  obtain ⟨_, c₀, hreset, hfragments⟩ := leads_bind.mp (leads_orAbandon.mp hcode)
  rw [hfeatures] at hreset
  obtain ⟨P, others, hhosts, hshared, hhelper, hsource, htarget, hcopied, htargeted⟩ :=
    hosts_of_reset hsources htargets hwhole hnodup hreset
  obtain ⟨_, _, shared, -, -, hopened⟩ := opened_of_reset hreset
  obtain rfl : P.shared = shared := Option.some.inj (hshared.symm.trans hopened.begun.shared)
  obtain ⟨hledger, -⟩ := ledger_of_reset hreset
  exact ⟨P, c₀, ⟨hhosts, hopened.begun, hledger, hopened.color, hhelper, by rw [hsource]; rfl,
    htarget, hcopied, htargeted⟩, hfragments⟩

/-- Placing the vertex leaves the places alone. -/
theorem Placed.hosts_placeFragments (hplaced : Placed pass f sources targets c₀ P) (h : s.Built)
    (hcovers : Covers f s) (hcode : Leads s.placeFragments c₀ p c) :
    c.Hosts P ∧ c.Begun P.shared .post f := by
  obtain ⟨primary, c₂, _, post, _, -, hgrows, -, hgrows', -⟩ :=
    h.of_placeFragments hcovers hplaced.begun hcode
  have hbegun := (hplaced.begun.enter .primary).grows hgrows
  have hsecond := ((hplaced.hosts.enter hplaced.begun .primary rfl).grows hgrows).enter hbegun
    .post rfl
  exact ⟨hsecond.grows hgrows', (hbegun.enter .post).grows hgrows'⟩

/-- **The places last**: when the vertex code of a built set is written, the shared registers
have their places, and no free temporary is among them. -/
theorem Built.hosts_vertexCode (h : s.Built)
    (hsources : sourceNames.mapM Register.ofName = .ok sources)
    (htargets : targetNames.mapM Register.ofName = .ok targets)
    (hwhole : ∀ r ∈ targets, ∃ i, r = .temporary i) (hnodup : targets.Nodup)
    (hcode : Leads (s.vertexCode pass profile sourceNames targetNames) c p c₁) :
    ∃ P : Layout, c₁.Hosts P := by
  obtain ⟨P, c₀, hplaced, hfragments⟩ :=
    h.exists_placed hsources htargets hwhole hnodup hcode
  have hcovers := covers_featuresFor s pass
  simp only [vertexFragments, leads_bind, leads_pure] at hfragments
  obtain ⟨placed, c₂, hplace, colored, c₃, hcolors, rfl, rfl⟩ := hfragments
  obtain ⟨hhosts, hbegun⟩ := hplaced.hosts_placeFragments h hcovers hplace
  obtain ⟨start, c₄, color, c₅, _, hstart, hbegun', -, -, hgrows, -, rfl⟩ :=
    h.of_colorFragments hcovers hbegun hcolors
  obtain ⟨-, -, hhosts'⟩ := hosts_initColor hstart (hhosts.enter hbegun .colorInit rfl)
  have hlast := (hhosts'.enter hbegun' .color rfl).grows hgrows
  exact ⟨P, hlast.enter ((hbegun'.enter .color).grows hgrows) .colorCombine rfl⟩

/-- The nodes of the first block begin with the one that keeps time. -/
theorem Built.filter_primary (h : s.Built) (hne : s.nodes ≠ []) :
    ∃ others, s.nodes = timeNode s.settings.lifecycle :: others ∧
      s.nodes.filter (·.info.block = .primary) =
        timeNode s.settings.lifecycle :: others.filter (·.info.block = .primary) := by
  obtain ⟨others, hnodes⟩ := h.nodes_eq hne
  refine ⟨others, hnodes, ?_⟩
  rw [hnodes]
  exact List.filter_cons_of_pos (by rfl)

/-- **The code of the node that keeps time**: it stands right behind the beginning, in the
places of the shared registers, and what it reads is remembered to the end. -/
theorem Built.exists_timeCode (h : s.Built) (hne : s.nodes ≠ [])
    (hsources : sourceNames.mapM Register.ofName = .ok sources)
    (htargets : targetNames.mapM Register.ofName = .ok targets)
    (hwhole : ∀ r ∈ targets, ∃ i, r = .temporary i) (hnodup : targets.Nodup)
    (hcode : Leads (s.vertexCode pass profile sourceNames targetNames) c p c₁) :
    ∃ (P : Layout) (code behind : Program) (d d' : Compilation α),
      p = initProgram P.shared sources targets ++ code ++ behind ∧
      c₁.shared = some P.shared ∧ P.helper = pass.taken.vertexConstants ∧
      targets = .temporary P.vertex :: P.directions ∧ P.Apart [] ∧
      Leads (timeNode s.settings.lifecycle : Node α).vertexCode d code d' ∧ code.Local ∧
      d'.Hosts P ∧
      ∀ {K : Type} (m : Machine K), c₁.inputs m (timeNode s.settings.lifecycle) =
        d'.inputs m (timeNode s.settings.lifecycle) := by
  obtain ⟨P, c₀, hplaced, hfragments⟩ := h.exists_placed hsources htargets hwhole hnodup hcode
  obtain ⟨others, hnodes, hprimary⟩ := h.filter_primary hne
  have hcovers := covers_featuresFor s pass
  have hledger := (h.compiled_vertexCode hcode).1.ledger
  simp only [vertexFragments, leads_bind, leads_pure] at hfragments
  obtain ⟨placed, c₂, hplace, colored, c₃, hcolors, rfl, rfl⟩ := hfragments
  obtain ⟨-, hbegun, hsame⟩ := h.extends_placeFragments hcovers hplaced.begun hplace
  obtain ⟨-, hbegun', -⟩ :=
    h.extends_colorFragments hcovers hbegun hcolors (hsame.trans hplaced.color)
  obtain ⟨block, c₄, _, post, _, hblock, -, -, -, rfl⟩ :=
    h.of_placeFragments hcovers hplaced.begun hplace
  have hfirst := hplaced.begun.enter .primary
  have hready : ∀ n ∈ s.nodes.filter (·.info.block = .primary),
      ({ c₀ with phase := .primary } : Compilation α).Ready n.behavior :=
    hcovers.ready h.isCatalogue hfirst rfl (by simp)
  have hcatalogue : ∀ n ∈ s.nodes.filter (·.info.block = .primary), n.behavior.IsCatalogue :=
    fun n hn => h.isCatalogue n (List.mem_filter.mp hn).1
  unfold blockCode at hblock
  rw [hprimary] at hblock hready hcatalogue
  rw [List.forall_mem_cons] at hready hcatalogue
  obtain ⟨code, d', _, rest, htime, hgrows, -, -, -, rfl⟩ :=
    of_gather hcatalogue.1 hcatalogue.2 hready.1 hready.2 hblock
  have hrecords := Node.records_vertexCode hcatalogue.1 htime
  have hhosts := hplaced.hosts.enter hplaced.begun .primary rfl
  -- all other nodes take what they need behind it
  have hlater : c₃.ledger = d'.ledger.takeAll
      (others.flatMap (Node.vertexNeeds (s.featuresFor pass))) := by
    rw [hledger, h.vertexNeeds_eq, hnodes, List.flatMap_cons, Ledger.takeAll_append,
      hrecords.ledger, hfirst.features]
    exact congrArg (fun l : Ledger => (l.takeAll _).takeAll _) hplaced.ledger.symm
  refine ⟨P, code, rest ++ (Statement.add P.shared.vertex.xyz P.shared.vertex.xyz
    P.shared.displacement.xyz :: post) ++ colored, _, d', ?_, hbegun'.shared, hplaced.helper,
    hplaced.oriented, hplaced.hosts.apart.of_free [] rfl, htime,
    hhosts.local_vertexCode hcatalogue.1 htime, hhosts.grows hgrows,
    fun {K} m => inputs_eq hlater fun need hneed hid => ?_⟩
  · rw [hplaced.copied, hplaced.targeted]
    simp
  · obtain ⟨n, hn, hneed⟩ := List.mem_flatMap.mp hneed
    obtain ⟨_, -, rfl⟩ := List.mem_map.mp hneed
    have hids := h.nodup_ids
    rw [hnodes, List.map_cons, List.nodup_cons] at hids
    exact hids.1 (List.mem_map.mpr ⟨n, hn, hid⟩)

end NodeSet

end ParticleShader
