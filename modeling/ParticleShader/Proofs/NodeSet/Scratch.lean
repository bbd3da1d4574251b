import ParticleShader.Proofs.Node.Scratch
import ParticleShader.Proofs.NodeSet.Collisions
import ParticleShader.Proofs.NodeSet.Transfer

/-!
# Scratch temporaries of a set

Vertex temporaries are claimed by the targets, by the accumulators that the nodes share, and by the
accumulators of the colors; whatever else is claimed is given back within the code of one node. So
from the beginning of a compilation to its texture code exactly these are in use, and what a node
is handed is none of those that were claimed before (**`scratch_spec`**). The accumulators of the
colors are claimed behind the nodes that move the vertex, and may take a register that one of those
gave back (`glowing_takes_scratch`).
-/

namespace ParticleShader

open Compile Compilation

variable {α : Type}

theorem Register.temporaryIndices_append (rs rs' : List Register) :
    temporaryIndices (rs ++ rs') = temporaryIndices rs ++ temporaryIndices rs' :=
  List.filterMap_append

/-- The accumulators that all nodes share: the displacement, and the velocity or else the time.
Where the velocity is kept, the time lies behind it. -/
def SharedRegisters.accumulators (s : SharedRegisters) : List Register :=
  [s.displacement, s.velocity.getD s.time]

/-- The accumulators of the colors. -/
def ColorRegisters.accumulators (k : ColorRegisters) : List Register :=
  k.multiplier.toList ++ k.offset.toList

namespace Compilation

/-- How often a temporary is claimed. -/
def usage (c : Compilation α) (index : Nat) : Nat := (c.temporaries[index]?).getD 0

/-- In use are just the targets, each as often as it is named, and some accumulators, which are
different temporaries and no targets. -/
structure Reserves (c : Compilation α) (targets accumulators : List Register) : Prop where
  /-- How often the temporaries are claimed. -/
  usage : ∀ i, c.usage i = (Register.temporaryIndices (targets ++ accumulators)).count i
  /-- The accumulators are temporaries. -/
  temporary : ∀ r ∈ accumulators, r.kind = .vertexTemporary
  /-- They are different. -/
  nodup : (accumulators.map Register.index).Nodup
  /-- They are no targets. -/
  apart : ∀ r ∈ accumulators, r.index ∉ Register.temporaryIndices targets

variable {c c' : Compilation α} {targets accumulators : List Register} {index : Nat}

theorem usage_eq_zero (h : index ∈ c.free) : c.usage index = 0 := by
  rw [usage, mem_free.mp h]
  rfl

theorem usage_claiming (h : index < c.temporaries.length) (i : Nat) :
    (c.claiming index).usage i = c.usage i + [index].count i := by
  unfold usage claiming
  rw [List.getElem?_modify, List.count_singleton]
  by_cases hi : index = i
  · subst hi
    simp [List.getElem?_eq_getElem h]
  · simp [hi]

theorem lt_length_of_mem_free (h : index ∈ c.free) : index < c.temporaries.length :=
  (List.getElem?_eq_some_iff.mp (mem_free.mp h)).1

theorem usage_claimingAll {indices : List Nat} (h : ∀ i ∈ indices, i < c.temporaries.length)
    (i : Nat) : (c.claimingAll indices).usage i = c.usage i + indices.count i := by
  unfold claimingAll
  induction indices generalizing c with
  | nil => rfl
  | cons index indices ih =>
    obtain ⟨hfirst, hothers⟩ := List.forall_mem_cons.mp h
    rw [List.foldl_cons, ih (by simpa [claiming] using hothers), usage_claiming hfirst,
      Nat.add_assoc, ← List.count_append, List.singleton_append]

namespace Reserves

/-- What is reserved is not handed out. -/
theorem notMem_free (h : c.Reserves targets accumulators)
    (hindex : index ∈ Register.temporaryIndices (targets ++ accumulators)) : index ∉ c.free := by
  intro hfree
  have hzero := usage_eq_zero hfree
  rw [h.usage, List.count_eq_zero] at hzero
  exact hzero hindex

theorem of_temporaries (h : c.Reserves targets accumulators)
    (hsame : c'.temporaries = c.temporaries) : c'.Reserves targets accumulators := by
  refine ⟨fun i => ?_, h.temporary, h.nodup, h.apart⟩
  rw [← h.usage]
  unfold Compilation.usage
  rw [hsame]

/-- A free temporary is reserved when it is claimed. -/
theorem claiming {r : Register} (h : c.Reserves targets accumulators) (hfree : index ∈ c.free)
    (hkind : r.kind = .vertexTemporary) (hr : r.index = index) :
    (c.claiming index).Reserves targets (accumulators ++ [r]) := by
  have hnew : index ∉ Register.temporaryIndices (targets ++ accumulators) :=
    fun hindex => h.notMem_free hindex hfree
  have hsingle : Register.temporaryIndices [r] = [index] := by
    simp [Register.temporaryIndices, hkind, hr]
  refine ⟨fun i => ?_, ?_, ?_, ?_⟩
  · rw [usage_claiming (lt_length_of_mem_free hfree), h.usage, ← List.append_assoc,
      Register.temporaryIndices_append (targets ++ accumulators), hsingle, List.count_append]
  · exact List.forall_mem_append.mpr ⟨h.temporary, List.forall_mem_singleton.mpr hkind⟩
  · rw [List.map_append, List.map_singleton, hr]
    refine List.nodup_append.mpr ⟨h.nodup, List.nodup_singleton index, fun i hi j hj => ?_⟩
    rintro rfl
    obtain ⟨r', hr', rfl⟩ := List.mem_map.mp hi
    refine hnew (Register.mem_temporaryIndices.mpr ⟨r', List.mem_append_right _ hr',
      h.temporary r' hr', List.mem_singleton.mp hj⟩)
  · refine List.forall_mem_append.mpr ⟨h.apart, List.forall_mem_singleton.mpr ?_⟩
    rw [hr]
    intro hindex
    rw [Register.temporaryIndices_append, List.mem_append, not_or] at hnew
    exact hnew.1 hindex

end Reserves

end Compilation

/-! ### The beginning and the colors -/

section

variable {c c' : Compilation α} {targets accumulators : List Register} {p : Program}

/-- Where nothing is claimed the targets are reserved when they are claimed. -/
theorem reserves_claimingAll (hnone : ∀ i, c.usage i = 0)
    (htargets : ∀ r ∈ targets, r.kind = .vertexTemporary → r.index < c.temporaries.length) :
    (c.claimingAll (Register.temporaryIndices targets)).Reserves targets [] := by
  refine ⟨fun i => ?_, nofun, List.nodup_nil, nofun⟩
  rw [usage_claimingAll, hnone, Nat.zero_add, List.append_nil]
  intro i hi
  obtain ⟨r, hr, hkind, rfl⟩ := Register.mem_temporaryIndices.mp hi
  exact htargets r hr hkind

/-- The velocity lies in the temporary that was claimed for it, and so does the time. -/
theorem SharedRegisters.accumulators_ofPlaces (source vertex : Register)
    (directions : List Register) (helper displacement temporary : Nat) (velocity : Bool) :
    ∃ r : Register, r.kind = .vertexTemporary ∧ r.index = temporary ∧
      (ofPlaces source vertex directions helper displacement temporary velocity).accumulators =
        [.temporary displacement, r] := by
  cases velocity
  · exact ⟨(Register.temporary temporary).x, rfl, rfl, rfl⟩
  · exact ⟨.temporary temporary, rfl, rfl, rfl⟩

/-- A beginning reserves the targets and the accumulators that all nodes share. -/
theorem reserves_of_reset {profile : Profile} {pass : Pass} {features : Features}
    {sourceNames targetNames : List String}
    (h : Leads (reset profile pass features sourceNames targetNames) c () c') :
    ∃ targets shared, targetNames.mapM Register.ofName = .ok targets ∧
      c'.shared = some shared ∧ shared.oriented = targets ∧
      c'.Reserves targets shared.accumulators ∧ c'.color = {} ∧ c'.uv = none := by
  obtain ⟨sources, targets, -, htargets, hshare⟩ := leads_reset.mp h
  obtain ⟨source, rest, vertex, directions, shared, c₁, rfl, rfl, -, hclaimable, hshared, rfl⟩ :=
    leads_shareRegisters.mp hshare
  obtain ⟨-, displacement, temporary, others, hfree, rfl, rfl⟩ := leads_allocateShared.mp hshared
  have hnone : ∀ i, Compilation.usage ({ c.restart profile pass features with
      sources := source :: rest, targets := vertex :: directions } : Compilation α) i = 0 := by
    intro i
    unfold Compilation.usage Compilation.restart
    rw [List.getElem?_replicate]
    split <;> rfl
  have hfirst := reserves_claimingAll hnone hclaimable
  have hframe := claimingAll_frame ({ c.restart profile pass features with
    sources := source :: rest, targets := vertex :: directions } : Compilation α)
    (Register.temporaryIndices (vertex :: directions))
  generalize Compilation.claimingAll _ _ = c₂ at *
  obtain ⟨r, hkind, hr, haccumulators⟩ := SharedRegisters.accumulators_ofPlaces source vertex
    directions c₂.used.vertexConstants displacement temporary c₂.features.velocity
  have hsecond := (hfirst.claiming (r := .temporary displacement) (hfree ▸ List.mem_cons_self) rfl
    rfl).claiming (free_claiming_head hfree ▸ List.mem_cons_self) hkind hr
  refine ⟨_, _, htargets, rfl, SharedRegisters.oriented_ofPlaces .., ?_, ?_, ?_⟩
  · rw [haccumulators]
    exact hsecond.of_temporaries rfl
  · show c₂.color = {}
    rw [hframe]
    rfl
  · show c₂.uv = none
    rw [hframe]
    rfl

/-- A color accumulator that is wanted is reserved. -/
theorem reserves_accumulator {wanted : Features → Bool} {start : Register}
    {putTarget putVarying : Register → ColorRegisters → ColorRegisters}
    (hput : ∀ r r', (putVarying r (putTarget r' c.color)).accumulators =
      c.color.accumulators ++ [r'])
    (h : Leads (accumulator wanted start putTarget putVarying) c p c')
    (hc : c.Reserves targets (accumulators ++ c.color.accumulators)) :
    c'.Reserves targets (accumulators ++ c'.color.accumulators) := by
  rw [leads_accumulator] at h
  split at h
  · obtain ⟨index, rest, hfree, -, -, rfl⟩ := h
    have hclaimed := hc.claiming (r := .temporary index) (hfree ▸ List.mem_cons_self) rfl rfl
    rw [List.append_assoc, ← hput] at hclaimed
    exact hclaimed.of_temporaries rfl
  · obtain ⟨-, rfl⟩ := h
    exact hc

theorem shared_accumulator {wanted : Features → Bool} {start : Register}
    {putTarget putVarying : Register → ColorRegisters → ColorRegisters}
    (h : Leads (accumulator wanted start putTarget putVarying) c p c') : c'.shared = c.shared := by
  rw [leads_accumulator] at h
  split at h
  · obtain ⟨_, _, -, -, -, rfl⟩ := h
    rfl
  · rw [h.2]

theorem offset_multiplierStart {s : SharedRegisters} (h : Leads (multiplierStart s) c p c') :
    c'.color.offset = c.color.offset := by
  unfold multiplierStart at h
  rw [leads_accumulator] at h
  split at h
  · obtain ⟨_, _, -, -, -, rfl⟩ := h
    rfl
  · rw [h.2]

/-- The accumulators of the colors are reserved behind the others. -/
theorem reserves_initColor (hcolor : c.color = {}) (hc : c.Reserves targets accumulators)
    (h : Leads initColor c p c') :
    c'.Reserves targets (accumulators ++ c'.color.accumulators) ∧ c'.shared = c.shared := by
  have hstart : c.Reserves targets (accumulators ++ c.color.accumulators) := by
    rw [hcolor]
    exact (List.append_nil accumulators).symm ▸ hc
  obtain ⟨s, -, h⟩ := leads_initColor.mp h
  split at h
  · obtain ⟨_, c₁, _, hmultiplier, hoffset, -⟩ := h
    have hnone : c₁.color.offset = none := by rw [offset_multiplierStart hmultiplier, hcolor]
    have hfirst := reserves_accumulator (by intro r r'; rw [hcolor]; rfl) hmultiplier hstart
    have hsecond := reserves_accumulator
      (by intro r r'; simp [ColorRegisters.accumulators, hnone]) hoffset hfirst
    exact ⟨hsecond, (shared_accumulator hoffset).trans (shared_accumulator hmultiplier)⟩
  · obtain ⟨-, rfl⟩ := h
    exact ⟨hstart, rfl⟩

end

namespace NodeSet

/-! ### The nodes -/

/-- What stays as it is while nodes have their turns: the temporaries that are reserved, and the
registers that are shared. -/
structure Settled (c : Compilation α) (shared : SharedRegisters)
    (targets accumulators : List Register) (color : ColorRegisters) : Prop where
  /-- The temporaries in use. -/
  reserves : c.Reserves targets accumulators
  /-- The shared registers. -/
  shared : c.shared = some shared
  /-- The registers of the colors. -/
  color : c.color = color

/-- A node has its turn in a state in which certain temporaries are in use. It gives back all that
it claims, and of the temporaries in use its code writes its outputs alone. What it is handed was
free, so it is none of those in use. -/
def Turn (code : Node α → Compile α Program) (outputs : Node α → Compilation α → List Register)
    (shared : SharedRegisters) (targets accumulators : List Register) (color : ColorRegisters)
    (piece : Node α × Program) : Prop :=
  ∃ d d', Leads (code piece.1) d piece.2 d' ∧ Settled d shared targets accumulators color ∧
    d.Borrows d' piece.2 (outputs piece.1 d) ∧
    ∀ i ∈ d.free, i ∉ Register.temporaryIndices (targets ++ accumulators)

variable {c c' : Compilation α} {shared : SharedRegisters} {targets accumulators : List Register}
  {color : ColorRegisters}

theorem Settled.of_same (h : Settled c shared targets accumulators color)
    (htemporaries : c'.temporaries = c.temporaries) (hshared : c'.shared = c.shared)
    (hcolor : c'.color = c.color) : Settled c' shared targets accumulators color :=
  ⟨h.reserves.of_temporaries htemporaries, hshared.trans h.shared, hcolor.trans h.color⟩

/-- One node after the other has its turn. -/
theorem Writes.turns {code : Node α → Compile α Program}
    {outputs : Node α → Compilation α → List Register}
    {needs : Features → Node α → List (Node α × Need)} {pieces : List (Node α × Program)}
    (hrecords : ∀ n ∈ pieces.map Prod.fst, ∀ {c c' : Compilation α} {p}, Leads (code n) c p c' →
      c.Records c' (needs c.features n))
    (hborrows : ∀ n ∈ pieces.map Prod.fst, ∀ {c c' : Compilation α} {p}, Leads (code n) c p c' →
      c.Borrows c' p (outputs n c))
    (h : Writes code c pieces c') (hc : Settled c shared targets accumulators color) :
    Settled c' shared targets accumulators color ∧
      ∀ piece ∈ pieces, Turn code outputs shared targets accumulators color piece := by
  induction pieces generalizing c with
  | nil =>
    obtain rfl : c = c' := h
    exact ⟨hc, nofun⟩
  | cons piece pieces ih =>
    obtain ⟨c₁, hfirst, hothers⟩ := h
    rw [List.map_cons, List.forall_mem_cons] at hrecords hborrows
    have hrecord := hrecords.1 hfirst
    have hborrow := hborrows.1 hfirst
    have hc₁ := hc.of_same hborrow.temporaries hrecord.shared hrecord.color
    obtain ⟨hlast, hturns⟩ := ih hrecords.2 hborrows.2 hothers hc₁
    exact ⟨hlast, List.forall_mem_cons.mpr ⟨⟨c, c₁, hfirst, hc, hborrow, fun i hi hmem =>
      hc.reserves.notMem_free hmem hi⟩, hturns⟩⟩

/-- **The nodes of a vertex program**: those that move the vertex have their turns before the
accumulators of the colors are claimed, those of the color behind it. -/
theorem Sequence.Written.turns {q : Sequence α} (h : q.Written c c')
    (hcatalogue : ∀ n ∈ q.nodes, n.behavior.IsCatalogue)
    (hc : Settled c shared targets accumulators {}) :
    Settled c' shared targets (accumulators ++ c'.color.accumulators) c'.color ∧
      (∀ piece ∈ q.primary ++ q.post,
        Turn Node.vertexCode Node.vertexOutputs shared targets accumulators {} piece) ∧
      ∀ piece ∈ q.color, Turn Node.vertexCode Node.vertexOutputs shared targets
        (accumulators ++ c'.color.accumulators) c'.color piece := by
  have hrecords : ∀ n ∈ q.nodes, ∀ {c c' : Compilation α} {p}, Leads n.vertexCode c p c' →
      c.Records c' (Node.vertexNeeds c.features n) := fun n hn =>
    Node.records_vertexCode (hcatalogue n hn)
  have hborrows : ∀ n ∈ q.nodes, ∀ {c c' : Compilation α} {p}, Leads n.vertexCode c p c' →
      c.Borrows c' p (n.vertexOutputs c) := fun n hn => Node.borrows_vertexCode (hcatalogue n hn)
  simp only [Sequence.nodes, List.map_append, List.forall_mem_append] at hrecords hborrows
  obtain ⟨c₁, c₂, c₃, c₄, c₅, c₆, hstart, hwrites₂, hplacement, hwrites₄, hcolorStart, hwrites₆,
    rfl, -⟩ := h
  obtain ⟨_, -, -, rfl⟩ := leads_initCode.mp hstart
  obtain ⟨hc₂, hprimary⟩ := hwrites₂.turns hrecords.1.1 hborrows.1.1 (hc.of_same rfl rfl rfl)
  obtain ⟨_, -, -, rfl⟩ := leads_combineCode.mp hplacement
  obtain ⟨hc₄, hpost⟩ := hwrites₄.turns hrecords.1.2 hborrows.1.2 (hc₂.of_same rfl rfl rfl)
  obtain ⟨hreserves, hshared⟩ := reserves_initColor (c := { c₄ with phase := .colorInit })
    hc₄.color (hc₄.reserves.of_temporaries rfl) hcolorStart
  have hc₅ : Settled c₅ shared targets (accumulators ++ c₅.color.accumulators) c₅.color :=
    ⟨hreserves, hshared.trans hc₄.shared, rfl⟩
  have hentered : Settled { c₅ with phase := .color } shared targets
      (accumulators ++ c₅.color.accumulators) c₅.color := hc₅.of_same rfl rfl rfl
  obtain ⟨hc₆, hcolor⟩ := hwrites₆.turns hrecords.2 hborrows.2 hentered
  have hsame : c₆.color = c₅.color := hc₆.color
  refine ⟨?_, List.forall_mem_append.mpr ⟨hprimary, hpost⟩, ?_⟩
  · rw [← hsame] at hc₆
    exact hc₆.of_same rfl rfl rfl
  · rw [← hsame] at hcolor
    exact hcolor

variable [Scalar α]

/-- **The nodes of texture code.** -/
theorem TextureCodes.turns {s : NodeSet α} {texture : List (Node α × Program)}
    {codes : List Program} (hcatalogue : ∀ n ∈ s.nodes, n.behavior.IsCatalogue)
    (h : s.TextureCodes c texture codes c') (hc : Settled c shared targets accumulators color) :
    Settled c' shared targets accumulators color ∧
      ∀ piece ∈ texture,
        Turn Node.uvCode Node.uvOutputs shared targets accumulators color piece := by
  cases h with
  | copies hcopies => exact ⟨hc, nofun⟩
  | written hon huv hwrites hnodes hcode hsame =>
    rw [← hnodes] at hcatalogue
    obtain ⟨hlast, hturns⟩ := hwrites.turns (fun n hn => Node.records_uvCode (hcatalogue n hn))
      (fun n hn => Node.borrows_uvCode (hcatalogue n hn)) (hc.of_same rfl rfl rfl)
    exact ⟨hlast.of_same rfl rfl rfl, hturns⟩

/-! ### The whole compilation -/

/-- Vertex code and texture codes were written, and all that is in use between the turns of the
nodes are the targets and the accumulators. -/
structure Lends (s : NodeSet α) (targetNames : List String) (p : Program) (c₁ : Compilation α)
    (codes : List Program) (c₂ : Compilation α) (shared : SharedRegisters)
    (targets : List Register) (q : Sequence α) (texture : List (Node α × Program)) : Prop where
  /-- The targets that were named. -/
  named : targetNames.mapM Register.ofName = .ok targets
  /-- They are the vertex and the directions. -/
  oriented : shared.oriented = targets
  /-- The vertex code. -/
  code : q.code = p
  /-- It runs through the nodes of the blocks. -/
  primary : q.primary.map Prod.fst = s.nodes.filter (·.info.block = .primary)
  /-- The second block stands behind the placement. -/
  post : q.post.map Prod.fst = s.nodes.filter (·.info.block = .post)
  /-- The third one animates the color. -/
  color : q.color.map Prod.fst = s.nodes.filter (·.info.block = .color)
  /-- The texture codes. -/
  written : s.TextureCodes c₁ texture codes c₂
  /-- What is in use behind the vertex code. -/
  settled : Settled c₁ shared targets (shared.accumulators ++ c₁.color.accumulators) c₁.color
  /-- The same is in use behind the texture codes. -/
  last : Settled c₂ shared targets (shared.accumulators ++ c₁.color.accumulators) c₁.color
  /-- Nodes that move the vertex are handed neither targets nor shared accumulators. -/
  moves : ∀ piece ∈ q.primary ++ q.post, Turn Node.vertexCode Node.vertexOutputs shared targets
    shared.accumulators {} piece
  /-- Nodes of the color are not handed the accumulators of the colors either. -/
  colors : ∀ piece ∈ q.color, Turn Node.vertexCode Node.vertexOutputs shared targets
    (shared.accumulators ++ c₁.color.accumulators) c₁.color piece
  /-- Nor are nodes of the texture. -/
  textures : ∀ piece ∈ texture, Turn Node.uvCode Node.uvOutputs shared targets
    (shared.accumulators ++ c₁.color.accumulators) c₁.color piece

theorem exists_lends {s : NodeSet α} {pass : Pass} {profile : Profile}
    {sourceNames targetNames : List String} {calls : List (String × String)} {p : Program}
    {codes : List Program} {c₁ c₂ : Compilation α}
    (hcatalogue : ∀ n ∈ s.nodes, n.behavior.IsCatalogue)
    (hvertex : Leads (s.vertexCode pass profile sourceNames targetNames) c p c₁)
    (huv : Leads (s.uvCodes calls) c₁ codes c₂) :
    ∃ shared targets q texture, s.Lends targetNames p c₁ codes c₂ shared targets q texture := by
  obtain ⟨_, c₀, hreset, hfragments⟩ := leads_bind.mp (leads_orAbandon.mp hvertex)
  obtain ⟨targets, shared, htargets, hshared, horiented, hreserves, hcolor, hnone⟩ :=
    reserves_of_reset hreset
  obtain ⟨q, rfl, hwritten, hprimary, hpost, hcolors⟩ := of_vertexFragments hfragments
  have hnodes : ∀ n ∈ q.nodes, n.behavior.IsCatalogue := by
    rw [Sequence.nodes, List.map_append, List.map_append, hprimary, hpost, hcolors]
    simp only [List.forall_mem_append]
    exact ⟨⟨fun n hn => hcatalogue n (List.mem_of_mem_filter hn),
      fun n hn => hcatalogue n (List.mem_of_mem_filter hn)⟩,
      fun n hn => hcatalogue n (List.mem_of_mem_filter hn)⟩
  obtain ⟨hsettled, hmoves, hcolored⟩ := hwritten.turns hnodes ⟨hreserves, hshared, hcolor⟩
  have hleaves : ∀ n ∈ q.nodes, LeavesTexture n.vertexCode := fun n hn =>
    leavesTexture_vertexCode fun node hcustom => by
      have := hnodes n hn
      rw [hcustom] at this
      exact this.elim
  have huvNone : c₁.uv = none := (hwritten.sameTexture hleaves).uv.trans hnone
  obtain ⟨hactive, hphase⟩ : c₁.isActive = true ∧ c₁.phase ≠ .done := by
    obtain ⟨_, _, _, _, _, _, -, -, -, -, -, -, rfl, -⟩ := hwritten
    exact ⟨rfl, Phase.noConfusion⟩
  obtain ⟨texture, htexture, -⟩ := exists_textureCodes hcatalogue hactive hphase huvNone huv
  obtain ⟨hlast, htextures⟩ := htexture.turns hcatalogue hsettled
  exact ⟨shared, targets, q, texture, htargets, horiented, rfl, hprimary, hpost, hcolors, htexture,
    hsettled, hlast, hmoves, hcolored, htextures⟩

/-- **Scratch discipline**: in every state the code of a node gives back all temporaries that it
claims and writes none that was in use but its outputs. So behind vertex code and any requests for
texture code exactly the targets and the accumulators are in use, and in the turn of every node
what may be handed out is no target, no shared accumulator, and no accumulator of a color that was
claimed by then. -/
theorem scratch_spec :
    (∀ (n : Node α) (c c' : Compilation α) (p : Program), n.behavior.IsCatalogue →
      (Leads n.vertexCode c p c' → c.Borrows c' p (n.vertexOutputs c)) ∧
      (Leads n.uvCode c p c' → c.Borrows c' p (n.uvOutputs c))) ∧
    ∀ (s : NodeSet α) (pass : Pass) (profile : Profile) (sourceNames targetNames : List String)
      (calls : List (String × String)) (p : Program) (codes : List Program)
      (c c₁ c₂ : Compilation α), (∀ n ∈ s.nodes, n.behavior.IsCatalogue) →
      Leads (s.vertexCode pass profile sourceNames targetNames) c p c₁ →
      Leads (s.uvCodes calls) c₁ codes c₂ →
      ∃ shared targets q texture, s.Lends targetNames p c₁ codes c₂ shared targets q texture :=
  ⟨fun _ _ _ _ hn => ⟨Node.borrows_vertexCode hn, Node.borrows_uvCode hn⟩,
    fun _ _ _ _ _ _ _ _ _ _ _ hcatalogue hvertex huv => exists_lends hcatalogue hvertex huv⟩

/-- Where a texture scrolls and a color changes, the nodes of both have their turns. -/
theorem tinted_lends : ∃ p c₁ codes c₂ shared targets q texture code d d',
    Leads (tinted.vertexCode { scrollingPass with fragmentAnimation := true } .baseline ["va0"]
      ["vt0"]) { profile := .standard } p c₁ ∧
    Leads (tinted.uvCodes [("va1", "v0")]) c₁ codes c₂ ∧
    tinted.Lends ["vt0"] p c₁ codes c₂ shared targets q texture ∧ tint ∈ tinted.nodes ∧
    Leads tint.vertexCode d code d' ∧ d.Borrows d' code (tint.vertexOutputs d) ∧
    d.Borrows d [] (tint.uvOutputs d) := by
  have hsucceeds : succeeds (do
      let _ ← tinted.vertexCode { scrollingPass with fragmentAnimation := true } .baseline ["va0"]
        ["vt0"]
      tinted.uvCodes [("va1", "v0")]) { profile := .standard } = true := by decide +kernel
  obtain ⟨codes, c₂, hboth⟩ := exists_leads hsucceeds
  obtain ⟨p, c₁, hvertex, huv⟩ := leads_bind.mp hboth
  have hcatalogue : ∀ n ∈ tinted.nodes, n.behavior.IsCatalogue := by
    simp [tinted, tint, timeNode, Behavior.IsCatalogue]
  obtain ⟨shared, targets, q, texture, hlends⟩ :=
    scratch_spec.2 _ _ _ _ _ _ _ _ _ _ _ hcatalogue hvertex huv
  have hmem : tint ∈ tinted.nodes := .tail _ (.tail _ (.head _))
  have htint : tint ∈ q.color.map Prod.fst := by
    rw [hlends.color]
    exact List.mem_filter.mpr ⟨hmem, rfl⟩
  obtain ⟨⟨n, code⟩, hpiece, hn⟩ := List.mem_map.mp htint
  obtain rfl : n = tint := hn
  obtain ⟨d, d', hcode, -⟩ := hlends.colors _ hpiece
  exact ⟨p, c₁, codes, c₂, shared, targets, q, texture, code, d, d', hvertex, huv, hlends, hmem,
    hcode, (scratch_spec.1 tint d d' code trivial).1 hcode,
    (scratch_spec.1 tint d d [] trivial).2 rfl⟩

/-- The accumulator of a color takes the temporary that the code of the time worked in before. -/
theorem glowing_takes_scratch : glowing.Built ∧ ∃ d code d' c p c₁ codes c₂,
    timeNode {} ∈ glowing.nodes ∧ Leads (timeNode {} : Node Rat).vertexCode d code d' ∧
    Leads (glowing.vertexCode (coloredPass 0 0) .baseline ["va0"] ["vt0"]) c p c₁ ∧
    Leads (glowing.uvCodes [("va1", "v0")]) c₁ codes c₂ ∧ code <:+: p ∧ 3 ∈ d.free ∧
    Statement.sge (Register.temporary 3).x (Register.temporary 2).x
      (Register.only { kind := .vertexConstant, index := 0 } .x) ∈ code ∧
    3 ∉ Register.temporaryIndices ((timeNode {} : Node Rat).vertexOutputs d) ∧
    c₂.color.multiplier = some (.temporary 3) ∧ 0 < c₂.usage 3 := by
  have hruns : succeeds (do
      reset .baseline (coloredPass 0 0) (glowing.settings.features ∪ (coloredPass 0 0).features)
        ["va0"] ["vt0"]
      enter .init
      let _ ← initCode
      enter .primary
      let d ← get
      let code ← (timeNode {} : Node Rat).vertexCode
      let p ← glowing.vertexCode (coloredPass 0 0) .baseline ["va0"] ["vt0"]
      let _ ← glowing.uvCodes [("va1", "v0")]
      let c ← get
      if code <:+: p ∧ 3 ∈ d.free ∧
          Statement.sge (Register.temporary 3).x (Register.temporary 2).x
            (Register.only { kind := .vertexConstant, index := 0 } .x) ∈ code ∧
          3 ∉ Register.temporaryIndices ((timeNode {} : Node Rat).vertexOutputs d) ∧
          c.color.multiplier = some (.temporary 3) ∧ 0 < c.usage 3 then return ()
      else throw .notCompiled) { profile := .standard } = true := by decide +kernel
  obtain ⟨_, _, hall⟩ := exists_leads hruns
  obtain ⟨_, _, -, hall⟩ := leads_bind.mp hall
  obtain ⟨_, _, -, hall⟩ := leads_bind.mp hall
  obtain ⟨_, _, -, hall⟩ := leads_bind.mp hall
  obtain ⟨_, d, -, hall⟩ := leads_bind.mp hall
  obtain ⟨code, d', htime, hall⟩ := leads_bind.mp (leads_get_bind.mp hall)
  obtain ⟨p, c₁, hvertex, hall⟩ := leads_bind.mp hall
  obtain ⟨codes, c₂, huv, hall⟩ := leads_bind.mp hall
  rw [leads_get_bind] at hall
  exact ⟨built_glowing, d, code, d', d', p, c₁, codes, c₂, .head _, htime, hvertex, huv,
    holds_of_leads hall⟩

end NodeSet

end ParticleShader
