import ParticleShader.Proofs.NodeSet.Streams

/-!
# Collisions with named registers

A material says twice what it uses: it counts the registers of each pool, and it names the
registers that its code reads and writes. Allocation looks at the counts alone. What it
takes fills a pool without a gap, from the count of the pass to the count in use: so do the
attributes of the streams, and so do the varyings of the color. A name is met exactly if it
lies there: **`collisions_spec`**. Names that the pass has counted are never met; names that
it has not counted are not protected.
-/

namespace ParticleShader

variable {α : Type}

open Compile Compilation Node

namespace Compilation

variable {c c' : Compilation α} {first : Nat} {r : Register}

/-- A register that the animation took from a pool. -/
def Owns (c : Compilation α) (pool : Pool) (r : Register) : Prop :=
  r.kind = pool.kind ∧ c.taken.get pool ≤ r.index ∧ r.index < c.used.get pool

/-- A stream is bound to the attribute that a reference points into. -/
def Streams (c : Compilation α) (r : Register) : Prop :=
  ∃ b ∈ c.bindings, r.base = { kind := .vertexAttribute, index := b.register }

/-- The color is carried by the varying that a reference points into. -/
def Colors (c : Compilation α) (r : Register) : Prop := r.base ∈ c.color.varyings

/-- The varyings from `first` on carry the color, in their order. -/
structure Carries (c : Compilation α) (first : Nat) : Prop where
  /-- The varyings of the material are in use. -/
  first_le : first ≤ c.used.varyings
  /-- The others are those of the color. -/
  registers : c.color.varyings =
    (List.range' first (c.used.varyings - first)).map fun index => { kind := .varying, index }

theorem base_eq_iff {kind : Register.Kind} {index : Nat} :
    r.base = { kind, index } ↔ r.kind = kind ∧ r.index = index := by
  unfold Register.base
  simp

/-- Registers that fill a pool from the count of the pass to the count in use are met by
the names that lie there. -/
theorem exists_base_iff (kind : Register.Kind) {last : Nat} (h : first ≤ last) :
    (∃ index ∈ List.range' first (last - first), r.base = { kind, index }) ↔
      r.kind = kind ∧ first ≤ r.index ∧ r.index < last := by
  simp only [base_eq_iff, List.mem_range'_1]
  constructor
  · rintro ⟨index, ⟨hlow, hhigh⟩, hkind, rfl⟩
    exact ⟨hkind, hlow, by omega⟩
  · rintro ⟨hkind, hlow, hhigh⟩
    exact ⟨r.index, ⟨hlow, by omega⟩, hkind, rfl⟩

theorem Carries.colors_iff (h : c.Carries c.taken.varyings) : c.Colors r ↔ c.Owns .varying r := by
  refine Iff.trans ?_ (exists_base_iff (r := r) .varying h.first_le)
  unfold Colors
  rw [h.registers, List.mem_map]
  simp only [eq_comm, Pool.Counts.get]

theorem streams_iff (hle : c.taken.vertexAttributes ≤ c.used.vertexAttributes)
    (hregisters : c.bindings.map (·.register) = c.claimedStreams) :
    c.Streams r ↔ c.Owns .vertexAttribute r := by
  refine Iff.trans ?_ (exists_base_iff (r := r) .vertexAttribute hle)
  show c.Streams r ↔ ∃ index ∈ c.claimedStreams, r.base = { kind := .vertexAttribute, index }
  rw [← hregisters]
  simp [Streams]

theorem not_owns_of_lt {pool : Pool} (h : r.kind = pool.kind → r.index < c.taken.get pool) :
    ¬ c.Owns pool r :=
  fun ⟨hkind, hlow, _⟩ => absurd hlow (Nat.not_le.mpr (h hkind))

/-! ### The varyings of the color -/

/-- A state with the same varyings. -/
def SameVaryings (c c' : Compilation α) : Prop :=
  c'.used.varyings = c.used.varyings ∧ c'.color = c.color

theorem SameVaryings.trans {c'' : Compilation α} (h : c.SameVaryings c')
    (h' : c'.SameVaryings c'') : c.SameVaryings c'' :=
  ⟨h'.1.trans h.1, h'.2.trans h.2⟩

theorem SameVaryings.carries (h : c.SameVaryings c') (hc : c.Carries first) :
    c'.Carries first := by
  obtain ⟨hused, hcolor⟩ := h
  refine ⟨?_, ?_⟩ <;> rw [hused]
  · exact hc.first_le
  · rw [hcolor]
    exact hc.registers

/-- The needs of nodes are met without a varying. -/
theorem Records.sameVaryings {needs : List (Node α × Need)} (h : c.Records c' needs) :
    c.SameVaryings c' :=
  ⟨h.varyings, by rw [h.frame]⟩

end Compilation

section

variable {c c' : Compilation α} {first : Nat} {p : Program} {wanted : Features → Bool}
  {start : Register} {putTarget putVarying : Register → ColorRegisters → ColorRegisters}

/-- **A step**: an accumulator is carried by the next varying, if it is there at all. -/
theorem carries_accumulator
    (hput : ∀ target varying, (putVarying varying (putTarget target c.color)).varyings =
      c.color.varyings ++ [varying])
    (hcode : Leads (accumulator wanted start putTarget putVarying) c p c')
    (h : c.Carries first) : c'.Carries first := by
  rw [leads_accumulator] at hcode
  split at hcode
  · obtain ⟨target, rest, -, -, rfl, rfl⟩ := hcode
    have hle := h.first_le
    refine ⟨Nat.le_succ_of_le hle, ?_⟩
    have hcount : c.used.varyings + 1 - first = c.used.varyings - first + 1 := by omega
    have hlast : first + 1 * (c.used.varyings - first) = c.used.varyings := by omega
    show ColorRegisters.varyings (putVarying _ (putTarget _ c.color)) =
      (List.range' first (c.used.varyings + 1 - first)).map _
    rw [hput, hcount, List.range'_concat, hlast, List.map_append, h.registers]
    rfl
  · obtain ⟨-, rfl⟩ := hcode
    exact h

/-- The multiplier leaves the offset as it is. -/
theorem offsetVarying_multiplierStart {shared : SharedRegisters}
    (hcode : Leads (multiplierStart shared) c p c') :
    c'.color.offsetVarying = c.color.offsetVarying := by
  unfold multiplierStart at hcode
  rw [leads_accumulator] at hcode
  split at hcode
  · obtain ⟨target, rest, -, -, rfl, rfl⟩ := hcode
    rfl
  · obtain ⟨-, rfl⟩ := hcode
    rfl

/-- Both accumulators are carried by the next varyings. -/
theorem carries_initColor (hcode : Leads initColor c p c') (hcolor : c.color = {}) :
    c'.Carries c.used.varyings := by
  have hnone : c.Carries c.used.varyings := by
    refine ⟨Nat.le_refl _, ?_⟩
    rw [hcolor, Nat.sub_self]
    rfl
  obtain ⟨_, -, hinit⟩ := leads_initColor.mp hcode
  split at hinit
  · obtain ⟨multiplier, c₁, offset, hmultiplier, hoffset, -⟩ := hinit
    have hfree : c₁.color.offsetVarying = none := by
      rw [offsetVarying_multiplierStart hmultiplier, hcolor]
    refine carries_accumulator (fun target varying => ?_) hoffset
      (carries_accumulator (fun target varying => ?_) hmultiplier hnone)
    · simp [ColorRegisters.varyings, hfree]
    · simp [ColorRegisters.varyings, hcolor]
  · obtain ⟨-, rfl⟩ := hinit
    exact hnone

end

namespace NodeSet

variable {s : NodeSet α} {c c' c₁ c₂ : Compilation α} {shared : SharedRegisters} {f : Features}
  {pass : Pass} {profile : Profile} {sourceName targetName : String}
  {sourceNames targetNames : List String} {p q : Program} {calls : List (String × String)}
  {codes : List Program}

theorem sameVaryings_blockCode {block : Block} {phase : Phase}
    (hcatalogue : ∀ n ∈ s.nodes, n.behavior.IsCatalogue)
    (hcode : Leads (s.blockCode block) { c with phase } p c') : c.SameVaryings c' :=
  (records_blockCode hcatalogue hcode).sameVaryings

variable [Scalar α]

/-- **The vertex program** takes varyings for the color only. -/
theorem Built.carries_vertexFragments (h : s.Built) (hcovers : Covers f s)
    (hc : c.Begun shared .reset f) (hcode : Leads s.vertexFragments c p c')
    (hcolor : c.color = {}) : c'.Carries c.used.varyings := by
  simp only [vertexFragments, leads_bind, leads_pure] at hcode
  obtain ⟨placed, c₁, hplace, colored, c₂, hcolors, -, rfl⟩ := hcode
  obtain ⟨-, hbegun, -⟩ := h.extends_placeFragments hcovers hc hplace
  obtain ⟨primary, c₃, _, post, _, hprimary, -, hpost, -, -⟩ :=
    h.of_placeFragments hcovers hc hplace
  obtain ⟨start, c₄, color, c₅, _, hstart, -, -, hblock, -, -, rfl⟩ :=
    h.of_colorFragments hcovers hbegun hcolors
  have hfirst := sameVaryings_blockCode h.isCatalogue hprimary
  have hsecond := sameVaryings_blockCode h.isCatalogue hpost
  have hthird := sameVaryings_blockCode h.isCatalogue hblock
  obtain ⟨hused, hempty⟩ := hfirst.trans hsecond
  have hcarries := carries_initColor hstart (hempty.trans hcolor)
  have hafter : c₅.Carries c₁.used.varyings := hthird.carries hcarries
  rw [← hused]
  exact ⟨hafter.first_le, hafter.registers⟩

/-- Texture code takes no varying. -/
theorem Built.sameVaryings_writeUvCode (h : s.Built)
    (hcode : Leads (s.writeUvCode sourceName targetName) c q c') :
    c.SameVaryings c' := by
  unfold NodeSet.writeUvCode at hcode
  rw [leads_has_bind] at hcode
  split at hcode
  · simp only [leads_bind, leads_setUv, leads_pure, storeUvCode, leads_modify] at hcode
    obtain ⟨_, _, ⟨shared, source, target, -, -, -, rfl, rfl⟩, nodes, c₁, hnodes, _, _, rfl, -,
      rfl⟩ := hcode
    exact (records_gather (fun n hn => records_uvCode (h.isCatalogue n hn)) hnodes).sameVaryings
  · simp only [leads_bind, leads_ofOutcome, leads_pure] at hcode
    obtain ⟨_, _, ⟨-, rfl⟩, _, _, ⟨-, rfl⟩, -, rfl⟩ := hcode
    exact ⟨rfl, rfl⟩

/-- The names of a request for texture code are read, whether the code is written or was
written before. -/
theorem Built.names_uvCode (h : s.Built)
    (hcode : Leads (s.uvCode sourceName targetName) c q c') :
    c.SameVaryings c' ∧ ∃ source target, Register.ofName sourceName = .ok source ∧
      Register.ofName targetName = .ok target := by
  unfold uvCode at hcode
  rw [leads_get_bind] at hcode
  split at hcode
  · simp at hcode
  · simp only [leads_bind, leads_ofOutcome] at hcode
    obtain ⟨written, _, ⟨hwritten, rfl⟩, hcode⟩ := hcode
    cases written with
    | none =>
      have hwrite := leads_orAbandon.mp hcode
      refine ⟨h.sameVaryings_writeUvCode hwrite, ?_⟩
      unfold NodeSet.writeUvCode at hwrite
      rw [leads_has_bind] at hwrite
      split at hwrite
      · obtain ⟨_, _, huv, -⟩ := leads_bind.mp hwrite
        obtain ⟨-, source, target, -, hsource, htarget, -⟩ := leads_setUv.mp huv
        exact ⟨source, target, hsource, htarget⟩
      · simp only [leads_bind, leads_ofOutcome] at hwrite
        obtain ⟨source, _, ⟨hsource, -⟩, target, _, ⟨htarget, -⟩, -⟩ := hwrite
        exact ⟨source, target, hsource, htarget⟩
    | some code =>
      obtain ⟨-, rfl⟩ := leads_result.mp hcode
      refine ⟨⟨rfl, rfl⟩, ?_⟩
      unfold writtenUvCode at hwritten
      split at hwritten
      · obtain ⟨source, hsource, hwritten⟩ := Outcome.bind_eq_ok.mp hwritten
        obtain ⟨target, htarget, -⟩ := Outcome.bind_eq_ok.mp hwritten
        exact ⟨source, target, hsource, htarget⟩
      · cases hwritten

theorem Built.names_uvCodes (h : s.Built)
    (hcode : Leads (s.uvCodes calls) c codes c') :
    c.SameVaryings c' ∧ ∀ call ∈ calls, ∃ source target, Register.ofName call.1 = .ok source ∧
      Register.ofName call.2 = .ok target := by
  induction calls generalizing codes c with
  | nil =>
    obtain ⟨-, rfl⟩ := leads_result.mp hcode
    exact ⟨⟨rfl, rfl⟩, nofun⟩
  | cons call calls ih =>
    simp only [NodeSet.uvCodes, leads_bind, leads_pure] at hcode
    obtain ⟨first, c₁, hfirst, others, c₂, hothers, -, rfl⟩ := hcode
    obtain ⟨hsame, hnames⟩ := h.names_uvCode hfirst
    obtain ⟨hsame', hnames'⟩ := ih hothers
    exact ⟨hsame.trans hsame', List.forall_mem_cons.mpr ⟨hnames, hnames'⟩⟩

/-- What a compilation takes: the attributes from the count of the pass on have streams, and
the varyings from there on carry the color. -/
theorem Built.owns (h : s.Built)
    (hvertex : Leads (s.vertexCode pass profile sourceNames targetNames) c p c₁)
    (huv : Leads (s.uvCodes calls) c₁ codes c₂) :
    c₂.taken = pass.taken ∧ (∀ r, c₂.Streams r ↔ c₂.Owns .vertexAttribute r) ∧
      ∀ r, c₂.Colors r ↔ c₂.Owns .varying r := by
  have hcompiled := h.compiled hvertex huv
  have htaken : c₂.taken = pass.taken := hcompiled.taken
  obtain ⟨hle, hregisters⟩ := hcompiled.registers
  obtain ⟨_, _, shared, c₀, -, -, hopened, hfragments⟩ := h.of_vertexCode hvertex
  have hcarries := h.carries_vertexFragments (covers_featuresFor s pass) hopened.begun hfragments
    hopened.color
  rw [hopened.varyings, ← htaken] at hcarries
  rw [← htaken] at hle
  exact ⟨htaken, fun r => streams_iff hle hregisters,
    fun r => ((h.names_uvCodes huv).1.carries hcarries).colors_iff⟩

/-- **Collisions**: behind the vertex code and any requests for texture code, a source has a
stream exactly if it is an attribute that the animation took, and the target of the texture
carries color exactly if it is a varying that the animation took. So names are not met that
the pass has counted. -/
theorem Built.collisions_spec (h : s.Built)
    (hvertex : Leads (s.vertexCode pass profile sourceNames targetNames) c p c₁)
    (huv : Leads (s.uvCodes calls) c₁ codes c₂) :
    c₂.taken = pass.taken ∧
    (∃ sources, sourceNames.mapM Register.ofName = .ok sources ∧ ∀ r ∈ sources,
      (c₂.Streams r ↔ c₂.Owns .vertexAttribute r) ∧
        ((r.kind = .vertexAttribute → r.index < pass.taken.vertexAttributes) → ¬ c₂.Streams r)) ∧
    ∀ call ∈ calls, ∃ source target, Register.ofName call.1 = .ok source ∧
      Register.ofName call.2 = .ok target ∧
      (c₂.Streams source ↔ c₂.Owns .vertexAttribute source) ∧
      (c₂.Colors target ↔ c₂.Owns .varying target) ∧
      ((source.kind = .vertexAttribute → source.index < pass.taken.vertexAttributes) →
        ¬ c₂.Streams source) ∧
      ((target.kind = .varying → target.index < pass.taken.varyings) → ¬ c₂.Colors target) := by
  obtain ⟨htaken, hstreams, hcolors⟩ := h.owns hvertex huv
  have hattribute : ∀ r : Register,
      (r.kind = .vertexAttribute → r.index < pass.taken.vertexAttributes) → ¬ c₂.Streams r := by
    intro r hr
    rw [hstreams]
    exact not_owns_of_lt (htaken ▸ hr)
  have hvarying : ∀ r : Register,
      (r.kind = .varying → r.index < pass.taken.varyings) → ¬ c₂.Colors r := by
    intro r hr
    rw [hcolors]
    exact not_owns_of_lt (htaken ▸ hr)
  obtain ⟨sources, _, _, _, hsources, -⟩ := h.of_vertexCode hvertex
  refine ⟨htaken, ⟨sources, hsources, fun r _ => ⟨hstreams r, hattribute r⟩⟩, fun call hcall => ?_⟩
  obtain ⟨source, target, hsource, htarget⟩ := (h.names_uvCodes huv).2 call hcall
  exact ⟨source, target, hsource, htarget, hstreams source, hcolors target, hattribute source,
    hvarying target⟩

/-- A color of which the multiplier is animated for every particle. -/
def glow : Node Rat where
  behavior := .color
    { usesMultiplier := true, usesOffset := false, cycle := none, colors := .perParticle .baked }
  id := 1
  offset := 4

/-- Particles whose color fades. -/
def glowing : NodeSet Rat where
  settings := { features := { colorMultiplier := true } }
  nodes := [timeNode {}, glow]
  stride := 12

theorem built_glowing : glowing.Built :=
  .add (b := glow.behavior) (.empty {}) (by exact trivial) rfl

/-- A pass that applies animated color and counts some of its registers. -/
def coloredPass (attributes varyings : Nat) : Pass where
  taken := { vertexAttributes := attributes, varyings }
  fragmentAnimation := true

/-- Between names that the pass has counted, a color finds registers of its own. -/
theorem glowing_apart : ∃ p c₁ codes c₂,
    Leads (glowing.vertexCode (coloredPass 2 1) .baseline ["va0"] ["vt0"])
      { profile := .standard } p c₁ ∧
    Leads (glowing.uvCodes [("va1", "v0")]) c₁ codes c₂ ∧
    ¬ c₂.Streams { kind := .vertexAttribute, index := 0 } ∧
    ¬ c₂.Streams { kind := .vertexAttribute, index := 1 } ∧
    ¬ c₂.Colors { kind := .varying, index := 0 } := by
  have hboth : succeeds (do
      let _ ← glowing.vertexCode (coloredPass 2 1) .baseline ["va0"] ["vt0"]
      glowing.uvCodes [("va1", "v0")]) { profile := .standard } = true := by
    decide +kernel
  obtain ⟨codes, c₂, hcode⟩ := exists_leads hboth
  obtain ⟨p, c₁, hvertex, huv⟩ := leads_bind.mp hcode
  obtain ⟨-, ⟨sources, hsources, hattributes⟩, hcalls⟩ :=
    built_glowing.collisions_spec hvertex huv
  obtain ⟨source, target, hsource, htarget, -, -, hnone, hfree⟩ := hcalls _ List.mem_cons_self
  cases hsources
  cases hsource
  cases htarget
  exact ⟨p, c₁, codes, c₂, hvertex, huv,
    (hattributes _ List.mem_cons_self).2 fun _ => Nat.zero_lt_two, hnone fun _ => Nat.one_lt_two,
    hfree fun _ => Nat.one_pos⟩

/-- Between the same names in a pass that counts nothing, it takes the registers that are
named. -/
theorem glowing_collides : glowing.Built ∧ ∃ p c₁ q c₂,
    Leads (glowing.vertexCode (coloredPass 0 0) .baseline ["va0"] ["vt0"])
      { profile := .standard } p c₁ ∧
    Leads (glowing.uvCode "va1" "v0") c₁ q c₂ ∧
    (∃ source, Register.ofName "va0" = .ok source ∧ c₂.Streams source) ∧
    (∃ source, Register.ofName "va1" = .ok source ∧ c₂.Streams source) ∧
    ∃ target, Register.ofName "v0" = .ok target ∧ c₂.Colors target := by
  have hboth : succeeds (do
      let _ ← glowing.vertexCode (coloredPass 0 0) .baseline ["va0"] ["vt0"]
      let q ← glowing.uvCode "va1" "v0"
      let c ← get
      if c.bindings.map (·.register) = [0, 1, 2] ∧
        c.color.varyings = [{ kind := .varying, index := 0 }] then return q
      else throw .notCompiled) { profile := .standard } = true := by
    decide +kernel
  obtain ⟨q, c₂, hcode⟩ := exists_leads hboth
  obtain ⟨p, c₁, hvertex, hcode⟩ := leads_bind.mp hcode
  obtain ⟨q, c₂, huv, hcode⟩ := leads_bind.mp hcode
  rw [leads_get_bind, leads_ite] at hcode
  split at hcode
  · rename_i htaken
    obtain ⟨hregisters, hvaryings⟩ := htaken
    have hstreams : ∀ index ∈ [0, 1, 2],
        c₂.Streams { kind := .vertexAttribute, index } := by
      intro index hindex
      rw [← hregisters] at hindex
      obtain ⟨b, hb, rfl⟩ := List.mem_map.mp hindex
      exact ⟨b, hb, rfl⟩
    refine ⟨built_glowing, p, c₁, q, c₂, hvertex, huv, ⟨_, rfl, hstreams 0 (by decide)⟩,
      ⟨_, rfl, hstreams 1 (by decide)⟩, _, rfl, ?_⟩
    unfold Colors
    rw [hvaryings]
    exact List.mem_cons_self
  · exact absurd hcode leads_throw.mp

end NodeSet

end ParticleShader
