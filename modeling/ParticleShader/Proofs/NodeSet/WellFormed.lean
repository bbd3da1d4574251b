import ParticleShader.Proofs.Node.Accesses
import ParticleShader.Proofs.NodeSet.Admission

/-!
# Well-formed programs

Nothing that a set emits reads a component of a temporary that was not written, and
nothing leaves the registers that were given to it. The beginning writes the vertex, the
directions and the accumulators, the node that keeps time comes first and writes time
and life, and from then on all code finds what it reads.
-/

namespace ParticleShader

variable {α : Type}

open Compile Compilation Node

/-! ### The fixed fragments -/

section

variable {R : Rights} {W : Written} {c c' : Compilation α} {shared : SharedRegisters} {p : Program}

/-- Copies may run, and afterwards the targets are written. -/
theorem runs_copies {targets sources : List Register} (hlength : sources.length = targets.length)
    (htargets : ∀ r ∈ targets, ∃ i, r = .temporary i ∧ R.Temporary i)
    (hsources : ∀ r ∈ sources, R.Given r) :
    R.Runs W (targets.zipWith (fun (t s : Register) => Statement.mov t s) sources) ∧
      ∀ r ∈ targets, ∀ k,
        W.run (targets.zipWith (fun (t s : Register) => Statement.mov t s) sources) r.index k := by
  induction targets generalizing sources W with
  | nil => exact ⟨trivial, nofun⟩
  | cons target targets ih =>
    obtain ⟨source, sources, rfl⟩ := List.exists_cons_of_length_eq_add_one hlength
    rw [List.forall_mem_cons] at htargets hsources
    obtain ⟨i, rfl, hi⟩ := htargets.1
    obtain ⟨hruns, hwritten⟩ := ih (W := W.after (Register.temporary i).operand)
      (Nat.succ.inj hlength) htargets.2 hsources.2
    constructor
    · exact Rights.runs_unary.mpr ⟨hsources.1.operand, hi _, hruns⟩
    · refine List.forall_mem_cons.mpr ⟨fun k => ?_, hwritten⟩
      refine Written.le_run (W.after (Register.temporary i).operand) _ i k (.inr ?_)
      cases k <;> simp

/-- The beginning writes the vertex, the directions and the accumulators. -/
theorem runs_initProgram {targets sources : List Register} (hplaced : shared.Placed R)
    (hlength : sources.length = targets.length) (htargets : targets = shared.oriented)
    (hsources : ∀ r ∈ sources, R.Given r) :
    R.Runs W (initProgram shared sources targets) ∧
      shared.Started (W.run (initProgram shared sources targets)) := by
  obtain ⟨hcopies, hwritten⟩ := runs_copies (W := W) hlength (htargets ▸ hplaced.oriented) hsources
  obtain ⟨displacement, hdisplacement, hd⟩ := hplaced.displacement
  unfold initProgram
  rw [Rights.runs_append, Written.run_append]
  generalize W.run (targets.zipWith _ sources) = W' at hwritten
  refine ⟨⟨hcopies, ?_⟩, ?_, ?_, ?_⟩
  · cases hvelocity : shared.velocity with
    | none => simp [hdisplacement, hd _, hplaced.zero.operand]
    | some velocity =>
      obtain ⟨velocity, rfl, hv⟩ := hplaced.velocity velocity hvelocity
      simp [hdisplacement, hd _, hv _, hplaced.zero.operand]
  · intro r hr k
    exact Written.le_run W' _ _ _ (hwritten r (htargets ▸ hr) k)
  · intro k hk
    refine Written.run_of_mem List.mem_cons_self ?_
    cases k <;> simp_all
  · intro r hr k hk
    refine Written.run_of_mem (i := ⟨.mov, r.xyz, [shared.zero]⟩) (List.mem_cons_of_mem _ ?_) ?_
    · rw [hr]
      exact List.mem_cons_self
    · obtain ⟨velocity, rfl, -⟩ := hplaced.velocity r hr
      cases k <;> simp_all

theorem runs_combine (hplaced : shared.Placed R) (hstarted : shared.Started W) :
    R.Runs W [Statement.add shared.vertex.xyz shared.vertex.xyz shared.displacement.xyz] := by
  obtain ⟨vertex, hvertex, hv, hwritten⟩ := hplaced.exists_vertex hstarted
  obtain ⟨displacement, hdisplacement, -, hmoved⟩ := hplaced.exists_displacement hstarted
  simp [hvertex, hv _, hwritten, hdisplacement, hmoved]

/-! ### The color accumulators -/

/-- The varyings that carry the color. -/
def ColorRegisters.varyings (color : ColorRegisters) : List Register :=
  color.multiplierVarying.toList ++ color.offsetVarying.toList

/-- The varyings that carry the color were taken from the pool, behind the first ones. -/
def Compilation.HandsOver (c : Compilation α) (first : Nat) : Prop :=
  ∀ r ∈ c.color.varyings, ∃ i, r = { kind := .varying, index := i } ∧
    first ≤ i ∧ i < c.used.varyings

variable {wanted : Features → Bool} {start : Register}
  {putTarget putVarying : Register → ColorRegisters → ColorRegisters}

theorem extends_accumulator (hcode : Leads (accumulator wanted start putTarget putVarying) c p c') :
    c.Extends c' := by
  rw [leads_accumulator] at hcode
  split at hcode
  · obtain ⟨target, rest, hfree, -, rfl, rfl⟩ := hcode
    refine ⟨Nat.le_refl _, Nat.le_succ _, fun _ hb => hb, fun i hi => ?_, rfl⟩
    have hrest : i ∈ (c.claiming target).free := hi
    rw [free_claiming_head hfree] at hrest
    exact hfree ▸ List.mem_cons_of_mem _ hrest
  · obtain ⟨-, rfl⟩ := hcode
    exact .refl c'

/-- An accumulator hands over a varying more, if any. -/
theorem handsOver_accumulator {first : Nat}
    (hput : ∀ target varying color, (putVarying varying (putTarget target color)).varyings ⊆
      varying :: color.varyings)
    (hcode : Leads (accumulator wanted start putTarget putVarying) c p c')
    (hfirst : first ≤ c.used.varyings) (h : c.HandsOver first) : c'.HandsOver first := by
  rw [leads_accumulator] at hcode
  split at hcode
  · obtain ⟨target, rest, -, -, rfl, rfl⟩ := hcode
    intro r hr
    rcases List.mem_cons.mp (hput _ _ _ hr) with rfl | hr
    · exact ⟨c.used.varyings, rfl, hfirst, Nat.lt_succ_self _⟩
    · obtain ⟨i, rfl, hlow, hhigh⟩ := h r hr
      exact ⟨i, rfl, hlow, Nat.lt_succ_of_lt hhigh⟩
  · obtain ⟨-, rfl⟩ := hcode
    exact h

/-- An accumulator is written as a whole before anything reads it. -/
theorem runs_accumulator
    (hput : ∀ i varying color W', R.Temporary i → (∀ k, W' i k) → color.Placed R W' →
      (putVarying varying (putTarget (.temporary i) color)).Placed R W')
    (hcode : Leads (accumulator wanted start putTarget putVarying) c p c')
    (hfree : ∀ i ∈ c.free, R.Temporary i) (hstart : R.Given start) (h : c.color.Placed R W) :
    R.Runs W p ∧ c'.color.Placed R (W.run p) := by
  rw [leads_accumulator] at hcode
  split at hcode
  · obtain ⟨target, rest, htarget, -, rfl, rfl⟩ := hcode
    have hplace := hfree target (htarget ▸ List.mem_cons_self)
    refine ⟨Rights.runs_unary.mpr ⟨hstart.operand, hplace _, trivial⟩, ?_⟩
    refine hput _ _ _ _ hplace (fun k => ?_) (h.mono (Written.le_run W _))
    refine Written.run_of_mem List.mem_cons_self ?_
    cases k <;> simp
  · obtain ⟨rfl, rfl⟩ := hcode
    exact ⟨trivial, h⟩

theorem ColorRegisters.placed_empty : ColorRegisters.Placed R W {} := ⟨nofun, nofun⟩

theorem ColorRegisters.Placed.putMultiplier {color : ColorRegisters} {i : Nat} {varying : Register}
    (h : color.Placed R W) (hi : R.Temporary i) (hwritten : ∀ k, W i k) :
    ColorRegisters.Placed R W { color with
      multiplier := some (.temporary i), multiplierVarying := some varying } := by
  refine ⟨?_, h.offset⟩
  rintro _ ⟨⟩
  exact ⟨i, rfl, hi, hwritten⟩

theorem ColorRegisters.Placed.putOffset {color : ColorRegisters} {i : Nat} {varying : Register}
    (h : color.Placed R W) (hi : R.Temporary i) (hwritten : ∀ k, W i k) :
    ColorRegisters.Placed R W { color with
      offset := some (.temporary i), offsetVarying := some varying } := by
  refine ⟨h.multiplier, ?_⟩
  rintro _ ⟨⟩
  exact ⟨i, rfl, hi, hwritten⟩

theorem extends_initColor (hcode : Leads initColor c p c') : c.Extends c' := by
  obtain ⟨_, -, hinit⟩ := leads_initColor.mp hcode
  split at hinit
  · obtain ⟨multiplier, c₁, offset, hmultiplier, hoffset, -⟩ := hinit
    exact (extends_accumulator hmultiplier).trans (extends_accumulator hoffset)
  · obtain ⟨-, rfl⟩ := hinit
    exact .refl c'

theorem handsOver_initColor (hcode : Leads initColor c p c') (hcolor : c.color = {}) :
    c'.HandsOver c.used.varyings := by
  have hnone : c.HandsOver c.used.varyings := by
    intro r hr
    rw [hcolor] at hr
    nomatch hr
  obtain ⟨_, -, hinit⟩ := leads_initColor.mp hcode
  split at hinit
  · obtain ⟨multiplier, c₁, offset, hmultiplier, hoffset, -⟩ := hinit
    refine handsOver_accumulator (fun target varying color => ?_) hoffset
      (extends_accumulator hmultiplier).varyings
      (handsOver_accumulator (fun target varying color => ?_) hmultiplier (Nat.le_refl _) hnone)
    · simp [ColorRegisters.varyings]
    · simp [ColorRegisters.varyings]
  · obtain ⟨-, rfl⟩ := hinit
    exact hnone

theorem runs_initColor (hcode : Leads initColor c p c') (hserves : R.Serves c c')
    (hshared : c.shared? = .ok shared) (hplaced : shared.Placed R) (hcolor : c.color = {}) :
    R.Runs W p ∧ c'.color.Placed R (W.run p) := by
  have hnone : c.color.Placed R W := hcolor ▸ ColorRegisters.placed_empty
  obtain ⟨_, hshared', hinit⟩ := leads_initColor.mp hcode
  obtain rfl := Except.ok.inj (hshared.symm.trans hshared')
  split at hinit
  · obtain ⟨multiplier, c₁, offset, hmultiplier, hoffset, rfl⟩ := hinit
    obtain ⟨hfirst, hplaced₁⟩ := runs_accumulator (fun _ _ _ _ hi hwritten h =>
      h.putMultiplier hi hwritten) hmultiplier hserves.temporaries hplaced.one hnone
    have hserves₁ := hserves.between (extends_accumulator hmultiplier) (.refl c')
    obtain ⟨hsecond, hplaced₂⟩ := runs_accumulator (fun _ _ _ _ hi hwritten h =>
      h.putOffset hi hwritten) hoffset hserves₁.temporaries hplaced.zero hplaced₁
    rw [Rights.runs_append, Written.run_append]
    exact ⟨⟨hfirst, hsecond⟩, hplaced₂⟩
  · obtain ⟨rfl, rfl⟩ := hinit
    exact ⟨trivial, hnone⟩

theorem runs_handOver {target varying : Option Register}
    (htarget : ∀ r ∈ target, ∃ i, r = .temporary i ∧ R.Temporary i ∧ ∀ k, W i k)
    (hvarying : ∀ r ∈ varying, R.writable r.operand) : R.Runs W (handOver target varying) := by
  unfold handOver
  split
  · obtain ⟨i, rfl, -, hwritten⟩ := htarget _ rfl
    exact Rights.runs_unary.mpr ⟨by simp [hwritten], hvarying _ rfl, trivial⟩
  · trivial

/-- The color is handed over from accumulators that are written. -/
theorem runs_colorPassCode (hplaced : c.color.Placed R W)
    (hvaryings : ∀ r ∈ c.color.varyings, R.writable r.operand) : R.Runs W c.colorPassCode := by
  unfold colorPassCode
  rw [Rights.runs_append]
  constructor
  · exact runs_handOver hplaced.multiplier fun r hr =>
      hvaryings r (List.mem_append_left _ (Option.mem_toList.mpr hr))
  · exact runs_handOver (hplaced.mono (Written.le_run W _)).offset fun r hr =>
      hvaryings r (List.mem_append_right _ (Option.mem_toList.mpr hr))

end

namespace NodeSet

variable {s : NodeSet α} {c c' : Compilation α} {R : Rights} {W : Written}
  {shared : SharedRegisters} {f : Features} {p : Program}

/-! ### The blocks -/

/-- The code of nodes is that of the first one and that of the others, which find what
they rely on. -/
theorem of_gather {n : Node α} {nodes : List (Node α)} (hcatalogue : n.behavior.IsCatalogue)
    (hcatalogue' : ∀ m ∈ nodes, m.behavior.IsCatalogue) (hready : c.Ready n.behavior)
    (hready' : ∀ m ∈ nodes, c.Ready m.behavior)
    (hcode : Leads (gather Node.vertexCode (n :: nodes)) c p c') :
    ∃ first c₁ d others, Leads n.vertexCode c first c₁ ∧ c.Grows c₁ d ∧
      (∀ m ∈ nodes, c₁.Ready m.behavior) ∧ Leads (gather Node.vertexCode nodes) c₁ others c' ∧
      c₁.Extends c' ∧ p = first ++ others := by
  simp only [gather, leads_bind, leads_pure] at hcode
  obtain ⟨first, c₁, hfirst, others, c₂, hothers, rfl, rfl⟩ := hcode
  have hgrows := (takes_vertexCode hcatalogue hready).after hfirst
  have hready₁ := fun m hm => (hready' m hm).grows hgrows
  exact ⟨first, c₁, _, others, hfirst, hgrows, hready₁, hothers,
    ((takes_gather hcatalogue' hready₁).after hothers).extends, rfl⟩

/-- The code of nodes one after the other may run where time is known. -/
theorem runs_gather {nodes : List (Node α)} (hcatalogue : ∀ n ∈ nodes, n.behavior.IsCatalogue)
    (hready : ∀ n ∈ nodes, c.Ready n.behavior)
    (hcode : Leads (gather Node.vertexCode nodes) c p c') (hserves : R.Serves c c')
    (hstands : c.Stands R W shared) (htimed : nodes ≠ [] → shared.Timed W) : R.Runs W p := by
  induction nodes generalizing c W p with
  | nil =>
    obtain ⟨rfl, -⟩ := leads_result.mp hcode
    trivial
  | cons n nodes ih =>
    rw [List.forall_mem_cons] at hcatalogue hready
    obtain ⟨first, c₁, d, others, hfirst, hgrows, hready₁, hothers, hafter, rfl⟩ :=
      of_gather hcatalogue.1 hcatalogue.2 hready.1 hready.2 hcode
    have htimed := htimed (List.cons_ne_nil n nodes)
    have hle := Written.le_run W first
    rw [Rights.runs_append]
    constructor
    · exact runs_vertexCode hcatalogue.1 hfirst (hserves.between (.refl c) hafter) hstands htimed
    · exact ih hcatalogue.2 hready₁ hothers (hserves.between hgrows.extends (.refl c'))
        (hstands.grows hgrows hle) fun _ => htimed.mono hle

/-- The block before the placement begins with the node that keeps time. -/
theorem Built.runs_primary [Scalar α] (h : s.Built)
    (hready : ∀ n ∈ s.nodes.filter (·.info.block = .primary), c.Ready n.behavior)
    (hcode : Leads (s.blockCode .primary) c p c') (hserves : R.Serves c c')
    (hstands : c.Stands R W shared) :
    R.Runs W p ∧ (s.nodes ≠ [] → shared.Timed (W.run p)) := by
  have hcatalogue : ∀ n ∈ s.nodes.filter (·.info.block = .primary), n.behavior.IsCatalogue :=
    fun n hn => h.isCatalogue n (List.mem_filter.mp hn).1
  unfold blockCode at hcode
  by_cases hnodes : s.nodes = []
  · rw [hnodes] at hcode
    obtain ⟨rfl, -⟩ := leads_result.mp hcode
    exact ⟨trivial, fun hne => absurd hnodes hne⟩
  · obtain ⟨rest, hrest⟩ := h.nodes_eq hnodes
    have hblock : s.nodes.filter (·.info.block = .primary) =
        { behavior := .time s.settings.lifecycle, id := timeId } ::
          rest.filter (·.info.block = .primary) := by
      rw [hrest]
      exact List.filter_cons_of_pos (by rfl)
    rw [hblock] at hcode hready hcatalogue
    rw [List.forall_mem_cons] at hready hcatalogue
    obtain ⟨first, c₁, d, others, hfirst, hgrows, hready₁, hothers, hafter, rfl⟩ :=
      of_gather hcatalogue.1 hcatalogue.2 hready.1 hready.2 hcode
    obtain ⟨hruns, htimed⟩ :=
      Behavior.runs_timeCode hfirst (hserves.between (.refl c) hafter) hstands
    rw [Rights.runs_append, Written.run_append]
    refine ⟨⟨hruns, ?_⟩, fun _ => htimed.mono (Written.le_run _ others)⟩
    exact runs_gather hcatalogue.2 hready₁ hothers (hserves.between hgrows.extends (.refl c'))
      (hstands.grows hgrows (Written.le_run W first)) fun _ => htimed

/-! ### The vertex program -/

variable [Scalar α]

/-- Placing the vertex: between the fixed fragments only the two blocks take registers. -/
theorem Built.of_placeFragments (h : s.Built) (hcovers : Covers f s)
    (hc : c.Begun shared .reset f) (hcode : Leads s.placeFragments c p c') :
    ∃ primary c₁ d post e, Leads (s.blockCode .primary) { c with phase := .primary } primary c₁ ∧
      ({ c with phase := .primary } : Compilation α).Grows c₁ d ∧
      Leads (s.blockCode .post) { c₁ with phase := .post } post c' ∧
      ({ c₁ with phase := .post } : Compilation α).Grows c' e ∧
      p = initProgram shared c.sources c.targets ++ primary ++
        [Statement.add shared.vertex.xyz shared.vertex.xyz shared.displacement.xyz] ++ post := by
  unfold placeFragments at hcode
  have hinit := hc.enter .init
  rw [leads_enter_bind (by rw [hc.phase]; rfl), leads_bind] at hcode
  obtain ⟨start, c₁, hstart, hcode⟩ := hcode
  obtain ⟨_, hshared, rfl, rfl⟩ := leads_initCode.mp hstart
  obtain rfl := Except.ok.inj ((hinit.shared? rfl).symm.trans hshared)
  have hprimary := hc.enter .primary
  rw [leads_enter_bind rfl, leads_bind] at hcode
  obtain ⟨primary, c₁, hblock, hcode⟩ := hcode
  have hgrows := (takes_blockCode h.isCatalogue hcovers hprimary rfl (by simp)).after hblock
  have hcombine := (hprimary.grows hgrows).enter .combine
  rw [leads_enter_bind (by rw [(hprimary.grows hgrows).phase]; rfl), leads_bind] at hcode
  obtain ⟨placed, c₂, hplaced, hcode⟩ := hcode
  obtain ⟨_, hshared, rfl, rfl⟩ := leads_combineCode.mp hplaced
  obtain rfl := Except.ok.inj ((hcombine.shared? rfl).symm.trans hshared)
  have hpost := (hprimary.grows hgrows).enter .post
  rw [leads_enter_bind rfl, leads_bind] at hcode
  obtain ⟨post, c₂, hblock', hcode⟩ := hcode
  have hgrows' := (takes_blockCode h.isCatalogue hcovers hpost rfl (by simp)).after hblock'
  obtain ⟨rfl, rfl⟩ := leads_result.mp hcode
  exact ⟨primary, c₁, _, post, _, hblock, hgrows, hblock', hgrows', rfl⟩

/-- Coloring the vertex: the accumulators, the block of the colors, and nothing else. -/
theorem Built.of_colorFragments (h : s.Built) (hcovers : Covers f s)
    (hc : c.Begun shared .post f) (hcode : Leads s.colorFragments c p c') :
    ∃ start c₁ color c₂ d, Leads initColor { c with phase := .colorInit } start c₁ ∧
      c₁.Begun shared .colorInit f ∧ (f.fragmentAnimation = true → Colored f c₁) ∧
      Leads (s.blockCode .color) { c₁ with phase := .color } color c₂ ∧
      ({ c₁ with phase := .color } : Compilation α).Grows c₂ d ∧
      p = start ++ color ++ c₂.colorPassCode ∧ c' = { c₂ with phase := .colorCombine } := by
  unfold colorFragments at hcode
  have hinit := hc.enter .colorInit
  rw [leads_enter_bind (by rw [hc.phase]; rfl), leads_bind] at hcode
  obtain ⟨start, c₁, hstart, hcode⟩ := hcode
  obtain ⟨hrecolored, hcolored⟩ := (spends_initColor hinit rfl).after hstart
  have hbegun := hrecolored.begun hinit
  have hcolor := hbegun.enter .color
  rw [leads_enter_bind (by rw [hbegun.phase]; rfl), leads_bind] at hcode
  obtain ⟨color, c₂, hblock, hcode⟩ := hcode
  have hgrows := (takes_blockCode h.isCatalogue hcovers hcolor rfl
    fun _ hanimation => ⟨(hcolored hanimation).multiplier, (hcolored hanimation).offset⟩).after
      hblock
  rw [leads_enter_bind (by rw [(hcolor.grows hgrows).phase]; rfl), leads_get_bind] at hcode
  obtain ⟨rfl, rfl⟩ := leads_result.mp hcode
  exact ⟨start, c₁, color, c₂, _, hstart, hbegun, hcolored, hblock, hgrows, rfl, rfl⟩

/-- What is given to the vertex program besides the registers that it takes. -/
structure Supplied (R : Rights) (c : Compilation α) (registers : SharedRegisters) : Prop where
  /-- The shared registers lie in their places. -/
  placed : registers.Placed R
  /-- The sources may be read. -/
  sources : ∀ r ∈ c.sources, R.Given r
  /-- The targets are the vertex and the directions. -/
  targets : c.targets = registers.oriented
  /-- Every target has its source. -/
  paired : c.sources.length = c.targets.length
  /-- No color was animated yet. -/
  color : c.color = {}

omit [Scalar α] in
theorem stands_of_begun {phase : Phase} (hc : c.Begun shared phase f)
    (hactive : phase.isActive = true) (hplaced : shared.Placed R) (hstarted : shared.Started W)
    (hcolor : c.color.Placed R W) : c.Stands R W shared :=
  ⟨hc.shared? hactive, hplaced, hstarted, hcolor⟩

theorem Built.runs_placeFragments (h : s.Built) (hcovers : Covers f s)
    (hc : c.Begun shared .reset f) (hcode : Leads s.placeFragments c p c')
    (hserves : R.Serves c c') (hsupplied : Supplied R c shared) :
    R.Runs W p ∧ shared.Started (W.run p) ∧ (s.nodes ≠ [] → shared.Timed (W.run p)) := by
  obtain ⟨primary, c₁, d, post, e, hprimary, hgrows, hpost, hgrows', rfl⟩ :=
    h.of_placeFragments hcovers hc hcode
  obtain ⟨hplaced, hsources, htargets, hpaired, hcolor⟩ := hsupplied
  have hfirst := hc.enter .primary
  have hsecond := (hfirst.grows hgrows).enter .post
  have hcolor₁ : c₁.color = {} := hgrows.color.trans hcolor
  -- The beginning
  obtain ⟨hinit, hstarted⟩ := runs_initProgram (W := W) hplaced hpaired htargets hsources
  generalize initProgram shared c.sources c.targets = start at hinit hstarted
  -- The block before the placement
  obtain ⟨hblock, htimed⟩ := h.runs_primary (hcovers.ready h.isCatalogue hfirst rfl (by simp))
    hprimary (hserves.between (.enter c .primary) ((Extends.enter c₁ .post).trans hgrows'.extends))
    (stands_of_begun hfirst rfl hplaced hstarted (hcolor ▸ ColorRegisters.placed_empty))
  have hstarted₁ := hstarted.mono (Written.le_run _ primary)
  -- The placement
  have hcombine := runs_combine hplaced hstarted₁
  generalize [Statement.add shared.vertex.xyz shared.vertex.xyz shared.displacement.xyz] = placed
    at hcombine
  have hle := Written.le_run ((W.run start).run primary) placed
  have hstarted₂ := hstarted₁.mono hle
  -- The block behind it
  have hpost := runs_gather (W := ((W.run start).run primary).run placed)
    (fun n hn => h.isCatalogue n (List.mem_filter.mp hn).1)
    (hcovers.ready h.isCatalogue hsecond rfl (by simp)) hpost
    (hserves.between (((Extends.enter c .primary).trans hgrows.extends).trans (.enter c₁ .post))
      (.refl c'))
    (stands_of_begun hsecond rfl hplaced hstarted₂ (hcolor₁ ▸ ColorRegisters.placed_empty))
    fun hne => (htimed (fun hnil => hne (by rw [hnil]; rfl))).mono hle
  have hle' := Written.le_run (((W.run start).run primary).run placed) post
  simp only [Rights.runs_append, Written.run_append]
  exact ⟨⟨⟨⟨hinit, hblock⟩, hcombine⟩, hpost⟩, hstarted₂.mono hle',
    fun hne => (htimed hne).mono (hle.trans hle')⟩

/-- The vertex is placed without touching the colors. -/
theorem Built.extends_placeFragments (h : s.Built) (hcovers : Covers f s)
    (hc : c.Begun shared .reset f) (hcode : Leads s.placeFragments c p c') :
    c.Extends c' ∧ c'.Begun shared .post f ∧ c'.color = c.color := by
  obtain ⟨primary, c₁, d, post, e, -, hgrows, -, hgrows', -⟩ :=
    h.of_placeFragments hcovers hc hcode
  exact ⟨(((Extends.enter c .primary).trans hgrows.extends).trans (.enter c₁ .post)).trans
      hgrows'.extends, (((hc.enter .primary).grows hgrows).enter .post).grows hgrows',
    hgrows'.color.trans hgrows.color⟩

theorem Built.extends_colorFragments (h : s.Built) (hcovers : Covers f s)
    (hc : c.Begun shared .post f) (hcode : Leads s.colorFragments c p c')
    (hcolor : c.color = {}) :
    c.Extends c' ∧ c'.Begun shared .colorCombine f ∧ c'.HandsOver c.used.varyings := by
  obtain ⟨start, c₁, color, c₂, d, hstart, hbegun, -, -, hgrows, -, rfl⟩ :=
    h.of_colorFragments hcovers hc hcode
  have hafter : c₁.Extends { c₂ with phase := .colorCombine } :=
    ((Extends.enter c₁ .color).trans hgrows.extends).trans (.enter c₂ .colorCombine)
  refine ⟨((Extends.enter c .colorInit).trans (extends_initColor hstart)).trans hafter,
    ((hbegun.enter .color).grows hgrows).enter .colorCombine, fun r hr => ?_⟩
  have hr : r ∈ c₁.color.varyings := hgrows.color ▸ hr
  obtain ⟨i, rfl, hlow, hhigh⟩ := handsOver_initColor hstart hcolor r hr
  exact ⟨i, rfl, hlow, Nat.lt_of_lt_of_le hhigh hafter.varyings⟩

theorem Built.runs_colorFragments (h : s.Built) (hcovers : Covers f s)
    (hc : c.Begun shared .post f) (hcode : Leads s.colorFragments c p c')
    (hserves : R.Serves c c') (hplaced : shared.Placed R) (hstarted : shared.Started W)
    (htimed : s.nodes ≠ [] → shared.Timed W) (hcolor : c.color = {})
    (hvaryings : ∀ r ∈ c'.color.varyings, R.writable r.operand) :
    R.Runs W p ∧ c'.color.Placed R (W.run p) := by
  obtain ⟨start, c₁, color, c₂, d, hstart, hbegun, hcolored, hblock, hgrows, rfl, rfl⟩ :=
    h.of_colorFragments hcovers hc hcode
  have hbefore := (Extends.enter c .colorInit).trans (extends_initColor hstart)
  have hafter : c₁.Extends { c₂ with phase := .colorCombine } :=
    ((Extends.enter c₁ .color).trans hgrows.extends).trans (.enter c₂ .colorCombine)
  -- The accumulators
  obtain ⟨hinit, haccumulators⟩ := runs_initColor (W := W) hstart
    (hserves.between (.enter c .colorInit) hafter) ((hc.enter .colorInit).shared? rfl) hplaced
    hcolor
  have hle := Written.le_run W start
  -- The block of the colors
  have hcolors := runs_gather (fun n hn => h.isCatalogue n (List.mem_filter.mp hn).1)
    (hcovers.ready h.isCatalogue (hbegun.enter .color) rfl fun _ hanimation =>
      ⟨(hcolored hanimation).multiplier, (hcolored hanimation).offset⟩) hblock
    (hserves.between (hbefore.trans (.enter c₁ .color)) (.enter c₂ .colorCombine))
    (stands_of_begun (hbegun.enter .color) rfl hplaced (hstarted.mono hle) haccumulators)
    fun hne => (htimed (fun hnil => hne (by rw [hnil]; rfl))).mono hle
  -- What is handed over
  have haccumulators₂ : c₂.color.Placed R ((W.run start).run color) :=
    hgrows.color ▸ haccumulators.mono (Written.le_run _ color)
  have hpass := runs_colorPassCode haccumulators₂ hvaryings
  simp only [Rights.runs_append, Written.run_append]
  exact ⟨⟨⟨hinit, hcolors⟩, hpass⟩, haccumulators₂.mono (Written.le_run _ _)⟩

/-- The vertex program may run, and leaves behind all that texture code works on. -/
theorem Built.runs_vertexFragments (h : s.Built) (hcovers : Covers f s)
    (hc : c.Begun shared .reset f) (hcode : Leads s.vertexFragments c p c')
    (hserves : R.Serves c c') (hsupplied : Supplied R c shared)
    (hvaryings : ∀ r ∈ c'.color.varyings, R.writable r.operand) :
    R.Runs W p ∧ c'.Stands R (W.run p) shared ∧ (s.nodes ≠ [] → shared.Timed (W.run p)) := by
  simp only [vertexFragments, leads_bind, leads_pure] at hcode
  obtain ⟨placed, c₁, hplace, colored, c₂, hcolors, rfl, rfl⟩ := hcode
  obtain ⟨hbefore, hbegun, hcolor⟩ := h.extends_placeFragments hcovers hc hplace
  have hnone := hcolor.trans hsupplied.color
  obtain ⟨hafter, hbegun', -⟩ := h.extends_colorFragments hcovers hbegun hcolors hnone
  obtain ⟨hruns, hstarted, htimed⟩ := h.runs_placeFragments (W := W) hcovers hc hplace
    (hserves.between (.refl c) hafter) hsupplied
  obtain ⟨hruns', haccumulators⟩ := h.runs_colorFragments hcovers hbegun hcolors
    (hserves.between hbefore (.refl c₂)) hsupplied.placed hstarted htimed hnone hvaryings
  have hle := Written.le_run (W.run placed) colored
  rw [Rights.runs_append, Written.run_append]
  exact ⟨⟨hruns, hruns'⟩, stands_of_begun hbegun' rfl hsupplied.placed (hstarted.mono hle)
    haccumulators, fun hne => (htimed hne).mono hle⟩

theorem Built.extends_vertexFragments (h : s.Built) (hcovers : Covers f s)
    (hc : c.Begun shared .reset f) (hcode : Leads s.vertexFragments c p c')
    (hcolor : c.color = {}) :
    c.Extends c' ∧ c'.Begun shared .colorCombine f ∧ c'.HandsOver c.used.varyings := by
  simp only [vertexFragments, leads_bind, leads_pure] at hcode
  obtain ⟨placed, c₁, hplace, colored, c₂, hcolors, -, rfl⟩ := hcode
  obtain ⟨hbefore, hbegun, hsame⟩ := h.extends_placeFragments hcovers hc hplace
  obtain ⟨hafter, hbegun', hvaryings⟩ :=
    h.extends_colorFragments hcovers hbegun hcolors (hsame.trans hcolor)
  refine ⟨hbefore.trans hafter, hbegun', fun r hr => ?_⟩
  obtain ⟨i, rfl, hlow, hhigh⟩ := hvaryings r hr
  exact ⟨i, rfl, hbefore.varyings.trans hlow, hhigh⟩

/-! ### The texture code -/

variable {source target : Register} {sourceName targetName : String} {q : Program}

/-- Texture code that was not written before is written. -/
theorem leads_uvCode (hactive : c.isActive = true) (hphase : c.phase ≠ .done)
    (huv : c.uv = none) : Leads (s.uvCode sourceName targetName) c q c' ↔
      Leads (s.writeUvCode sourceName targetName) c q c' := by
  have hwritten : c.writtenUvCode sourceName targetName = .ok none := by
    unfold writtenUvCode
    rw [huv]
    rfl
  have hrefuses : ¬ ((!c.isActive || decide (c.phase = .done)) = true) := by simp [hactive, hphase]
  unfold uvCode
  rw [leads_get_bind]
  simp only [hrefuses, hwritten]
  exact leads_orAbandon

/-- Texture code is a copy, around the code of the nodes if some node animates it. -/
theorem leads_writeUvCode (hsource : Register.ofName sourceName = .ok source)
    (htarget : Register.ofName targetName = .ok target) (hshared : c.shared? = .ok shared) :
    Leads (s.writeUvCode sourceName targetName) c q c' ↔
      if c.features.uvNode then
        ∃ nodes c₁, Leads (gather Node.uvCode s.nodes)
          { c with uv := some ⟨source, shared.displacement, target⟩ } nodes c₁ ∧
          q = Statement.mov shared.displacement.xy source :: nodes ++
            [Statement.mov target shared.displacement.xy] ∧
          c' = { c₁ with uvCode := some q }
      else q = [Statement.mov target source] ∧ c' = c := by
  unfold writeUvCode
  rw [leads_has_bind]
  split
  · simp only [leads_bind, leads_setUv, leads_pure, storeUvCode, leads_modify, hshared, hsource,
      htarget]
    constructor
    · rintro ⟨_, _, ⟨_, _, _, ⟨⟩, ⟨⟩, ⟨⟩, rfl, rfl⟩, nodes, c₁, hnodes, _, _, rfl, rfl, rfl⟩
      exact ⟨nodes, c₁, hnodes, rfl, rfl⟩
    · rintro ⟨nodes, c₁, hnodes, rfl, rfl⟩
      exact ⟨_, _, ⟨_, _, _, rfl, rfl, rfl, rfl, rfl⟩, nodes, c₁, hnodes, ⟨⟩, _, rfl, rfl, rfl⟩
  · simp [hsource, htarget, and_comm, eq_comm]

theorem grows_gather {nodes : List (Node α)} (hcatalogue : ∀ n ∈ nodes, n.behavior.IsCatalogue)
    (hcode : Leads (gather Node.uvCode nodes) c p c') : ∃ d, c.Grows c' d := by
  induction nodes generalizing c p with
  | nil =>
    obtain ⟨-, rfl⟩ := leads_result.mp hcode
    exact ⟨_, .refl c'⟩
  | cons n nodes ih =>
    obtain ⟨hn, hnodes⟩ := List.forall_mem_cons.mp hcatalogue
    simp only [gather, leads_bind, leads_pure] at hcode
    obtain ⟨first, c₁, hfirst, others, c₂, hothers, -, rfl⟩ := hcode
    obtain ⟨_, hgrows⟩ := grows_uvCode hn hfirst
    obtain ⟨_, hgrows'⟩ := ih hnodes hothers
    exact ⟨_, hgrows.trans hgrows'⟩

theorem runs_gatherUv {nodes : List (Node α)} {uv : UvRegisters}
    (hcatalogue : ∀ n ∈ nodes, n.behavior.IsCatalogue)
    (hcode : Leads (gather Node.uvCode nodes) c p c') (hserves : R.Serves c c')
    (hstands : c.Stands R W shared) (htimed : nodes ≠ [] → shared.Timed W) (huv : c.uv = some uv)
    (hworking : uv.working = shared.displacement) : R.Runs W p := by
  induction nodes generalizing c p W with
  | nil =>
    obtain ⟨rfl, -⟩ := leads_result.mp hcode
    trivial
  | cons n nodes ih =>
    obtain ⟨hn, hnodes⟩ := List.forall_mem_cons.mp hcatalogue
    simp only [gather, leads_bind, leads_pure] at hcode
    obtain ⟨first, c₁, hfirst, others, c₂, hothers, rfl, rfl⟩ := hcode
    have htimed := htimed (List.cons_ne_nil n nodes)
    have hle := Written.le_run W first
    obtain ⟨_, hgrows⟩ := grows_uvCode hn hfirst
    obtain ⟨_, hgrows'⟩ := grows_gather hnodes hothers
    rw [Rights.runs_append]
    constructor
    · exact runs_uvCode hn hfirst (hserves.between (.refl c) hgrows'.extends) hstands htimed huv
        hworking
    · exact ih hnodes hothers (hserves.between hgrows.extends (.refl c₂)) (hstands.grows hgrows hle)
        (fun _ => htimed.mono hle) (hgrows.extends.uv.trans huv)

/-- The texture code may run where the vertex program ends: it works on the displacement,
of which it needs two components. -/
theorem runs_writeUvCode (hcatalogue : ∀ n ∈ s.nodes, n.behavior.IsCatalogue)
    (hsource : Register.ofName sourceName = .ok source)
    (htarget : Register.ofName targetName = .ok target)
    (hcode : Leads (s.writeUvCode sourceName targetName) c q c') (hserves : R.Serves c c')
    (hstands : c.Stands R W shared) (htimed : s.nodes ≠ [] → shared.Timed W)
    (hgiven : R.Given source) (hwritable : R.writable target.operand) : R.Runs W q := by
  rw [leads_writeUvCode hsource htarget hstands.shared] at hcode
  split at hcode
  · obtain ⟨nodes, c₁, hnodes, rfl, rfl⟩ := hcode
    have hle := Written.le_after W shared.displacement.xy
    have hstarted := hstands.started.mono hle
    have hruns := runs_gatherUv (W := W.after shared.displacement.xy) hcatalogue hnodes
      ⟨hserves.constants, hserves.bindings, hserves.temporaries⟩
      ⟨hstands.shared, hstands.placed, hstarted, hstands.color.mono hle⟩
      (fun hne => (htimed hne).mono hle) rfl rfl
    have hstarted' := hstarted.mono (Written.le_run _ nodes)
    rw [Rights.runs_append]
    refine ⟨Rights.runs_unary.mpr ⟨hgiven.operand, ?_, hruns⟩,
      Rights.runs_unary.mpr ⟨?_, hwritable, trivial⟩⟩
    · obtain ⟨working, hdisplacement, hplace⟩ := hstands.placed.displacement
      rw [hdisplacement]
      exact hplace _
    · show R.Reads ((W.after shared.displacement.xy).run nodes) shared.displacement.xy
      generalize (W.after shared.displacement.xy).run nodes = W' at hstarted'
      obtain ⟨working, hdisplacement, -, hwritten⟩ :=
        hstands.placed.exists_displacement hstarted'
      simp [hdisplacement, hwritten]
  · obtain ⟨rfl, -⟩ := hcode
    exact Rights.runs_unary.mpr ⟨hgiven.operand, hwritable, trivial⟩

/-- Texture code only takes registers. -/
theorem extends_writeUvCode (hcatalogue : ∀ n ∈ s.nodes, n.behavior.IsCatalogue)
    (hsource : Register.ofName sourceName = .ok source)
    (htarget : Register.ofName targetName = .ok target) (hshared : c.shared? = .ok shared)
    (hcode : Leads (s.writeUvCode sourceName targetName) c q c') :
    ({ c with uv := c'.uv } : Compilation α).Extends c' ∧ c'.color = c.color := by
  rw [leads_writeUvCode hsource htarget hshared] at hcode
  split at hcode
  · obtain ⟨nodes, c₁, hnodes, rfl, rfl⟩ := hcode
    obtain ⟨_, hgrows⟩ := grows_gather hcatalogue hnodes
    obtain ⟨hconstants, hvaryings, hbindings, hfree, huv⟩ := hgrows.extends
    exact ⟨⟨hconstants, hvaryings, hbindings, hfree, rfl⟩, hgrows.color⟩
  · obtain ⟨-, rfl⟩ := hcode
    exact ⟨.refl c', rfl⟩

end NodeSet

/-! ### The whole compilation -/

/-- What code may access in a state of its compilation. It may read the constants behind
those of the pass, the attributes that are copied or bound to streams, and the source of
the texture coordinates; it may write the temporaries of the profile, the varyings of the
color behind those of the pass, and the target of the texture coordinates. -/
def Compilation.rights (c : Compilation α) (pass : Pass) (profile : Profile)
    (sources : List Register) (uv : Option (Register × Register)) : Rights where
  readable kind index :=
    match kind with
    | .vertexConstant => pass.taken.vertexConstants ≤ index ∧ index < c.used.vertexConstants
    | .vertexAttribute =>
      (∃ r ∈ sources, r.kind = .vertexAttribute ∧ r.index = index) ∨
        (∃ b ∈ c.bindings, b.register = index) ∨
        ∃ r ∈ uv, r.1.kind = .vertexAttribute ∧ r.1.index = index
    | _ => False
  writable o :=
    (o.kind = .vertexTemporary ∧ o.index < profile.limits.vertexTemporaries) ∨
      (∃ r ∈ c.color.varyings, r.kind = .varying ∧ pass.taken.varyings ≤ r.index ∧
        r.index < c.used.varyings ∧ o = r.operand) ∨
      ∃ r ∈ uv, o = r.2.operand

theorem SharedRegisters.oriented_ofPlaces (source vertex : Register) (directions : List Register)
    (helper displacement temporary : Nat) (velocity : Bool) :
    (ofPlaces source vertex directions helper displacement temporary velocity).oriented =
      vertex :: directions := by
  cases velocity <;> rfl

theorem SharedRegisters.placed_ofPlaces {R : Rights} {source vertex : Register}
    {directions : List Register} {helper displacement temporary : Nat} (velocity : Bool)
    (horiented : ∀ r ∈ vertex :: directions, ∃ i, r = .temporary i ∧ R.Temporary i)
    (hdisplacement : R.Temporary displacement) (htemporary : R.Temporary temporary)
    (hhelper : R.Given { kind := .vertexConstant, index := helper }) :
    (ofPlaces source vertex directions helper displacement temporary velocity).Placed R := by
  cases velocity with
  | false =>
    exact ⟨horiented, ⟨displacement, rfl, hdisplacement⟩, nofun, ⟨temporary, .x, rfl, htemporary⟩,
      ⟨temporary, .y, rfl, htemporary⟩, hhelper, hhelper, hhelper⟩
  | true =>
    refine ⟨horiented, ⟨displacement, rfl, hdisplacement⟩, ?_, ⟨temporary, .w, rfl, htemporary⟩,
      ⟨displacement, .w, rfl, hdisplacement⟩, hhelper, hhelper, hhelper⟩
    rintro _ ⟨⟩
    exact ⟨temporary, rfl, htemporary⟩

namespace NodeSet

variable {s : NodeSet α} {c c' c₁ : Compilation α} {pass : Pass} {profile : Profile}
  {sources targets : List Register} {sourceNames targetNames : List String}
  {shared : SharedRegisters} {features : Features} {p : Program}

/-- A state in which the registers are shared out between sources and targets. -/
structure Opened (pass : Pass) (profile : Profile) (features : Features)
    (sources targets : List Register) (c : Compilation α) (registers : SharedRegisters) : Prop where
  /-- The registers are shared out. -/
  begun : c.Begun registers .reset features
  /-- No texture code was written yet. -/
  uv : c.uv = none
  /-- No color was animated yet. -/
  color : c.color = {}
  /-- A constant is taken. -/
  constants : c.used.vertexConstants = pass.taken.vertexConstants + 1
  /-- No varying is taken. -/
  varyings : c.used.varyings = pass.taken.varyings
  /-- What is free is there. -/
  free : ∀ i ∈ c.free, i < profile.limits.vertexTemporaries
  /-- With whole temporaries as targets the vertex program finds what it is given. -/
  supplied : ∀ R : Rights, (∀ r ∈ targets, ∃ i, r = .temporary i) →
    (∀ i < profile.limits.vertexTemporaries, R.Temporary i) → (∀ r ∈ sources, R.Given r) →
    R.Given { kind := .vertexConstant, index := pass.taken.vertexConstants } →
    Supplied R c registers

/-- What is free behind the targets lies within the profile. -/
theorem lt_of_mem_free_targets {indices : List Nat} {i : Nat}
    (hi : i ∈ (({ c.restart profile pass features with sources, targets } :
      Compilation α).claimingAll indices).free) : i < profile.limits.vertexTemporaries := by
  rw [free_claimingAll] at hi
  have hrange : i ∈ (c.restart profile pass features).free := (List.mem_filter.mp hi).1
  rwa [free_restart, List.mem_range] at hrange

theorem opened_of_reset {u : Unit}
    (hcode : Leads (reset profile pass features sourceNames targetNames) c u c') :
    ∃ sources targets shared, sourceNames.mapM Register.ofName = .ok sources ∧
      targetNames.mapM Register.ofName = .ok targets ∧
      Opened pass profile features sources targets c' shared := by
  obtain ⟨_, _, hsources, htargets, hshare⟩ := leads_reset.mp hcode
  obtain ⟨source, rest, vertex, directions, shared, c₁, rfl, rfl, hpaired, hclaimable, hshared,
    rfl⟩ := leads_shareRegisters.mp hshare
  obtain ⟨-, displacement, temporary, others, hfree, rfl, rfl⟩ := leads_allocateShared.mp hshared
  have hbound : ∀ i ∈ displacement :: temporary :: others,
      i < profile.limits.vertexTemporaries := by
    rw [← hfree]
    exact fun i => lt_of_mem_free_targets
  have hthere : ∀ r ∈ vertex :: directions, r.kind = .vertexTemporary →
      r.index < profile.limits.vertexTemporaries := by
    intro r hr hkind
    exact Nat.lt_of_lt_of_eq (hclaimable r hr hkind) List.length_replicate
  have hframe := claimingAll_frame ({ c.restart profile pass features with
    sources := source :: rest, targets := vertex :: directions } : Compilation α)
    (Register.temporaryIndices (vertex :: directions))
  generalize Compilation.claimingAll _ _ = c₂ at *
  obtain ⟨hused, hfeatures, huv, hcolor, hcopied, hclaimed⟩ : c₂.used = pass.taken ∧
      c₂.features = features ∧ c₂.uv = none ∧ c₂.color = {} ∧ c₂.sources = source :: rest ∧
      c₂.targets = vertex :: directions := by
    rw [hframe]
    exact ⟨rfl, rfl, rfl, rfl, rfl, rfl⟩
  have hothers := free_claiming_head (free_claiming_head hfree)
  simp only [List.forall_mem_cons] at hbound
  obtain ⟨hdisplacement, htemporary, hbound⟩ := hbound
  refine ⟨_, _, _, hsources, htargets, ⟨rfl, rfl, hfeatures, ?_⟩, huv, hcolor,
    congrArg (·.vertexConstants + 1) hused, congrArg (·.varyings) hused,
    fun i hi => hbound i (hothers ▸ hi),
    fun R hwhole hplace hgiven hhelper => ⟨?_, ?_, ?_, ?_, hcolor⟩⟩
  · rw [SharedRegisters.isSome_velocity_ofPlaces, hfeatures]
  · refine SharedRegisters.placed_ofPlaces _ (fun r hr => ?_) (hplace _ hdisplacement)
      (hplace _ htemporary) (hused ▸ hhelper)
    obtain ⟨i, rfl⟩ := hwhole r hr
    exact ⟨i, rfl, hplace i (hthere _ hr rfl)⟩
  · exact hcopied ▸ hgiven
  · exact hclaimed.trans (SharedRegisters.oriented_ofPlaces ..).symm
  · show c₂.sources.length = c₂.targets.length
    rw [hcopied, hclaimed, hpaired]

section

variable {uv : Option (Register × Register)}

theorem serves_rights {c₂ : Compilation α}
    (hfree : ∀ i ∈ c.free, i < profile.limits.vertexTemporaries)
    (hlow : pass.taken.vertexConstants ≤ c.used.vertexConstants)
    (hhigh : c₂.used.vertexConstants ≤ c'.used.vertexConstants)
    (hbindings : ∀ b ∈ c₂.bindings, b ∈ c'.bindings) :
    (c'.rights pass profile sources uv).Serves c c₂ :=
  ⟨fun _ hi hi' => ⟨hlow.trans hi, Nat.lt_of_lt_of_le hi' hhigh⟩,
    fun b hb => .inr (.inl ⟨b, hbindings b hb, rfl⟩), fun i hi _ => .inl ⟨rfl, hfree i hi⟩⟩

theorem given_attribute {r : Register} {R : Rights} (hkind : r.kind = .vertexAttribute)
    (h : R.readable .vertexAttribute r.index) : R.Given r :=
  Rights.given_of_readable (by rw [hkind]; exact Register.Kind.noConfusion) (hkind ▸ h)

variable [Scalar α] {q : Program} {c₂ : Compilation α} {uvSourceName uvTargetName : String}

/-- Vertex code is a beginning and the vertex program. -/
theorem Built.of_vertexCode (h : s.Built)
    (hcode : Leads (s.vertexCode pass profile sourceNames targetNames) c p c₁) :
    ∃ sources targets shared c₀, sourceNames.mapM Register.ofName = .ok sources ∧
      targetNames.mapM Register.ofName = .ok targets ∧
      Opened pass profile (s.featuresFor pass) sources targets c₀ shared ∧
      Leads s.vertexFragments c₀ p c₁ := by
  have hfeatures : s.settings.features ∪ pass.features = s.featuresFor pass := by
    rw [h.features_eq_raised, featuresFor]
  obtain ⟨_, c₀, hreset, hfragments⟩ := leads_bind.mp (leads_orAbandon.mp hcode)
  rw [hfeatures] at hreset
  obtain ⟨sources, targets, shared, hsources, htargets, hopened⟩ := opened_of_reset hreset
  exact ⟨sources, targets, shared, c₀, hsources, htargets, hopened, hfragments⟩

/-- Behind vertex code the texture code is written anew. -/
theorem Built.leads_uvCode_iff (h : s.Built)
    (hcode : Leads (s.vertexCode pass profile sourceNames targetNames) c p c₁) :
    (∃ shared, c₁.Begun shared .colorCombine (s.featuresFor pass)) ∧
      (Leads (s.uvCode uvSourceName uvTargetName) c₁ q c₂ ↔
        Leads (s.writeUvCode uvSourceName uvTargetName) c₁ q c₂) := by
  obtain ⟨_, _, shared, c₀, -, -, hopened, hfragments⟩ := h.of_vertexCode hcode
  obtain ⟨hafter, hbegun, -⟩ := h.extends_vertexFragments (covers_featuresFor s pass)
    hopened.begun hfragments hopened.color
  have hactive : c₁.isActive = true := by
    unfold isActive
    rw [hbegun.phase]
    rfl
  exact ⟨⟨shared, hbegun⟩, leads_uvCode hactive (by rw [hbegun.phase]; nofun)
    (hafter.uv.trans hopened.uv)⟩

/-- Texture code ends in its target, whatever that is. -/
theorem Built.mov_target_mem_uvCode (h : s.Built) {uvSource uvTarget : Register}
    (huvSource : Register.ofName uvSourceName = .ok uvSource)
    (huvTarget : Register.ofName uvTargetName = .ok uvTarget)
    (hvertex : Leads (s.vertexCode pass profile sourceNames targetNames) c p c₁)
    (huv : Leads (s.uvCode uvSourceName uvTargetName) c₁ q c₂) :
    ∃ o : Operand, Statement.mov uvTarget o ∈ q := by
  obtain ⟨⟨shared, hbegun⟩, hwritten⟩ := h.leads_uvCode_iff hvertex
  rw [hwritten, leads_writeUvCode huvSource huvTarget (hbegun.shared? rfl)] at huv
  split at huv
  · obtain ⟨nodes, c', -, rfl, -⟩ := huv
    exact ⟨_, List.mem_append_right _ List.mem_cons_self⟩
  · obtain ⟨rfl, -⟩ := huv
    exact ⟨_, List.mem_cons_self⟩

variable (uv)

/-- The vertex code may run with the rights of the state that it leads to, or of a later
one, and texture code finds there what it works on. -/
theorem Built.runs_vertexCode (h : s.Built)
    (hsources : sourceNames.mapM Register.ofName = .ok sources)
    (htargets : targetNames.mapM Register.ofName = .ok targets)
    (hattributes : ∀ r ∈ sources, r.kind = .vertexAttribute)
    (hwhole : ∀ r ∈ targets, ∃ i, r = .temporary i)
    (hcode : Leads (s.vertexCode pass profile sourceNames targetNames) c p c₁)
    (hlater : ({ c₁ with uv := c'.uv } : Compilation α).Extends c')
    (hcolor : c'.color = c₁.color) :
    (c'.rights pass profile sources uv).Runs (fun _ _ => False) p ∧
      (c'.rights pass profile sources uv).Serves c₁ c' ∧
      ∃ shared,
        c₁.Stands (c'.rights pass profile sources uv) (Written.run (fun _ _ => False) p) shared ∧
        (s.nodes ≠ [] → shared.Timed (Written.run (fun _ _ => False) p)) := by
  obtain ⟨_, _, shared, c₀, hsources', htargets', hopened, hfragments⟩ := h.of_vertexCode hcode
  obtain rfl := Except.ok.inj (hsources.symm.trans hsources')
  obtain rfl := Except.ok.inj (htargets.symm.trans htargets')
  have hcovers := covers_featuresFor s pass
  obtain ⟨hafter, hbegun, hvaryings⟩ :=
    h.extends_vertexFragments hcovers hopened.begun hfragments hopened.color
  have hhelper : pass.taken.vertexConstants < c₁.used.vertexConstants :=
    Nat.lt_of_lt_of_le (Nat.lt_of_lt_of_eq (Nat.lt_succ_self _) hopened.constants.symm)
      hafter.constants
  have hserves : (c'.rights pass profile sources uv).Serves c₀ c₁ :=
    serves_rights hopened.free (hopened.constants ▸ Nat.le_succ _) hlater.constants hlater.bindings
  have hserves' : (c'.rights pass profile sources uv).Serves c₁ c' :=
    serves_rights (fun i hi => hopened.free i (hafter.free i hi)) hhelper.le (Nat.le_refl _)
      fun _ hb => hb
  have hsupplied := hopened.supplied (c'.rights pass profile sources uv) hwhole
    (fun i hi _ => .inl ⟨rfl, hi⟩)
    (fun r hr => given_attribute (hattributes r hr) (.inl ⟨r, hr, hattributes r hr, rfl⟩))
    (Rights.given_of_readable Register.Kind.noConfusion
      ⟨Nat.le_refl _, Nat.lt_of_lt_of_le hhelper hlater.constants⟩)
  have hwritable : ∀ r ∈ c₁.color.varyings,
      (c'.rights pass profile sources uv).writable r.operand := by
    intro r hr
    have hr' : r ∈ c'.color.varyings := hcolor ▸ hr
    obtain ⟨i, rfl, hlow, hhigh⟩ := hvaryings r hr
    exact .inr (.inl ⟨_, hr', rfl, hopened.varyings ▸ hlow,
      Nat.lt_of_lt_of_le hhigh hlater.varyings, rfl⟩)
  obtain ⟨hruns, hstands, htimed⟩ := h.runs_vertexFragments hcovers hopened.begun hfragments
    hserves hsupplied hwritable
  exact ⟨hruns, hserves', shared, hstands, htimed⟩

/-- **Well-formed programs**: what a built set emits, from attributes to whole temporaries,
is well formed. So is the vertex code alone, within its own rights. The texture code needs
an attribute as its source only if it is to be well formed itself: in a set in which no
node animates the texture it copies whatever is asked for. -/
theorem Built.wellFormed_code (h : s.Built) {uvSource uvTarget : Register}
    (hsources : sourceNames.mapM Register.ofName = .ok sources)
    (htargets : targetNames.mapM Register.ofName = .ok targets)
    (hattributes : ∀ r ∈ sources, r.kind = .vertexAttribute)
    (hwhole : ∀ r ∈ targets, ∃ i, r = .temporary i)
    (huvSource : Register.ofName uvSourceName = .ok uvSource)
    (huvTarget : Register.ofName uvTargetName = .ok uvTarget)
    (hvertex : Leads (s.vertexCode pass profile sourceNames targetNames) c p c₁)
    (huv : Leads (s.uvCode uvSourceName uvTargetName) c₁ q c₂) :
    p.WellFormed (c₁.rights pass profile sources none) ∧
      (uvSource.kind = .vertexAttribute →
        (p ++ q).WellFormed (c₂.rights pass profile sources (some (uvSource, uvTarget)))) ∧
      ((∀ n ∈ s.nodes, n.behavior.raised.uvNode = false) →
        q = [Statement.mov uvTarget uvSource]) := by
  obtain ⟨⟨shared, hbegun⟩, hwritten⟩ := h.leads_uvCode_iff hvertex
  have hshared := hbegun.shared? rfl
  rw [hwritten] at huv
  refine ⟨?_, fun hattribute => ?_, fun hnodes => ?_⟩
  · obtain ⟨hruns, -⟩ := h.runs_vertexCode none hsources htargets hattributes hwhole hvertex
      (.refl c₁) rfl
    exact hruns.wellFormed
  · obtain ⟨hlater, hcolor⟩ := extends_writeUvCode h.isCatalogue huvSource huvTarget hshared huv
    obtain ⟨hruns, hserves, _, hstands, htimed⟩ :=
      h.runs_vertexCode (some (uvSource, uvTarget)) hsources htargets hattributes hwhole hvertex
        hlater hcolor
    have hgiven : (c₂.rights pass profile sources (some (uvSource, uvTarget))).Given uvSource :=
      given_attribute hattribute (.inr (.inr ⟨_, rfl, hattribute, rfl⟩))
    have hruns' := runs_writeUvCode h.isCatalogue huvSource huvTarget huv hserves hstands htimed
      hgiven (.inr (.inr ⟨_, rfl, rfl⟩))
    exact (Rights.runs_append.mpr ⟨hruns, hruns'⟩).wellFormed
  · have hnone : s.raised.uvNode = false := by
      rw [raised_eq_any s (·.uvNode) rfl fun _ _ => rfl]
      exact List.any_eq_false.mpr fun n hn => by simp [hnodes n hn]
    have hoff : ¬ c₁.features.uvNode = true := by
      rw [hbegun.features]
      show ¬ (s.raised.uvNode || false) = true
      rw [hnone]
      exact Bool.false_ne_true
    rw [leads_writeUvCode huvSource huvTarget hshared, if_neg hoff] at huv
    exact huv.1

end

/-- Particles whose texture scrolls. -/
def scrolled : NodeSet Rat where
  settings := { features := { uvNode := true } }
  nodes :=
    [{ behavior := .time {}, id := 0 },
     { behavior := .uv .u (.perParticle .baked), id := 1, offset := 4 }]
  stride := 6

theorem built_scrolled : scrolled.Built :=
  .add (b := .uv .u (.perParticle .baked)) (.empty {}) (by exact trivial) rfl

/-- A pass that uses two attributes and animates the texture. -/
def scrollingPass : Pass where
  taken := { vertexAttributes := 2 }
  uvAnimation := true

theorem exists_scrolled_code {t : String} (h : succeeds (do
      let _ ← scrolled.vertexCode scrollingPass .baseline ["va0"] ["vt0"]
      scrolled.uvCode "va1" t) { profile := .standard } = true) : ∃ p c₁ q c₂,
    Leads (scrolled.vertexCode scrollingPass .baseline ["va0"] ["vt0"]) { profile := .standard }
      p c₁ ∧ Leads (scrolled.uvCode "va1" t) c₁ q c₂ := by
  obtain ⟨q, c₂, hcode⟩ := exists_leads h
  obtain ⟨p, c₁, hvertex, huv⟩ := leads_bind.mp hcode
  exact ⟨p, c₁, q, c₂, hvertex, huv⟩

/-- A scroll from an attribute to a varying is well formed. -/
theorem scrolled_wellFormed : ∃ p c₁ q c₂,
    Leads (scrolled.vertexCode scrollingPass .baseline ["va0"] ["vt0"]) { profile := .standard }
      p c₁ ∧
    Leads (scrolled.uvCode "va1" "v0") c₁ q c₂ ∧
    (p ++ q).WellFormed (c₂.rights scrollingPass .baseline
      [{ kind := .vertexAttribute, index := 0 }]
      (some ({ kind := .vertexAttribute, index := 1 }, { kind := .varying, index := 0 }))) := by
  have hsources : ["va0"].mapM Register.ofName = .ok [{ kind := .vertexAttribute, index := 0 }] :=
    rfl
  have htargets : ["vt0"].mapM Register.ofName = .ok [Register.temporary 0] := rfl
  have huvSource : Register.ofName "va1" = .ok { kind := .vertexAttribute, index := 1 } := rfl
  have huvTarget : Register.ofName "v0" = .ok { kind := .varying, index := 0 } := rfl
  obtain ⟨p, c₁, q, c₂, hvertex, huv⟩ := exists_scrolled_code (t := "v0") (by decide +kernel)
  refine ⟨p, c₁, q, c₂, hvertex, huv, (built_scrolled.wellFormed_code hsources htargets ?_ ?_
    huvSource huvTarget hvertex huv).2.1 rfl⟩
  · exact List.forall_mem_singleton.mpr rfl
  · exact List.forall_mem_singleton.mpr ⟨0, rfl⟩

/-- Texture code goes where it is sent. A scroll may end in a constant, and where no node
animates the texture a temporary may be copied that was never written. -/
theorem uvCode_unconfined :
    (scrolled.Built ∧ ∃ p c₁ q c₂,
      Leads (scrolled.vertexCode scrollingPass .baseline ["va0"] ["vt0"]) { profile := .standard }
        p c₁ ∧
      Leads (scrolled.uvCode "va1" "vc0") c₁ q c₂ ∧
      ∃ i, Statement.instruction i ∈ p ++ q ∧ i.target.kind = .vertexConstant) ∧
    (NodeSet.empty {} : NodeSet Rat).Built ∧ ∃ p c₁ q c₂,
      Leads ((NodeSet.empty {} : NodeSet Rat).vertexCode scrollingPass .baseline ["va0"] ["vt0"])
        { profile := .standard } p c₁ ∧
      Leads ((NodeSet.empty {} : NodeSet Rat).uvCode "vt7" "v0") c₁ q c₂ ∧
      ∀ R, ¬ (p ++ q).WellFormed R := by
  refine ⟨⟨built_scrolled, ?_⟩, .empty {}, ?_⟩
  · obtain ⟨p, c₁, q, c₂, hvertex, huv⟩ := exists_scrolled_code (t := "vc0") (by decide +kernel)
    have huvSource : Register.ofName "va1" = .ok { kind := .vertexAttribute, index := 1 } := rfl
    have huvTarget : Register.ofName "vc0" = .ok { kind := .vertexConstant, index := 0 } := rfl
    obtain ⟨o, ho⟩ := built_scrolled.mov_target_mem_uvCode huvSource huvTarget hvertex huv
    exact ⟨p, c₁, q, c₂, hvertex, huv, _, List.mem_append_right p ho, rfl⟩
  · refine ⟨[.mov ⟨.vertexTemporary, 0, []⟩ ⟨.vertexAttribute, 0, []⟩,
      .mov ⟨.vertexTemporary, 1, [.x, .y, .z]⟩ ⟨.vertexConstant, 0, [.x]⟩,
      .add ⟨.vertexTemporary, 0, [.x, .y, .z]⟩ ⟨.vertexTemporary, 0, [.x, .y, .z]⟩
        ⟨.vertexTemporary, 1, [.x, .y, .z]⟩], _, _, _, rfl, rfl, fun R h => ?_⟩
    obtain ⟨i, hi, -, hreads⟩ := h _
      (.instruction ⟨.mov, ⟨.varying, 0, []⟩, [⟨.vertexTemporary, 7, []⟩]⟩) [] rfl
    cases hi
    obtain ⟨j, hj, hsets⟩ := hreads ⟨.vertexTemporary, 7, []⟩ List.mem_cons_self .x
      List.mem_cons_self
    have hindex := hsets.index
    simp only [Statement.mov, Statement.add, Statement.unary, Statement.binary, List.mem_cons,
      List.not_mem_nil, or_false, Statement.instruction.injEq] at hj
    rcases hj with rfl | rfl | rfl <;> cases hindex

end NodeSet

end ParticleShader
