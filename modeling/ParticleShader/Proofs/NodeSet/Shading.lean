import ParticleShader.Proofs.NodeSet.Following
import ParticleShader.Proofs.NodeSet.Motion
import ParticleShader.Proofs.NodeSet.Palettes

/-!
# What the colors make of a register

A set is compiled for a pass that applies animated color, and its fragment code is asked for at
any time afterwards. Run behind the vertex program, the fragment code multiplies a register by
the product of the factors of all colors and adds the sum of their summands:
**`Built.shading_spec`**. A factor or a summand that no node has is no code. For a pass that does
not apply animated color there is no fragment code, and the colors take nothing at all.

The vertex program copies to whatever registers are named, and the fragment code works on
whatever register is named. So it is said of the names that they are not of registers which
the colors read: neither are the vertex and the directions put into the constants and the
attributes of the colors (`NodeSet.ReadsColor`), nor is the product put where the sum is read.
-/

namespace ParticleShader

open Compile Compilation

variable {α K : Type}

/-! ### The fragment code -/

/-- The code that applies the colors to a register: a product, if there is a multiplier, and a
sum, if there is an offset. -/
def ColorRegisters.combination (color : ColorRegisters) (shaded : Register) : Program :=
  color.multiplierVarying.toList.map (fun (varying : Register) =>
    Statement.mul shaded shaded varying) ++
  color.offsetVarying.toList.map fun (varying : Register) => Statement.add shaded shaded varying

theorem colorCombination_eq_ok {c : Compilation α} {name : String} {q : Program} :
    c.colorCombination name = .ok q ↔
      ∃ shaded, Register.ofName name = .ok shaded ∧ q = c.color.combination shaded := by
  unfold colorCombination
  simp only [Outcome.bind_eq_ok, Outcome.pure_eq_ok]
  exact exists_congr fun shaded => and_congr_right fun _ => eq_comm

/-- Fragment code that is given applies the colors to the register that is named. -/
theorem NodeSet.of_fragmentCode {c : Compilation α} {name : String} {q : Program}
    (h : NodeSet.fragmentCode c name = .ok q) :
    ∃ shaded, Register.ofName name = .ok shaded ∧ q = c.color.combination shaded := by
  unfold NodeSet.fragmentCode at h
  split at h
  · exact colorCombination_eq_ok.mp h
  · exact colorCombination_eq_ok.mp h
  · cases h

/-- A component that a register means is read where it is. -/
theorem Machine.read_of_mem {m : Machine K} {r : Register} {k : Register.Component}
    (h : k ∈ r.operand.components) : m.read r k = m r.kind r.index k := by
  obtain ⟨kind, index, component⟩ := r
  cases component with
  | none => rfl
  | some own =>
    obtain rfl : k = own := List.mem_singleton.mp h
    rfl

/-- **What the fragment code computes**: the register times the carried multiplier and plus the
carried offset, unless the product is put where the offset is. -/
theorem run_combination [Field K] [LinearOrder K] [FloorRing K] {F : Functions K} {m : Machine K}
    {P : Palette} {shaded : Register} {k : Register.Component}
    (hapart : P.multiplier.isSome = true → ∀ place ∈ P.offset,
      ¬ (shaded.kind = .varying ∧ shaded.index = place.2))
    (hk : k ∈ shaded.operand.components) :
    (P.registers.combination shaded).run F m shaded.kind shaded.index k =
      m shaded.kind shaded.index k * (P.multiplier.elim 1 fun place => m .varying place.2 k) +
        P.offset.elim 0 fun place => m .varying place.2 k := by
  have hread : ∀ m : Machine K, m shaded.kind shaded.index (Operand.lane shaded.operand.selection k)
      = m shaded.kind shaded.index k := fun m => Machine.read_of_mem hk
  obtain ⟨clocks, multiplier, offset⟩ := P
  cases multiplier with
  | none =>
    cases offset <;> simp [ColorRegisters.combination, Palette.registers, hk, hread]
  | some place =>
    cases offset with
    | none => simp [ColorRegisters.combination, Palette.registers, hk, hread]
    | some other =>
      have hne := hapart rfl other rfl
      simp [ColorRegisters.combination, Palette.registers, hk, hread]
      exact fun hkind hindex => absurd ⟨hkind.symm, hindex.symm⟩ hne

/-! ### What the colors come to -/

namespace Behavior

/-- A color that has a part. -/
def colors (b : Behavior α) : Bool := b.multiplies || b.offsets

theorem colorMultiplier_raised (b : Behavior α) : b.raised.colorMultiplier = b.multiplies := by
  cases b <;> rfl

theorem colorOffset_raised (b : Behavior α) : b.raised.colorOffset = b.offsets := by
  cases b <;> rfl

theorem colors_of_multiplies {b : Behavior α} (h : b.multiplies = true) : b.colors = true := by
  rw [colors, h, Bool.true_or]

theorem colors_of_offsets {b : Behavior α} (h : b.offsets = true) : b.colors = true := by
  rw [colors, h, Bool.or_true]

theorem exists_of_colors {b : Behavior α} (h : b.colors = true) :
    ∃ animation, b = .color animation := by
  cases b with
  | color animation => exact ⟨animation, rfl⟩
  | _ => exact absurd h Bool.false_ne_true

section

variable [Field K] {F : Functions K} {rows rows' : Nat → Value K} {time life : K} {b : Behavior α}

/-- The color of a moment depends on the rows of its part and of its cycle. -/
theorem tone_congr {startSlot deltaSlot : Nat} (hstart : rows startSlot = rows' startSlot)
    (hdelta : rows deltaSlot = rows' deltaSlot)
    (hcycle : ∀ animation, b = .color animation → animation.cycle.isSome = true →
      rows Slot.cycle = rows' Slot.cycle) :
    b.tone F rows time life startSlot deltaSlot = b.tone F rows' time life startSlot deltaSlot := by
  have hratio : b.ratio F rows time life = b.ratio F rows' time life := by
    cases b with
    | color animation =>
      obtain ⟨usesMultiplier, usesOffset, cycle, colors⟩ := animation
      cases cycle with
      | none => rfl
      | some cycle =>
        unfold ratio
        rw [hcycle _ rfl rfl]
    | _ => rfl
  unfold tone
  rw [hstart, hdelta, hratio]

end

/-- The parameters that the tones of a color depend on are needed. -/
theorem exists_need_of_multiplies {b : Behavior α} {f : Features}
    (hanimation : f.fragmentAnimation = true) (h : b.multiplies = true) :
    (∃ need ∈ b.vertexNeeds f, need.slot = Slot.startMultiplier) ∧
      ∃ need ∈ b.vertexNeeds f, need.slot = Slot.deltaMultiplier := by
  obtain ⟨animation, rfl⟩ := exists_of_colors (colors_of_multiplies h)
  have huses : animation.usesMultiplier = true := h
  refine ⟨⟨.parameter animation.colors.mode Slot.startMultiplier 0 4, ?_,
    Need.slot_parameter ..⟩, .parameter animation.colors.mode Slot.deltaMultiplier 4 4, ?_,
    Need.slot_parameter ..⟩ <;> simp [vertexNeeds, hanimation, colorNeeds, partNeeds, huses]

theorem exists_need_of_offsets {b : Behavior α} {f : Features}
    (hanimation : f.fragmentAnimation = true) (h : b.offsets = true) :
    (∃ need ∈ b.vertexNeeds f, need.slot = Slot.startOffset) ∧
      ∃ need ∈ b.vertexNeeds f, need.slot = Slot.deltaOffset := by
  obtain ⟨animation, rfl⟩ := exists_of_colors (colors_of_offsets h)
  have huses : animation.usesOffset = true := h
  let start := if animation.usesMultiplier then 8 else 0
  refine ⟨⟨.parameter animation.colors.mode Slot.startOffset start 4, ?_,
    Need.slot_parameter ..⟩, .parameter animation.colors.mode Slot.deltaOffset (start + 4) 4, ?_,
    Need.slot_parameter ..⟩ <;> simp [vertexNeeds, hanimation, colorNeeds, partNeeds, huses, start]

theorem exists_need_of_cycle {animation : ColorAnimation α} {f : Features}
    (hanimation : f.fragmentAnimation = true) (h : animation.cycle.isSome = true) :
    ∃ need ∈ (Behavior.color animation).vertexNeeds f, need.slot = Slot.cycle := by
  refine ⟨.constants Slot.cycle 1, ?_, rfl⟩
  simp [vertexNeeds, hanimation, colorNeeds, h]

end Behavior

/-- Nodes whose color has a part are in the last block. -/
theorem Node.block_of_colors {n : Node α} (h : n.behavior.colors = true) :
    n.info.block = .color := by
  obtain ⟨animation, hbehavior⟩ := Behavior.exists_of_colors h
  show Block.ofPriority n.behavior.priority = .color
  rw [hbehavior]
  rfl

namespace NodeSet

section

variable [Field K]

/-- What the colors of a set multiply by. -/
def multiplierAt (s : NodeSet α) (F : Functions K) (values : Node α → Nat → Value K)
    (time life : K) : Value K :=
  ((s.nodes.filter (·.behavior.multiplies)).map fun n =>
    n.behavior.tone F (values n) time life Slot.startMultiplier Slot.deltaMultiplier).prod

/-- What the colors of a set add. -/
def offsetAt (s : NodeSet α) (F : Functions K) (values : Node α → Nat → Value K)
    (time life : K) : Value K :=
  ((s.nodes.filter (·.behavior.offsets)).map fun n =>
    n.behavior.tone F (values n) time life Slot.startOffset Slot.deltaOffset).sum

variable {s : NodeSet α} {F : Functions K} {values : Node α → Nat → Value K} {time life : K}

/-- Without a color that multiplies, the product is one. -/
theorem multiplierAt_of_any (h : s.nodes.any (·.behavior.multiplies) = false) :
    s.multiplierAt F values time life = 1 := by
  unfold multiplierAt
  rw [List.filter_eq_nil_iff.mpr fun n hn => by simpa using List.any_eq_false.mp h n hn]
  rfl

/-- Without a color that offsets, the sum is zero. -/
theorem offsetAt_of_any (h : s.nodes.any (·.behavior.offsets) = false) :
    s.offsetAt F values time life = 0 := by
  unfold offsetAt
  rw [List.filter_eq_nil_iff.mpr fun n hn => by simpa using List.any_eq_false.mp h n hn]
  rfl

theorem prod_factor (nodes : List (Node α)) :
    (nodes.map fun n => n.behavior.factor F (values n) time life).prod =
      ((nodes.filter (·.behavior.multiplies)).map fun n => n.behavior.tone F (values n) time life
        Slot.startMultiplier Slot.deltaMultiplier).prod := by
  induction nodes with
  | nil => rfl
  | cons n nodes ih =>
    rw [List.map_cons, List.prod_cons, ih, List.filter_cons]
    cases h : n.behavior.multiplies <;> simp [Behavior.factor, h]

theorem sum_summand (nodes : List (Node α)) :
    (nodes.map fun n => n.behavior.summand F (values n) time life).sum =
      ((nodes.filter (·.behavior.offsets)).map fun n => n.behavior.tone F (values n) time life
        Slot.startOffset Slot.deltaOffset).sum := by
  induction nodes with
  | nil => rfl
  | cons n nodes ih =>
    rw [List.map_cons, List.sum_cons, ih, List.filter_cons]
    cases h : n.behavior.offsets <;> simp [Behavior.summand, h]

/-- All nodes whose color has a part are in the block of the colors. -/
theorem filter_color {part : Node α → Bool} (h : ∀ n, part n = true → n.behavior.colors = true) :
    (s.nodes.filter (·.info.block = .color)).filter part = s.nodes.filter part := by
  rw [List.filter_filter]
  refine List.filter_congr fun n _ => ?_
  cases hpart : part n with
  | false => rfl
  | true => simp [Node.block_of_colors (h n hpart)]

theorem prod_color :
    ((s.nodes.filter (·.info.block = .color)).map fun n =>
      n.behavior.factor F (values n) time life).prod = s.multiplierAt F values time life := by
  rw [prod_factor, filter_color fun _ => Behavior.colors_of_multiplies]
  rfl

theorem sum_color :
    ((s.nodes.filter (·.info.block = .color)).map fun n =>
      n.behavior.summand F (values n) time life).sum = s.offsetAt F values time life := by
  rw [sum_summand, filter_color fun _ => Behavior.colors_of_offsets]
  rfl

end

/-! ### What the registers hold -/

/-- A register that the colors of a set read, if there are any: the constant that all nodes
share, or that of a parameter. -/
def ReadsColor (s : NodeSet α) (pass : Pass) (c : Compilation α) (kind : Register.Kind)
    (index : Nat) : Prop :=
  ∃ n ∈ s.nodes, n.behavior.colors = true ∧
    ((kind = .vertexConstant ∧ index = pass.taken.vertexConstants) ∨
      ∃ slot, kind = n.colorKind slot ∧ c.index? n.id slot = some index)

/-- The registers hold what the colors of a set read: null, one and two in the constant behind
those of the pass, and the values of the colors. -/
structure Inked [Field K] (s : NodeSet α) (pass : Pass) (c : Compilation α) (m : Machine K)
    (values : Node α → Nat → Value K) : Prop where
  /-- The constant that all nodes share. -/
  helper : m .vertexConstant pass.taken.vertexConstants = .helper
  /-- A parameter of a color, where its number is remembered. -/
  values : ∀ n ∈ s.nodes, n.behavior.colors = true → ∀ slot index,
    c.index? n.id slot = some index → m (n.colorKind slot) index = values n slot

section

variable {s : NodeSet α} {pass : Pass} {c : Compilation α} {kind : Register.Kind} {index : Nat}
  {p : Program}

theorem ReadsColor.ne_vertexTemporary (h : s.ReadsColor pass c kind index) :
    kind ≠ .vertexTemporary := by
  obtain ⟨n, -, -, ⟨rfl, -⟩ | ⟨slot, rfl, -⟩⟩ := h
  · exact Register.Kind.noConfusion
  · exact n.colorKind_ne slot

variable [Field K] {m : Machine K} {values : Node α → Nat → Value K}

/-- Code that leaves the registers of the colors alone leaves what they hold. -/
theorem Inked.run [LinearOrder K] [FloorRing K] {F : Functions K} (h : s.Inked pass c m values)
    (hcolors : ∃ n ∈ s.nodes, n.behavior.colors = true)
    (hspares : ∀ kind index, s.ReadsColor pass c kind index → p.Spares kind index) :
    s.Inked pass c (p.run F m) values := by
  refine ⟨?_, fun n hn hcolor slot index hindex => ?_⟩
  · obtain ⟨n, hn, hcolor⟩ := hcolors
    rw [Program.run_of_spares (hspares _ _ ⟨n, hn, hcolor, .inl ⟨rfl, rfl⟩⟩), h.helper]
  · rw [Program.run_of_spares (hspares _ _ ⟨n, hn, hcolor, .inr ⟨slot, rfl, hindex⟩⟩),
      h.values n hn hcolor slot index hindex]

variable {f : Features} {time life : K} {F : Functions K}

/-- A parameter that was needed is read where it is remembered. -/
theorem Inked.row (h : s.Inked pass c m values)
    (hledger : c.ledger = (Ledger.opened pass).takeAll (s.vertexNeeds f)) {n : Node α}
    (hn : n ∈ s.nodes) (hcolor : n.behavior.colors = true) {slot : Nat}
    (hneed : ∃ need ∈ n.behavior.vertexNeeds f, need.slot = slot) :
    c.rows m n slot = values n slot := by
  obtain ⟨need, hneed, rfl⟩ := hneed
  obtain ⟨index, hindex⟩ := Ledger.exists_lookup_takeAll (l := .opened pass)
    (mem_vertexNeeds.mpr ⟨hn, hneed⟩)
  rw [← hledger] at hindex
  have hremembered : c.index? n.id need.slot = some index := hindex
  rw [← h.values n hn hcolor need.slot index hremembered]
  unfold rows
  rw [hremembered]
  rfl

/-- The color of a moment is that of the values. -/
theorem Inked.tone_eq (h : s.Inked pass c m values)
    (hledger : c.ledger = (Ledger.opened pass).takeAll (s.vertexNeeds f))
    (hanimation : f.fragmentAnimation = true) {n : Node α} (hn : n ∈ s.nodes)
    (hcolor : n.behavior.colors = true) {startSlot deltaSlot : Nat}
    (hstart : ∃ need ∈ n.behavior.vertexNeeds f, need.slot = startSlot)
    (hdelta : ∃ need ∈ n.behavior.vertexNeeds f, need.slot = deltaSlot) :
    n.behavior.tone F (c.rows m n) time life startSlot deltaSlot =
      n.behavior.tone F (values n) time life startSlot deltaSlot := by
  refine Behavior.tone_congr (h.row hledger hn hcolor hstart) (h.row hledger hn hcolor hdelta)
    fun animation hbehavior hcycle => h.row hledger hn hcolor ?_
  rw [hbehavior]
  exact Behavior.exists_need_of_cycle hanimation hcycle

theorem Inked.multiplierAt_eq (h : s.Inked pass c m values)
    (hledger : c.ledger = (Ledger.opened pass).takeAll (s.vertexNeeds f))
    (hanimation : f.fragmentAnimation = true) :
    s.multiplierAt F (c.rows m) time life = s.multiplierAt F values time life := by
  unfold multiplierAt
  congr 1
  refine List.map_congr_left fun n hn => ?_
  obtain ⟨hn, hmultiplies⟩ := List.mem_filter.mp hn
  obtain ⟨hstart, hdelta⟩ := Behavior.exists_need_of_multiplies hanimation hmultiplies
  exact h.tone_eq hledger hanimation hn (Behavior.colors_of_multiplies hmultiplies) hstart hdelta

theorem Inked.offsetAt_eq (h : s.Inked pass c m values)
    (hledger : c.ledger = (Ledger.opened pass).takeAll (s.vertexNeeds f))
    (hanimation : f.fragmentAnimation = true) :
    s.offsetAt F (c.rows m) time life = s.offsetAt F values time life := by
  unfold offsetAt
  congr 1
  refine List.map_congr_left fun n hn => ?_
  obtain ⟨hn, hoffsets⟩ := List.mem_filter.mp hn
  obtain ⟨hstart, hdelta⟩ := Behavior.exists_need_of_offsets hanimation hoffsets
  exact h.tone_eq hledger hanimation hn (Behavior.colors_of_offsets hoffsets) hstart hdelta

end

/-! ### What the placement leaves alone -/

section

variable {source vertex : Register} {directions : List Register} {velocity : Bool}
  {helper displacement temporary index : Nat} {kind : Register.Kind}

theorem zero_ofPlaces :
    (SharedRegisters.ofPlaces source vertex directions helper displacement temporary
      velocity).zero = ({ kind := .vertexConstant, index := helper } : Register).x := by
  cases velocity <;> rfl

theorem one_ofPlaces :
    (SharedRegisters.ofPlaces source vertex directions helper displacement temporary
      velocity).one = ({ kind := .vertexConstant, index := helper } : Register).y := by
  cases velocity <;> rfl

theorem avoids_ofPlaces (hkind : kind ≠ .vertexTemporary)
    (htargets : ∀ r ∈ vertex :: directions, ¬ (r.kind = kind ∧ r.index = index)) :
    (SharedRegisters.ofPlaces source vertex directions helper displacement temporary
      velocity).Avoids kind index := by
  cases velocity with
  | false => exact ⟨hkind, htargets, rfl, nofun, rfl, rfl⟩
  | true =>
    refine ⟨hkind, htargets, rfl, ?_, rfl, rfl⟩
    rintro _ ⟨⟩
    rfl

end

section

variable {s : NodeSet α} {c c' : Compilation α} {p : Program} {shared : SharedRegisters}
  {kind : Register.Kind} {index : Nat} {f : Features}

/-- Before the colors, the code of nodes writes into the vertex, the directions and temporaries
alone. -/
theorem spares_gather {nodes : List (Node α)} (havoids : shared.Avoids kind index)
    (hcatalogue : ∀ n ∈ nodes, n.behavior.IsCatalogue) (hblock : ∀ n ∈ nodes, n.info.block ≠ .color)
    (hready : ∀ n ∈ nodes, c.Ready n.behavior) (hshared : c.shared? = .ok shared)
    (hcode : Leads (gather Node.vertexCode nodes) c p c') : p.Spares kind index := by
  induction nodes generalizing c p with
  | nil =>
    obtain ⟨rfl, -⟩ := leads_result.mp hcode
    exact Program.spares_nil
  | cons n nodes ih =>
    rw [List.forall_mem_cons] at hcatalogue hblock hready
    obtain ⟨first, c₁, d, others, hfirst, hgrows, hready₁, hothers, -, rfl⟩ :=
      of_gather hcatalogue.1 hcatalogue.2 hready.1 hready.2 hcode
    exact Program.spares_append.mpr
      ⟨Node.spares_vertexCode havoids hcatalogue.1 hblock.1 hfirst hgrows hshared,
        ih hcatalogue.2 hblock.2 hready₁ (hgrows.shared?.trans hshared) hothers⟩

theorem spares_initProgram {sources targets : List Register} (havoids : shared.Avoids kind index)
    (htargets : ∀ r ∈ targets, ¬ (r.kind = kind ∧ r.index = index)) :
    (initProgram shared sources targets).Spares kind index := by
  refine Program.spares_append.mpr ⟨spares_copies htargets, ?_⟩
  cases hvelocity : shared.velocity with
  | none => simp [havoids.displacement, havoids.kind.symm]
  | some velocity =>
    simp [havoids.displacement, havoids.velocity velocity hvelocity, havoids.kind.symm]

variable [Scalar α]

theorem Built.spares_blockCode (h : s.Built) {block : Block} {phase : Phase} (hcovers : Covers f s)
    (hc : c.Begun shared phase f) (hactive : phase.isActive = true) (hne : block ≠ .color)
    (havoids : shared.Avoids kind index) (hcode : Leads (s.blockCode block) c p c') :
    p.Spares kind index :=
  spares_gather havoids (fun n hn => h.isCatalogue n (List.mem_filter.mp hn).1)
    (fun n hn => by
      rw [of_decide_eq_true (List.mem_filter.mp hn).2]
      exact hne)
    (hcovers.ready h.isCatalogue hc hactive fun hcolor => absurd hcolor hne) (hc.shared? hactive)
    hcode

/-- **The placement** writes into the targets and temporaries alone. -/
theorem Built.spares_placeFragments (h : s.Built) (hcovers : Covers f s)
    (hc : c.Begun shared .reset f) (havoids : shared.Avoids kind index)
    (htargets : ∀ r ∈ c.targets, ¬ (r.kind = kind ∧ r.index = index))
    (hcode : Leads s.placeFragments c p c') : p.Spares kind index := by
  obtain ⟨primary, c₁, _, post, _, hprimary, hgrows, hpost, -, rfl⟩ :=
    h.of_placeFragments hcovers hc hcode
  have hbegun := (hc.enter .primary).grows hgrows
  have hvertex := havoids.oriented _ List.mem_cons_self
  have hfirst := h.spares_blockCode hcovers (hc.enter .primary) rfl Block.noConfusion havoids
    hprimary
  have hsecond := h.spares_blockCode hcovers (hbegun.enter .post) rfl Block.noConfusion havoids
    hpost
  simp only [Program.spares_append]
  exact ⟨⟨⟨spares_initProgram havoids htargets, hfirst⟩, by simp [hvertex]⟩, hsecond⟩

end

/-! ### The vertex program and the fragment code -/

section

variable [Scalar α] {s : NodeSet α} {c c' c₁ c₂ : Compilation α} {p q : Program}
  {shared : SharedRegisters} {P : Palette} {f : Features} {pass : Pass} {profile : Profile}
  {sourceNames targetNames : List String} {shadedName : String}

/-- The placement leaves the palette alone. -/
theorem Built.mixes_placeFragments (h : s.Built) (hcovers : Covers f s)
    (hc : c.Begun shared .reset f) (hmixes : c.Mixes shared P)
    (hcode : Leads s.placeFragments c p c') : c'.Mixes shared P := by
  obtain ⟨primary, c₁, _, post, _, -, hgrows, -, hgrows', -⟩ := h.of_placeFragments hcovers hc hcode
  have hfirst := (hmixes.enter hc .primary rfl).grows hgrows
  exact (hfirst.enter ((hc.enter .primary).grows hgrows) .post rfl).grows hgrows'

/-- No node asks for animated color; only the pass does. -/
theorem Built.fragmentAnimation_featuresFor (h : s.Built) (pass : Pass) :
    (s.featuresFor pass).fragmentAnimation = pass.fragmentAnimation := by
  have hraised : s.raised.fragmentAnimation = false := by
    rw [raised_eq_any s (·.fragmentAnimation) rfl fun _ _ => rfl]
    refine List.any_eq_false.mpr fun n hn => ?_
    have hcatalogue := h.isCatalogue n hn
    cases hbehavior : n.behavior
    case custom => simp [hbehavior, Behavior.IsCatalogue] at hcatalogue
    all_goals simp [Behavior.raised]
  show (s.raised.fragmentAnimation || pass.fragmentAnimation) = pass.fragmentAnimation
  rw [hraised, Bool.false_or]

omit [Scalar α] in
theorem colorMultiplier_featuresFor (s : NodeSet α) (pass : Pass) :
    (s.featuresFor pass).colorMultiplier = s.nodes.any (·.behavior.multiplies) := by
  show (s.raised.colorMultiplier || false) = _
  rw [Bool.or_false, raised_eq_any s (·.colorMultiplier) rfl fun _ _ => rfl]
  simp only [Behavior.colorMultiplier_raised]

omit [Scalar α] in
theorem colorOffset_featuresFor (s : NodeSet α) (pass : Pass) :
    (s.featuresFor pass).colorOffset = s.nodes.any (·.behavior.offsets) := by
  show (s.raised.colorOffset || false) = _
  rw [Bool.or_false, raised_eq_any s (·.colorOffset) rfl fun _ _ => rfl]
  simp only [Behavior.colorOffset_raised]

/-- A vertex program is a placement and the code of the colors. It carries what the colors come to
at the time and the life that it keeps, as the registers are that the placement leaves behind; and
the placement writes into the targets and temporaries alone. -/
structure Carrying (s : NodeSet α) (pass : Pass) (c : Compilation α) (P : Palette)
    (registers : SharedRegisters) (targets : List Register) (placed p : Program) : Prop where
  /-- The shared registers. -/
  shared : c.shared = some registers
  /-- The registers of the colors. -/
  color : c.color = P.registers
  /-- There is a multiplier if some color multiplies. -/
  isSome_multiplier : P.multiplier.isSome = s.nodes.any (·.behavior.multiplies)
  /-- There is an offset if some color offsets. -/
  isSome_offset : P.offset.isSome = s.nodes.any (·.behavior.offsets)
  /-- The placement leaves other registers alone. -/
  spares {kind : Register.Kind} {index : Nat} : kind ≠ .vertexTemporary →
    (∀ r ∈ targets, ¬ (r.kind = kind ∧ r.index = index)) → placed.Spares kind index
  /-- The multiplier is carried. -/
  multiplier {K : Type} [Field K] [LinearOrder K] [FloorRing K] (F : Functions K) (m : Machine K) :
    ∀ place ∈ P.multiplier, p.run F m .varying place.2 =
      s.multiplierAt F (c.rows (placed.run F m)) ((p.run F m).read registers.time .x)
        ((p.run F m).read registers.life .x) *
      fun _ => placed.run F m .vertexConstant pass.taken.vertexConstants .y
  /-- The offset is carried. -/
  offset {K : Type} [Field K] [LinearOrder K] [FloorRing K] (F : Functions K) (m : Machine K) :
    ∀ place ∈ P.offset, p.run F m .varying place.2 =
      s.offsetAt F (c.rows (placed.run F m)) ((p.run F m).read registers.time .x)
        ((p.run F m).read registers.life .x) +
      fun _ => placed.run F m .vertexConstant pass.taken.vertexConstants .x

/-- **The vertex program** carries what the colors come to. -/
theorem Built.carries_vertexCode (h : s.Built) (hanimation : pass.fragmentAnimation = true)
    (hcode : Leads (s.vertexCode pass profile sourceNames targetNames) c p c₁) :
    ∃ (targets : List Register) (shared : SharedRegisters) (P : Palette) (placed : Program)
      (c₂ : Compilation α), targetNames.mapM Register.ofName = .ok targets ∧
      Leads (do
        reset profile pass (s.settings.features ∪ pass.features) sourceNames targetNames
        s.placeFragments) c placed c₂ ∧
      s.Carrying pass c₁ P shared targets placed p := by
  have hfeatures : s.settings.features ∪ pass.features = s.featuresFor pass := by
    rw [h.features_eq_raised, featuresFor]
  have hon : (s.featuresFor pass).fragmentAnimation = true :=
    (h.fragmentAnimation_featuresFor pass).trans hanimation
  obtain ⟨_, c₀, hreset, hfragments⟩ := leads_bind.mp (leads_orAbandon.mp hcode)
  rw [hfeatures] at hreset ⊢
  obtain ⟨_, _, shared, -, -, hopened⟩ := opened_of_reset hreset
  obtain ⟨targets, displacement, temporary, source, vertex, directions, htargets, htargeted, rfl,
    hshared, hmixes⟩ := mixes_of_reset hreset
  obtain rfl := Option.some.inj (hopened.begun.shared.symm.trans hshared)
  have hcovers := covers_featuresFor s pass
  have hc := hopened.begun
  simp only [vertexFragments, leads_bind, leads_pure] at hfragments
  obtain ⟨placed, c₂, hplace, colored, c₃, hcolors, rfl, rfl⟩ := hfragments
  obtain ⟨-, hbegun, hsame⟩ := h.extends_placeFragments hcovers hc hplace
  obtain ⟨-, hbegun', -⟩ := h.extends_colorFragments hcovers hbegun hcolors
    (hsame.trans hopened.color)
  obtain ⟨P, hcolor, hmultiplier, hoffset, hcarried⟩ :=
    h.carries_colorFragments hcovers hbegun (h.mixes_placeFragments hcovers hc hmixes hplace)
      one_ofPlaces zero_ofPlaces hon hcolors
  refine ⟨vertex :: directions, _, P, placed, c₂, htargets, leads_bind.mpr ⟨_, c₀, hreset, hplace⟩,
    hbegun'.shared, hcolor, hmultiplier.trans (colorMultiplier_featuresFor s pass),
    hoffset.trans (colorOffset_featuresFor s pass), fun hkind hothers => ?_,
    fun {K} _ _ _ F m place hmem => ?_, fun {K} _ _ _ F m place hmem => ?_⟩
  · exact h.spares_placeFragments hcovers hc (avoids_ofPlaces hkind hothers) (htargeted ▸ hothers)
      hplace
  · obtain ⟨htime, hlife, hcarries⟩ := hcarried F (placed.run F m)
    rw [Program.run_append, htime, hlife, hcarries.multiplier place hmem, prod_color]
  · obtain ⟨htime, hlife, hcarries⟩ := hcarried F (placed.run F m)
    rw [Program.run_append, htime, hlife, hcarries.offset place hmem, sum_color]

/-- The colors of a set have taken nothing. -/
structure Colorless (s : NodeSet α) (pass : Pass) (c : Compilation α) : Prop where
  /-- There is no register of the colors. -/
  registers : c.color = {}
  /-- No varying was taken. -/
  varyings : c.used.varyings = pass.taken.varyings
  /-- No parameter of a color has a constant or an attribute. -/
  indices : ∀ n ∈ s.nodes, n.info.block = .color → ∀ slot, c.index? n.id slot = none
  /-- No stream is that of a color. -/
  streams : ∀ n ∈ s.nodes, n.info.block = .color → ∀ b ∈ c.bindings, b.node ≠ n.id

omit [Scalar α] in
/-- Without animated color, a color needs nothing. -/
theorem vertexNeeds_of_color {n : Node α} (hcatalogue : n.behavior.IsCatalogue)
    (hblock : n.info.block = .color) (hanimation : f.fragmentAnimation = false) :
    n.behavior.vertexNeeds f = [] := by
  obtain ⟨animation, hbehavior⟩ := Node.exists_animation hcatalogue hblock
  simp [hbehavior, Behavior.vertexNeeds, hanimation]

/-- A node that needs nothing has no register and no stream. -/
theorem Built.unknown_of_needless (h : s.Built)
    (hledger : c.ledger = (Ledger.opened pass).takeAll (s.vertexNeeds f)) {n : Node α}
    (hn : n ∈ s.nodes) (hneeds : n.behavior.vertexNeeds f = []) :
    (∀ slot, c.index? n.id slot = none) ∧ ∀ b ∈ c.bindings, b.node ≠ n.id := by
  have hothers : ∀ need ∈ s.vertexNeeds f, need.1.id ≠ n.id := by
    rintro ⟨m, need⟩ hneed hid
    obtain ⟨hm, hneed⟩ := mem_vertexNeeds.mp hneed
    obtain rfl := h.eq_of_id hm hn hid
    rw [hneeds] at hneed
    exact absurd hneed List.not_mem_nil
  refine ⟨fun slot => ?_, fun b hb => ?_⟩
  · show List.lookup (n.id, slot) c.ledger.indices = none
    rw [hledger, Ledger.lookup_takeAll_of_notMem]
    · rfl
    · intro hmem
      obtain ⟨need, hneed, hkey⟩ := List.mem_map.mp hmem
      exact hothers need hneed (congrArg Prod.fst hkey)
  · have hb : b ∈ c.ledger.bindings := hb
    rw [hledger] at hb
    rcases Ledger.mem_bindings_takeAll hb with hold | ⟨m, need, hneed, henters⟩
    · exact absurd hold List.not_mem_nil
    · cases need with
      | constants => exact henters.elim
      | stream =>
        rw [henters.1]
        exact hothers _ hneed

/-- **Without animated color** the vertex program is the placement, and the colors take
nothing. -/
theorem Built.colorless_vertexCode (h : s.Built) (hanimation : pass.fragmentAnimation = false)
    (hcode : Leads (s.vertexCode pass profile sourceNames targetNames) c p c₁) :
    s.Colorless pass c₁ ∧ ∃ c₀ c₂,
      Leads (reset profile pass (s.settings.features ∪ pass.features) sourceNames targetNames)
        c () c₀ ∧
      Leads s.placeFragments c₀ p c₂ ∧ c₁ = { c₂ with phase := .colorCombine } := by
  have hledger := (h.compiled_vertexCode hcode).1.ledger
  have hfeatures : s.settings.features ∪ pass.features = s.featuresFor pass := by
    rw [h.features_eq_raised, featuresFor]
  have hoff : (s.featuresFor pass).fragmentAnimation = false :=
    (h.fragmentAnimation_featuresFor pass).trans hanimation
  have hunknown := fun n hn hblock => h.unknown_of_needless hledger (n := n) hn
    (vertexNeeds_of_color (h.isCatalogue n hn) hblock hoff)
  obtain ⟨⟨⟩, c₀, hreset, hfragments⟩ := leads_bind.mp (leads_orAbandon.mp hcode)
  have hopened := hreset
  rw [hfeatures] at hopened
  obtain ⟨_, _, shared, -, -, hopened⟩ := opened_of_reset hopened
  have hcovers := covers_featuresFor s pass
  have hc := hopened.begun
  simp only [vertexFragments, leads_bind, leads_pure] at hfragments
  obtain ⟨placed, c₂, hplace, colored, c₃, hcolors, rfl, rfl⟩ := hfragments
  obtain ⟨-, hbegun, hsame⟩ := h.extends_placeFragments hcovers hc hplace
  have hnone := hsame.trans hopened.color
  obtain ⟨rfl, rfl⟩ := h.colorFragments_unanimated hcovers hbegun hnone hoff hcolors
  obtain ⟨_, _, _, _, _, hprimary, -, hpost, -, -⟩ := h.of_placeFragments hcovers hc hplace
  obtain ⟨hvaryings, -⟩ := (sameVaryings_blockCode h.isCatalogue hprimary).trans
    (sameVaryings_blockCode h.isCatalogue hpost)
  exact ⟨⟨hnone, hvaryings.trans hopened.varyings, fun n hn hblock => (hunknown n hn hblock).1,
    fun n hn hblock => (hunknown n hn hblock).2⟩, c₀, c₂, hreset, by rwa [List.append_nil], rfl⟩

/-! ### What is shaded -/

/-- The fragment code of a set applies what its colors carry to a register: a product if there
is a color that multiplies, and a sum if there is one that offsets. -/
structure Applies (s : NodeSet α) (c : Compilation α) (shaded : Register) (q : Program) :
    Prop where
  /-- The code. -/
  code : q = c.color.combination shaded
  /-- There is a product if some color multiplies. -/
  multiplier : c.color.multiplierVarying.isSome = s.nodes.any (·.behavior.multiplies)
  /-- There is a sum if some color offsets. -/
  offset : c.color.offsetVarying.isSome = s.nodes.any (·.behavior.offsets)

/-- Names that are not of registers that the colors of a set read: no target is one, and the
product is not put where the sum is read. -/
structure Unread (s : NodeSet α) (pass : Pass) (c : Compilation α) (targets : List Register)
    (shaded : Register) : Prop where
  /-- The targets. -/
  targets : ∀ r ∈ targets, ¬ s.ReadsColor pass c r.kind r.index
  /-- The shaded register. -/
  shaded : c.color.multiplierVarying.isSome = true → c.color.offsetVarying ≠ some shaded.base

/-- On every machine that is loaded with the values of the colors, the fragment code leaves the
register times the product of the multipliers plus the sum of the offsets, at the time and the
life that the vertex program keeps. -/
def Shades (s : NodeSet α) (pass : Pass) (c : Compilation α) (registers : SharedRegisters)
    (p q : Program) (shaded : Register) : Prop :=
  ∀ {K : Type} [Field K] [LinearOrder K] [FloorRing K] (F : Functions K) (m m' : Machine K)
    (values : Node α → Nat → Value K), s.Inked pass c m values →
    m' .varying = p.run F m .varying → ∀ k ∈ shaded.operand.components,
    q.run F m' shaded.kind shaded.index k = m' shaded.kind shaded.index k *
      s.multiplierAt F values ((p.run F m).read registers.time .x)
        ((p.run F m).read registers.life .x) k +
      s.offsetAt F values ((p.run F m).read registers.time .x)
        ((p.run F m).read registers.life .x) k

namespace Carrying

variable {registers : SharedRegisters} {targets : List Register} {placed : Program}

section

variable [Field K] [LinearOrder K] [FloorRing K] {F : Functions K} {m : Machine K}
  {values : Node α → Nat → Value K} {time life : K} {k : Register.Component}

omit [Scalar α] in
/-- The placement leaves what the colors read, if no target is one of these registers. -/
theorem inked (h : s.Carrying pass c P registers targets placed p)
    (hunread : ∀ r ∈ targets, ¬ s.ReadsColor pass c r.kind r.index)
    (hcolors : ∃ n ∈ s.nodes, n.behavior.colors = true) (hinked : s.Inked pass c m values) :
    s.Inked pass c (placed.run F m) values := by
  refine hinked.run hcolors fun kind index hreads => h.spares hreads.ne_vertexTemporary ?_
  rintro r hr ⟨rfl, rfl⟩
  exact hunread r hr hreads

omit [Scalar α] in
/-- What is carried is the product of the multipliers, if there is one at all. -/
theorem elim_multiplier (h : s.Carrying pass c P registers targets placed p)
    (hledger : c.ledger = (Ledger.opened pass).takeAll (s.vertexNeeds f))
    (hanimation : f.fragmentAnimation = true)
    (hunread : ∀ r ∈ targets, ¬ s.ReadsColor pass c r.kind r.index)
    (hinked : s.Inked pass c m values) :
    (P.multiplier.elim 1 fun place => p.run F m .varying place.2 k) =
      s.multiplierAt F values ((p.run F m).read registers.time .x)
        ((p.run F m).read registers.life .x) k := by
  cases hmultiplier : P.multiplier with
  | none =>
    rw [multiplierAt_of_any (by rw [← h.isSome_multiplier, hmultiplier]; rfl)]
    rfl
  | some place =>
    obtain ⟨n, hn, hmultiplies⟩ := List.any_eq_true.mp
      (h.isSome_multiplier.symm.trans (by rw [hmultiplier]; rfl))
    have hplaced := h.inked (F := F) hunread
      ⟨n, hn, Behavior.colors_of_multiplies hmultiplies⟩ hinked
    show p.run F m .varying place.2 k = _
    rw [h.multiplier F m place hmultiplier, hplaced.multiplierAt_eq hledger hanimation,
      hplaced.helper]
    exact mul_one _

omit [Scalar α] in
/-- What is carried is the sum of the offsets, if there is one at all. -/
theorem elim_offset (h : s.Carrying pass c P registers targets placed p)
    (hledger : c.ledger = (Ledger.opened pass).takeAll (s.vertexNeeds f))
    (hanimation : f.fragmentAnimation = true)
    (hunread : ∀ r ∈ targets, ¬ s.ReadsColor pass c r.kind r.index)
    (hinked : s.Inked pass c m values) :
    (P.offset.elim 0 fun place => p.run F m .varying place.2 k) =
      s.offsetAt F values ((p.run F m).read registers.time .x)
        ((p.run F m).read registers.life .x) k := by
  cases hoffset : P.offset with
  | none =>
    rw [offsetAt_of_any (by rw [← h.isSome_offset, hoffset]; rfl)]
    rfl
  | some place =>
    obtain ⟨n, hn, hoffsets⟩ := List.any_eq_true.mp
      (h.isSome_offset.symm.trans (by rw [hoffset]; rfl))
    have hplaced := h.inked (F := F) hunread ⟨n, hn, Behavior.colors_of_offsets hoffsets⟩ hinked
    show p.run F m .varying place.2 k = _
    rw [h.offset F m place hoffset, hplaced.offsetAt_eq hledger hanimation, hplaced.helper]
    exact add_zero _

end

omit [Scalar α] in
/-- **The fragment code behind the vertex program** shades as it should, if no name is of a
register that the colors read. -/
theorem shades {shaded : Register} (h : s.Carrying pass c P registers targets placed p)
    (hledger : c.ledger = (Ledger.opened pass).takeAll (s.vertexNeeds f))
    (hanimation : f.fragmentAnimation = true) (hunread : s.Unread pass c targets shaded) :
    s.Shades pass c registers p (c.color.combination shaded) shaded := by
  intro K _ _ _ F m m' values hinked hvarying k hk
  have hapart : P.multiplier.isSome = true → ∀ place ∈ P.offset,
      ¬ (shaded.kind = .varying ∧ shaded.index = place.2) := by
    intro hsome place hplace hsame
    refine hunread.shaded ?_ ?_ <;> rw [h.color]
    · exact Option.isSome_map.trans hsome
    · rw [base_eq_iff.mpr hsame]
      exact congrArg (Option.map _) hplace
  rw [h.color, run_combination hapart hk, hvarying,
    h.elim_multiplier hledger hanimation hunread.targets hinked,
    h.elim_offset hledger hanimation hunread.targets hinked]

end Carrying

/-- **What is shaded**: let vertex code be written for a built set, and let fragment code be given
for a register at any time afterwards. If the pass applies animated color, the fragment code is a
product and a sum as far as colors have these parts; and if no name is of a register that the
colors read, it leaves the register times the product of the multipliers plus the sum of the
offsets. If the pass does not apply animated color the fragment code is empty, the vertex program
is the placement, and the colors take nothing. -/
theorem Built.shading_spec (h : s.Built)
    (hcode : Leads (s.vertexCode pass profile sourceNames targetNames) c p c₁)
    (hfollows : s.Follows c₁ c₂) (hfragment : fragmentCode c₂ shadedName = .ok q) :
    (pass.fragmentAnimation = true → ∃ targets shaded shared,
      targetNames.mapM Register.ofName = .ok targets ∧ Register.ofName shadedName = .ok shaded ∧
      c₁.shared = some shared ∧ s.Applies c₁ shaded q ∧
      (s.Unread pass c₁ targets shaded → s.Shades pass c₁ shared p q shaded)) ∧
    (pass.fragmentAnimation = false → q = [] ∧ s.Colorless pass c₁ ∧ ∃ c₀ c₂,
      Leads (reset profile pass (s.settings.features ∪ pass.features) sourceNames targetNames)
        c () c₀ ∧
      Leads s.placeFragments c₀ p c₂ ∧ c₁ = { c₂ with phase := .colorCombine }) := by
  obtain ⟨shaded, hshaded, hq⟩ := of_fragmentCode hfragment
  rw [hfollows.color h.modest] at hq
  refine ⟨fun hanimation => ?_, fun hanimation => ?_⟩
  · obtain ⟨targets, shared, P, placed, _, htargets, -, hcarrying⟩ :=
      h.carries_vertexCode hanimation hcode
    have hcolor := hcarrying.color
    refine ⟨targets, shaded, shared, htargets, hshaded, hcarrying.shared, ⟨hq, ?_, ?_⟩,
      fun hunread => ?_⟩
    · rw [hcolor, ← hcarrying.isSome_multiplier]
      exact Option.isSome_map
    · rw [hcolor, ← hcarrying.isSome_offset]
      exact Option.isSome_map
    · rw [hq]
      exact hcarrying.shades (h.compiled_vertexCode hcode).1.ledger
        ((h.fragmentAnimation_featuresFor pass).trans hanimation) hunread
  · obtain ⟨hcolorless, hplaced⟩ := h.colorless_vertexCode hanimation hcode
    refine ⟨?_, hcolorless, hplaced⟩
    rw [hq, hcolorless.registers]
    rfl

end

/-- A color of which both parts swing between two, for all particles. -/
def flicker : Node Rat where
  behavior := .color ⟨true, true, some ⟨2, some 1⟩, .global
    (ColorTransform.identity, ⟨⟨1, 0, 0, 1⟩, ⟨0, 1, 2, 3⟩⟩)⟩
  id := 2

/-- Particles whose color fades, each by its own multiplier, and flickers. -/
def flickering : NodeSet Rat where
  settings := { features := { colorMultiplier := true, colorOffset := true } }
  nodes := [timeNode {}, glow, flicker]
  stride := 12

theorem built_flickering : flickering.Built :=
  .add (b := flicker.behavior) built_glowing (by exact trivial) rfl

/-- Over the real numbers, with their functions, the color fades and flickers. -/
theorem flickering_shades : ∃ p c₁ q shared values, ∃ m : Machine ℝ,
    Leads (flickering.vertexCode (coloredPass 1 0) .baseline ["va0"] ["vt0"])
      { profile := .standard } p c₁ ∧
    fragmentCode c₁ "ft0" = .ok q ∧ c₁.shared = some shared ∧
    flickering.Inked (coloredPass 1 0) c₁ m values ∧
    flickering.Shades (coloredPass 1 0) c₁ shared p q { kind := .fragmentTemporary, index := 0 } ∧
    ∀ t life,
      flickering.multiplierAt ⟨Real.sin, Real.cos, Real.sqrt⟩ values t life .x =
        (4 + 4 * life) * (1 + Real.sin (t + 2)) ∧
      flickering.offsetAt ⟨Real.sin, Real.cos, Real.sqrt⟩ values t life .x =
        1 + Real.sin (t + 2) := by
  have hcode : succeeds (do
      let p ← flickering.vertexCode (coloredPass 1 0) .baseline ["va0"] ["vt0"]
      let c ← get
      let q ← ofOutcome (fragmentCode c "ft0")
      if c.color.offsetVarying = some { kind := .varying, index := 1 } ∧
        ∀ entry ∈ c.indices, entry.2 ≠ 0 then return (p, q) else throw .notCompiled)
      { profile := .standard } = true := by
    decide +kernel
  obtain ⟨_, _, hcode⟩ := exists_leads hcode
  obtain ⟨p, c₁, hvertex, hcode⟩ := leads_bind.mp hcode
  rw [leads_get_bind] at hcode
  obtain ⟨q, _, hfragment, hcode⟩ := leads_bind.mp hcode
  obtain ⟨hq, rfl⟩ := leads_ofOutcome.mp hfragment
  obtain ⟨hvarying, hindices⟩ := holds_of_leads hcode
  obtain ⟨targets, shaded, shared, htargets, hshaded, hshared, -, hshades⟩ :=
    (built_flickering.shading_spec hvertex .refl hq).1 rfl
  cases htargets
  cases hshaded
  -- the constants of the colors hold one, two and three, the attributes twice as much
  obtain ⟨m, hm⟩ : ∃ m : Machine ℝ, m = fun kind index =>
    if kind = .vertexConstant then if index = 0 then .helper else .ofVector ![1, 2, 3]
    else .ofVector ![4, 5, 6] := ⟨_, rfl⟩
  refine ⟨p, c₁, q, shared, fun n slot => m (n.colorKind slot) 1, m, hvertex, hq, hshared,
    ⟨?_, fun n _ _ slot index hindex => ?_⟩, hshades ⟨?_, fun _ => ?_⟩, fun t life => ⟨?_, ?_⟩⟩
  · rw [hm]
    rfl
  · obtain ⟨before, after, hentry, -⟩ := List.lookup_eq_some_iff.mp hindex
    have hne : index ≠ 0 := hindices ((n.id, slot), index) (by simp [hentry])
    rw [hm]
    simp [hne]
  · rintro r hr hreads
    obtain rfl := List.mem_singleton.mp hr
    exact hreads.ne_vertexTemporary rfl
  · rw [hvarying]
    decide
  · simp [multiplierAt, flickering, glow, flicker, timeNode, hm, Behavior.multiplies,
      Behavior.tone, Behavior.ratio, Value.along, Node.colorKind, Node.parameterKind,
      Behavior.mode, Parameter.mode, Slot.startMultiplier, Slot.deltaMultiplier, Slot.cycle,
      Value.ofVector]
  · simp [offsetAt, flickering, glow, flicker, timeNode, hm, Behavior.offsets,
      Behavior.tone, Behavior.ratio, Value.along, Node.colorKind, Node.parameterKind,
      Behavior.mode, Parameter.mode, Slot.startOffset, Slot.deltaOffset, Slot.cycle,
      Value.ofVector]

/-- A color of which both parts are two from the start to the end, for all particles. -/
def steady : Node Rat where
  behavior := .color ⟨true, true, none, .global
    (⟨⟨2, 2, 2, 2⟩, ⟨2, 2, 2, 2⟩⟩, ⟨⟨2, 2, 2, 2⟩, ⟨2, 2, 2, 2⟩⟩)⟩
  id := 1

/-- Particles that keep their color. -/
def steadied : NodeSet Rat where
  settings := { features := { colorMultiplier := true, colorOffset := true } }
  nodes := [timeNode {}, steady]
  stride := 4

theorem built_steadied : steadied.Built :=
  .add (b := steady.behavior) (.empty {}) (by exact trivial) rfl

section

variable {F : Functions Rat} {values : Node Rat → Nat → Value Rat} {time life : Rat}
  {k : Register.Component}

theorem multiplierAt_steadied : steadied.multiplierAt F values time life k =
    values steady Slot.startMultiplier k + values steady Slot.deltaMultiplier k * life := by
  simp [multiplierAt, steadied, steady, timeNode, Behavior.multiplies, Behavior.tone,
    Behavior.ratio, Value.along]

theorem offsetAt_steadied : steadied.offsetAt F values time life k =
    values steady Slot.startOffset k + values steady Slot.deltaOffset k * life := by
  simp [offsetAt, steadied, steady, timeNode, Behavior.offsets, Behavior.tone, Behavior.ratio,
    Value.along]

end

/-- The values of that color: it begins with two and does not change. -/
def steadyValues : Node Rat → Nat → Value Rat :=
  fun _ slot => if slot % 2 = 0 then fun _ => 2 else 0

/-- A machine that is loaded with them, and with three in its attributes. -/
def steadyMachine : Machine Rat := fun kind index =>
  if kind = .vertexConstant then if index = 0 then .helper else steadyValues steady index
  else fun _ => 3

/-- Functions that the programs of that color do not call. -/
def noFunctions : Functions Rat := ⟨id, id, id⟩

/-- The registers of that color: constants behind those of the helper and the time, a varying for
the multiplier and one for the offset. -/
def Steadies (c : Compilation Rat) : Prop :=
  c.indices = [((1, 3), 5), ((1, 2), 4), ((1, 1), 3), ((1, 0), 2), ((0, 1), 1), ((0, 0), 0)] ∧
    c.color.multiplierVarying = some { kind := .varying, index := 0 } ∧
    c.color.offsetVarying = some { kind := .varying, index := 1 }

instance (c : Compilation Rat) : Decidable (Steadies c) :=
  inferInstanceAs (Decidable (_ ∧ _ ∧ _))

/-- Where its particles are, written to a target. -/
def steadiedPlacement (target : String) : Compile Rat Program := do
  reset .baseline (coloredPass 0 0) (steadied.settings.features ∪ (coloredPass 0 0).features)
    ["va0"] [target]
  steadied.placeFragments

/-- Whether the constants of the color still do not change behind the placement, and come to one
value for the multiplier and another for the offset. -/
def steadiedLeaves (target : String) (first second : Rat) : Bool :=
  succeeds (do
    let placed ← steadiedPlacement target
    let constants := placed.run noFunctions steadyMachine .vertexConstant
    if constants 2 .x * constants 0 .y = first ∧ constants 4 .x + constants 0 .x = second ∧
      constants 3 .x = 0 ∧ constants 5 .x = 0 then return () else throw .notCompiled)
    { profile := .standard }

section

variable {target shadedName : String} {shaded : Register} {p : Program} {c : Compilation Rat}
  {first second : Rat}

theorem Steadies.inked (h : Steadies c) :
    steadied.Inked (coloredPass 0 0) c steadyMachine steadyValues := by
  refine ⟨rfl, fun n hn hcolors slot index hindex => ?_⟩
  obtain rfl : n = steady := by
    rcases List.mem_cons.mp hn with rfl | hn
    · exact absurd hcolors Bool.false_ne_true
    · exact List.mem_singleton.mp hn
  obtain ⟨before, after, hentry, -⟩ := List.lookup_eq_some_iff.mp hindex
  have hmem : ((steady.id, slot), index) ∈ c.indices := by simp [hentry]
  rw [h.1] at hmem
  simp only [List.mem_cons, Prod.mk.injEq, List.not_mem_nil, or_false, steady] at hmem
  obtain ⟨⟨-, rfl⟩, rfl⟩ | ⟨⟨-, rfl⟩, rfl⟩ | ⟨⟨-, rfl⟩, rfl⟩ | ⟨⟨-, rfl⟩, rfl⟩ |
    ⟨⟨hid, -⟩, -⟩ | ⟨⟨hid, -⟩, -⟩ := hmem
  · rfl
  · rfl
  · rfl
  · rfl
  · exact absurd hid Nat.one_ne_zero
  · exact absurd hid Nat.one_ne_zero

/-- The program carries what the constants of the color are when the placement has run. -/
theorem Steadies.carried (h : Steadies c)
    (hcode : Leads (steadied.vertexCode (coloredPass 0 0) .baseline ["va0"] [target])
      { profile := .standard } p c)
    (hplaced : steadiedLeaves target first second = true) :
    p.run noFunctions steadyMachine .varying 0 .x = first ∧
      p.run noFunctions steadyMachine .varying 1 .x = second := by
  obtain ⟨_, _, P, _, _, -, hplace, hcarrying⟩ := built_steadied.carries_vertexCode rfl hcode
  obtain ⟨_, _, hplaced⟩ := exists_leads hplaced
  obtain ⟨placed, _, hsame, hplaced⟩ := leads_bind.mp hplaced
  obtain ⟨rfl, rfl⟩ := EStateM.Result.ok.inj (Eq.trans (Eq.symm hsame) hplace)
  obtain ⟨hindices, hmultiplier, hoffset⟩ := h
  obtain ⟨hfirst, hsecond, hdelta, hdelta'⟩ := holds_of_leads hplaced
  have hrows : ∀ slot < 4, ∀ m : Machine Rat,
      c.rows m steady slot = m .vertexConstant (slot + 2) := by
    intro slot hslot m
    unfold Compilation.rows Compilation.index?
    rw [hindices]
    interval_cases slot <;> rfl
  rw [hcarrying.color] at hmultiplier hoffset
  obtain ⟨place, hplace, hzero⟩ : ∃ place ∈ P.multiplier, place.2 = 0 := by
    simpa [Palette.registers] using hmultiplier
  obtain ⟨place', hplace', hone⟩ : ∃ place ∈ P.offset, place.2 = 1 := by
    simpa [Palette.registers] using hoffset
  rw [← hzero, ← hone, hcarrying.multiplier noFunctions steadyMachine place hplace,
    hcarrying.offset noFunctions steadyMachine place' hplace']
  constructor
  · rw [Pi.mul_apply, multiplierAt_steadied, hrows _ (by decide), hrows _ (by decide)]
    show (_ + placed.run noFunctions steadyMachine .vertexConstant 3 .x * _) * _ = first
    rw [hdelta, zero_mul, add_zero]
    exact hfirst
  · rw [Pi.add_apply, offsetAt_steadied, hrows _ (by decide), hrows _ (by decide)]
    show _ + placed.run noFunctions steadyMachine .vertexConstant 5 .x * _ + _ = second
    rw [hdelta', zero_mul, add_zero]
    exact hsecond

/-- It shades as it should only if the register times what is carried for the multiplier, plus
what is carried for the offset, is twice the register and two. -/
theorem not_shades_steadied (hshaded : Register.ofName shadedName = .ok shaded)
    (hcode : succeeds (do
      let p ← steadied.vertexCode (coloredPass 0 0) .baseline ["va0"] [target]
      let c ← get
      let q ← ofOutcome (fragmentCode c shadedName)
      if Steadies c then return (p, q) else throw .notCompiled) { profile := .standard } = true)
    (hplaced : steadiedLeaves target first second = true)
    (hx : .x ∈ shaded.operand.components)
    (hwrong : ∀ m : Machine Rat, m .varying 0 .x = first → m .varying 1 .x = second →
      m .fragmentTemporary 0 .x = 1 →
      Program.run noFunctions [.mul shaded shaded ({ kind := .varying, index := 0 } : Register),
        .add shaded shaded ({ kind := .varying, index := 1 } : Register)] m shaded.kind
        shaded.index .x ≠ m shaded.kind shaded.index .x * 2 + 2) :
    ∃ p c q shaded shared,
      Leads (steadied.vertexCode (coloredPass 0 0) .baseline ["va0"] [target])
        { profile := .standard } p c ∧
      fragmentCode c shadedName = .ok q ∧ Register.ofName shadedName = .ok shaded ∧
      c.shared = some shared ∧ ¬ steadied.Shades (coloredPass 0 0) c shared p q shaded := by
  obtain ⟨_, _, hcode⟩ := exists_leads hcode
  obtain ⟨p, c, hvertex, hcode⟩ := leads_bind.mp hcode
  rw [leads_get_bind] at hcode
  obtain ⟨q, _, hfragment, hcode⟩ := leads_bind.mp hcode
  obtain ⟨hq, rfl⟩ := leads_ofOutcome.mp hfragment
  have hsteadies := holds_of_leads hcode
  obtain ⟨_, shared, _, _, _, -, -, hcarrying⟩ := built_steadied.carries_vertexCode rfl hvertex
  refine ⟨p, c, q, shaded, shared, hvertex, hq, hshaded, hcarrying.shared, fun hshades => ?_⟩
  obtain ⟨hfirst, hsecond⟩ := hsteadies.carried hvertex hplaced
  obtain ⟨named, hnamed, rfl⟩ := of_fragmentCode hq
  obtain rfl := Except.ok.inj (hshaded.symm.trans hnamed)
  -- the fragments are white, the varyings are those of the vertex program
  obtain ⟨m, hm⟩ : ∃ m : Machine Rat, m = fun kind index => if kind = .varying then
    p.run noFunctions steadyMachine .varying index else 1 := ⟨_, rfl⟩
  have hcolored := hshades noFunctions steadyMachine m steadyValues hsteadies.inked
    (by rw [hm]; rfl) .x hx
  rw [multiplierAt_steadied, offsetAt_steadied] at hcolored
  refine hwrong m (by rw [hm]; exact hfirst) (by rw [hm]; exact hsecond) (by rw [hm]; rfl) ?_
  refine Eq.trans ?_ (hcolored.trans ?_)
  · unfold ColorRegisters.combination
    rw [hsteadies.2.1, hsteadies.2.2]
    rfl
  · simp [steadyValues, Slot.startMultiplier, Slot.deltaMultiplier, Slot.startOffset,
      Slot.deltaOffset]

end

/-- A product that is put where the sum is read, a vertex that is written over null, one and two,
and a vertex that is written over a parameter of the color: in each case something else is
shaded. -/
theorem steadied_clashes : steadied.Built ∧
    ∀ names ∈ [("vt0", "v1"), ("vc0", "ft0"), ("vc2", "ft0")], ∃ p c q shaded shared,
      Leads (steadied.vertexCode (coloredPass 0 0) .baseline ["va0"] [names.1])
        { profile := .standard } p c ∧
      fragmentCode c names.2 = .ok q ∧ Register.ofName names.2 = .ok shaded ∧
      c.shared = some shared ∧ ¬ steadied.Shades (coloredPass 0 0) c shared p q shaded := by
  refine ⟨built_steadied, fun names hnames => ?_⟩
  simp only [List.mem_cons, List.not_mem_nil, or_false] at hnames
  obtain rfl | rfl | rfl := hnames
  · refine not_shades_steadied
      (show Register.ofName "v1" = .ok { kind := .varying, index := 1 } from rfl)
      (by decide +kernel) (show steadiedLeaves "vt0" 2 2 = true by decide +kernel) (by decide)
      fun m hfirst hsecond _ => ?_
    simp [hfirst, hsecond]
  · refine not_shades_steadied
      (show Register.ofName "ft0" = .ok { kind := .fragmentTemporary, index := 0 } from rfl)
      (by decide +kernel) (show steadiedLeaves "vc0" 6 5 = true by decide +kernel) (by decide)
      fun m hfirst hsecond hwhite => ?_
    have hne : (6 + 5 : Rat) ≠ 2 + 2 := by norm_num
    simpa [Register.operand_of_whole, hfirst, hsecond, hwhite] using hne
  · refine not_shades_steadied
      (show Register.ofName "ft0" = .ok { kind := .fragmentTemporary, index := 0 } from rfl)
      (by decide +kernel) (show steadiedLeaves "vc2" 0 2 = true by decide +kernel) (by decide)
      fun m hfirst hsecond hwhite => ?_
    simp [Register.operand_of_whole, hfirst, hsecond, hwhite]

end NodeSet

end ParticleShader
