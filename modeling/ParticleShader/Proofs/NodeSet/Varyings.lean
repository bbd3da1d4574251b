import ParticleShader.Proofs.Compilation.Finishing
import ParticleShader.Proofs.NodeSet.Shading

/-!
# The varyings between the two programs

The vertex program ends with a copy of each accumulator to a varying, and the fragment code is
written later, from the registers that the compilation remembers. The two agree: the fragment code
reads the varyings that the last lines of the vertex program write, that of the multiplier in a
product and that of the offset in a sum, and each accumulator is updated by the colors with that
part and by nothing else (`NodeSet.Relays`, `Palette.Receives`). What is called in between leaves
the varyings alone or abandons the compilation, and then there is no fragment code until the next
one: **`Built.varyings_spec`**.

Fragment code works on whatever register is named, and reads it; so a varying that is named is read
as well, also one that the vertex program does not write.
-/

namespace ParticleShader

open Compile Compilation

variable {α : Type}

/-! ### What a program updates and reads -/

namespace Program

/-- The instructions of a program that write to a register, in their order. -/
def updates (p : Program) (kind : Register.Kind) (index : Nat) : Program :=
  p.filter fun
    | .instruction i => i.target.kind = kind ∧ i.target.index = index
    | .verbatim _ => false

/-- Some instruction reads a register. -/
def Reads (p : Program) (kind : Register.Kind) (index : Nat) : Prop :=
  ∃ i, .instruction i ∈ p ∧ ∃ o ∈ i.reads, o.kind = kind ∧ o.index = index

variable {p q : Program} {kind : Register.Kind} {index : Nat}

theorem updates_append :
    (p ++ q).updates kind index = p.updates kind index ++ q.updates kind index :=
  List.filter_append p q

theorem updates_eq_nil : p.updates kind index = [] ↔ p.Spares kind index := by
  unfold updates Spares
  rw [List.filter_eq_nil_iff]
  constructor
  · intro h i hi htarget
    exact h _ hi (decide_eq_true htarget)
  · rintro h (i | text) hi
    · simpa using h i hi
    · exact Bool.false_ne_true

@[simp] theorem updates_nil : updates [] kind index = [] := rfl

@[simp] theorem updates_binary {operation : Operation} {t a b : Operand} :
    updates (.binary operation t a b :: p) kind index =
      if t.kind = kind ∧ t.index = index then .binary operation t a b :: p.updates kind index
      else p.updates kind index := by
  unfold updates
  rw [List.filter_cons]
  simp [Statement.binary]

@[simp] theorem reads_nil : ¬ Reads [] kind index := fun ⟨_, h, _⟩ => List.not_mem_nil h

@[simp] theorem reads_binary {operation : Operation} (h : operation ≠ .m33) {t a b : Operand} :
    Reads (.binary operation t a b :: p) kind index ↔
      (a.kind = kind ∧ a.index = index) ∨ (b.kind = kind ∧ b.index = index) ∨
        p.Reads kind index := by
  have hreads : (⟨operation, t, [a, b]⟩ : Instruction).reads = [a, b] := by
    cases operation <;> first | rfl | exact absurd rfl h
  unfold Reads
  simp only [List.mem_cons, or_and_right, exists_or, Statement.binary, Statement.instruction.injEq,
    exists_eq_left, hreads, List.not_mem_nil, or_false, or_assoc]

end Program

/-! ### What a color updates -/

namespace Behavior

section

variable {c c' : Compilation α} {n : Node α} {p wave : Program} {shared : SharedRegisters}
  {P : Palette} {temp target start startSlot deltaSlot : Nat} {blend first delta : Register}
  {operation : Operation} {accumulator : ColorRegisters → Option Register}
  {places : Option (Nat × Nat)}

/-- A part updates its accumulator once, by what is in the scratch temporary. -/
theorem updates_colorPartProgram (h : temp ≠ target) :
    Program.updates (colorPartProgram (.binary operation) (.temporary target) first delta
      (.temporary temp) blend) .vertexTemporary target =
      [.binary operation (Register.temporary target) (Register.temporary temp)
        (Register.temporary target)] := by
  simp [colorPartProgram, Statement.mul, Statement.add, h]

/-- It updates no other accumulator. -/
theorem updates_colorPartProgram_of_ne {other : Nat} (h : temp ≠ other) (hne : target ≠ other) :
    Program.updates (colorPartProgram (.binary operation) (.temporary target) first delta
      (.temporary temp) blend) .vertexTemporary other = [] := by
  simp [colorPartProgram, Statement.mul, Statement.add, h, hne]

/-- The code of a part, if it is wanted, updates its accumulator and no other one. -/
theorem updates_colorPart {wanted : Bool}
    (hcode : Leads (codeIf wanted (colorPartCode n.info accumulator startSlot deltaSlot start
      (.temporary temp) blend (.binary operation))) c p c')
    (hplaces : accumulator c.color = places.map fun place => .temporary place.1)
    (hapart : ∀ place ∈ places, temp ≠ place.1) :
    (∀ place ∈ places, p.updates .vertexTemporary place.1 = if wanted then
      [.binary operation (Register.temporary place.1) (Register.temporary temp)
        (Register.temporary place.1)] else []) ∧
    ∀ other, temp ≠ other → (∀ place ∈ places, place.1 ≠ other) →
      p.updates .vertexTemporary other = [] := by
  rw [leads_codeIf] at hcode
  cases wanted with
  | false =>
    obtain ⟨rfl, -⟩ := hcode
    exact ⟨fun _ _ => rfl, fun _ _ _ => rfl⟩
  | true =>
    obtain ⟨target, first, _, delta, htarget, -, -, rfl⟩ := leads_colorPartCode.mp hcode
    rw [hplaces] at htarget
    obtain ⟨place, hplace, rfl⟩ := Option.map_eq_some_iff.mp htarget
    refine ⟨fun other hother => ?_, fun other htemp hothers =>
      updates_colorPartProgram_of_ne htemp (hothers place hplace)⟩
    obtain rfl := Option.some.inj (hplace.symm.trans hother)
    exact updates_colorPartProgram (hapart place hplace)

/-- What blends the colors updates no accumulator. -/
theorem spares_blends {cycle : Option (Cycle α)} (hmixes : c.Mixes shared P)
    (hblends : Blends cycle n.info shared c temp blend wave c') :
    (∀ place ∈ P.multiplier, wave.Spares .vertexTemporary place.1) ∧
      ∀ place ∈ P.offset, wave.Spares .vertexTemporary place.1 := by
  cases cycle with
  | none =>
    obtain ⟨-, -, -, rfl⟩ := hblends
    exact ⟨fun _ _ => Program.spares_nil, fun _ _ => Program.spares_nil⟩
  | some cycle =>
    obtain ⟨speed, index, rest, -, hfree, rfl, rfl⟩ := hblends
    have hblended := blended_wave hmixes hfree
    exact ⟨fun place hplace => spares_waveProgram cycle (hblended.multiplier place hplace),
      fun place hplace => spares_waveProgram cycle (hblended.offset place hplace)⟩

end

end Behavior

/-- The code of a node updates the accumulators of a palette: that of the multiplier by a product
if the node multiplies the color, that of the offset by a sum if it offsets it, and none
otherwise. -/
structure Palette.UpdatedBy (P : Palette) (n : Node α) (p : Program) : Prop where
  /-- The code is that of the node. -/
  code : ∃ c c', Leads n.vertexCode c p c'
  /-- The accumulators are updated by what is in some temporary. -/
  updates : ∃ temp,
    (∀ place ∈ P.multiplier, p.updates .vertexTemporary place.1 =
      if n.behavior.multiplies then [Statement.mul (Register.temporary place.1)
        (Register.temporary temp) (Register.temporary place.1)] else []) ∧
    ∀ place ∈ P.offset, p.updates .vertexTemporary place.1 =
      if n.behavior.offsets then [Statement.add (Register.temporary place.1)
        (Register.temporary temp) (Register.temporary place.1)] else []

/-- **A step**: the code of a color updates the accumulators of its parts. -/
theorem Node.updatedBy_vertexCode {c c' : Compilation α} {n : Node α} {p : Program}
    {shared : SharedRegisters} {P : Palette} (hcatalogue : n.behavior.IsCatalogue)
    (hblock : n.info.block = .color) (hmixes : c.Mixes shared P)
    (hanimation : c.features.fragmentAnimation = true) (hcode : Leads n.vertexCode c p c') :
    P.UpdatedBy n p := by
  refine ⟨⟨c, c', hcode⟩, ?_⟩
  obtain ⟨animation, hbehavior⟩ := Node.exists_animation hcatalogue hblock
  unfold Node.vertexCode at hcode
  rw [hbehavior] at hcode ⊢
  obtain ⟨shared', temp, blend, wave, c₁, parts, hshared, hblends, hparts, rfl⟩ :=
    (if_pos hanimation).mp (Behavior.leads_colorCode.mp hcode)
  obtain rfl := Except.ok.inj (hmixes.shared.symm.trans hshared)
  obtain ⟨first, c₂, second, hmultiplier, hoffset, rfl⟩ := Behavior.leads_colorPartsCode.mp hparts
  obtain ⟨_, hgrows⟩ := Behavior.grows_blends hblends
  obtain ⟨_, hgrows'⟩ := Behavior.grows_colorPart hmultiplier
  obtain ⟨hwave, hwave'⟩ := Behavior.spares_blends hmixes hblends
  -- the scratch temporary is free, the accumulators are not
  obtain ⟨rest, hfree⟩ := hblends.free
  have hne : ∀ j, j ∉ c.free → temp ≠ j := by
    rintro _ hj rfl
    exact hj (hfree ▸ List.mem_cons_self)
  have hne₁ := fun place hplace => hne place.1 (hmixes.multiplier place hplace).1
  have hne₂ := fun place hplace => hne place.1 (hmixes.offset place hplace).1
  obtain ⟨hfirst, hothers⟩ := Behavior.updates_colorPart hmultiplier
    (congrArg ColorRegisters.multiplier (hmixes.grows hgrows).color) hne₁
  obtain ⟨hsecond, hothers'⟩ := Behavior.updates_colorPart hoffset
    (congrArg ColorRegisters.offset ((hmixes.grows hgrows).grows hgrows').color) hne₂
  refine ⟨temp, fun place hplace => ?_, fun place hplace => ?_⟩
  · rw [Program.updates_append, Program.updates_append,
      Program.updates_eq_nil.mpr (hwave place hplace), hfirst place hplace,
      hothers' place.1 (hne₁ place hplace) fun other hother =>
        (hmixes.apart place hplace other hother).1.symm, List.append_nil]
    rfl
  · rw [Program.updates_append, Program.updates_append,
      Program.updates_eq_nil.mpr (hwave' place hplace), hsecond place hplace,
      hothers place.1 (hne₂ place hplace) fun other hother =>
        (hmixes.apart other hother place hplace).1]
    rfl

/-! ### What a set relays -/

/-- The varyings of a palette, that of the multiplier first. -/
def Palette.varyings (P : Palette) : List Nat :=
  (P.multiplier.toList ++ P.offset.toList).map Prod.snd

theorem Palette.varyings_registers (P : Palette) :
    P.registers.varyings =
      P.varyings.map fun index => ({ kind := .varying, index } : Register) := by
  obtain ⟨clocks, multiplier, offset⟩ := P
  cases multiplier <;> cases offset <;> rfl

/-- The varyings that are written in the end are those of the palette. -/
theorem Palette.spares_pass {P : Palette} {index : Nat} :
    P.pass.Spares .varying index ↔ index ∉ P.varyings := by
  obtain ⟨clocks, multiplier, offset⟩ := P
  cases multiplier <;> cases offset <;> simp [Palette.pass, Palette.varyings, eq_comm]

namespace NodeSet

/-- The code of nodes one after the other, when the code of each keeps an invariant. -/
theorem forall₂_gather {R : Node α → Program → Prop} {I : Compilation α → Prop}
    {code : Node α → Compile α Program} {nodes : List (Node α)} {c c' : Compilation α} {p : Program}
    (hstep : ∀ n ∈ nodes, ∀ c p c', I c → Leads (code n) c p c' → R n p ∧ I c') (hc : I c)
    (hcode : Leads (gather code nodes) c p c') :
    ∃ codes, List.Forall₂ R nodes codes ∧ p = codes.flatten := by
  induction nodes generalizing c p with
  | nil =>
    obtain ⟨rfl, -⟩ := leads_result.mp hcode
    exact ⟨[], .nil, rfl⟩
  | cons n nodes ih =>
    rw [List.forall_mem_cons] at hstep
    simp only [gather, leads_bind, leads_pure] at hcode
    obtain ⟨first, c₁, hfirst, others, c₂, hothers, rfl, rfl⟩ := hcode
    obtain ⟨hn, hc₁⟩ := hstep.1 c first c₁ hc hfirst
    obtain ⟨codes, hcodes, rfl⟩ := ih hstep.2 hc₁ hothers
    exact ⟨first :: codes, .cons hn hcodes, rfl⟩

variable {s : NodeSet α} {c c' c₁ c₂ : Compilation α} {shared : SharedRegisters} {P : Palette}
  {f : Features} {pass : Pass} {profile : Profile} {sourceNames targetNames : List String}
  {p q : Program}

/-- **A run through the colors**: each of them updates the accumulators of its parts. -/
theorem updatedBy_gather {nodes : List (Node α)} (hcatalogue : ∀ n ∈ nodes, n.behavior.IsCatalogue)
    (hblock : ∀ n ∈ nodes, n.info.block = .color) (hready : ∀ n ∈ nodes, c.Ready n.behavior)
    (hmixes : c.Mixes shared P) (hanimation : c.features.fragmentAnimation = true)
    (hcode : Leads (gather Node.vertexCode nodes) c p c') :
    ∃ codes, List.Forall₂ P.UpdatedBy nodes codes ∧ p = codes.flatten := by
  refine forall₂_gather (I := fun c => c.Mixes shared P ∧ c.features.fragmentAnimation = true ∧
    ∀ n ∈ nodes, c.Ready n.behavior) ?_ ⟨hmixes, hanimation, hready⟩ hcode
  rintro n hn c p c' ⟨hmixes, hanimation, hready⟩ hcode
  have hgrows := (Node.takes_vertexCode (hcatalogue n hn) (hready n hn)).after hcode
  exact ⟨Node.updatedBy_vertexCode (hcatalogue n hn) (hblock n hn) hmixes hanimation hcode,
    hmixes.grows hgrows, hgrows.features ▸ hanimation, fun m hm => (hready m hm).grows hgrows⟩

/-- A vertex program relays the colors of a set: it ends with a copy of each accumulator to its
varying, and before that the accumulators are started and updated by the colors in their order. -/
structure Relays (s : NodeSet α) (pass : Pass) (c : Compilation α) (P : Palette) (p : Program) :
    Prop where
  /-- The registers of the colors. -/
  registers : c.color = P.registers
  /-- There is a multiplier if the pass applies color and some color multiplies. -/
  multiplier : P.multiplier.isSome =
    (pass.fragmentAnimation && s.nodes.any (·.behavior.multiplies))
  /-- There is an offset if the pass applies color and some color offsets. -/
  offset : P.offset.isSome = (pass.fragmentAnimation && s.nodes.any (·.behavior.offsets))
  /-- The two have accumulators of their own. -/
  apart : ∀ place ∈ P.multiplier, ∀ other ∈ P.offset, place.1 ≠ other.1
  /-- The varyings of the material are in use. -/
  le : pass.taken.varyings ≤ c.used.varyings
  /-- The varyings are all the others, in their order. -/
  varyings : P.varyings =
    List.range' pass.taken.varyings (c.used.varyings - pass.taken.varyings)
  /-- They are written in the end. -/
  written : ∀ index, ¬ P.pass.Spares .varying index ↔
    pass.taken.varyings ≤ index ∧ index < c.used.varyings
  /-- The program starts the accumulators, updates them and passes them on. -/
  program : ∃ registers placed codes, c.shared = some registers ∧
    List.Forall₂ P.UpdatedBy (s.nodes.filter (·.info.block = .color)) codes ∧
    p = placed ++ (P.start registers ++ codes.flatten ++ P.pass)

variable [Scalar α]

/-- The colors are started, updated and passed on. -/
theorem Built.relays_colorFragments {clocks : List Nat} (h : s.Built) (hcovers : Covers f s)
    (hc : c.Begun shared .post f) (hmixes : c.Mixes shared (.clocked clocks))
    (hcode : Leads s.colorFragments c p c') :
    ∃ (P : Palette) (codes : List Program), c'.color = P.registers ∧
      P.multiplier.isSome = (f.fragmentAnimation && f.colorMultiplier) ∧
      P.offset.isSome = (f.fragmentAnimation && f.colorOffset) ∧
      (∀ place ∈ P.multiplier, ∀ other ∈ P.offset, place.1 ≠ other.1) ∧
      List.Forall₂ P.UpdatedBy (s.nodes.filter (·.info.block = .color)) codes ∧
      p = P.start shared ++ codes.flatten ++ P.pass := by
  obtain ⟨start, c₁, color, c₂, d, hstart, hbegun, hcolored, hblock, hgrows, rfl, rfl⟩ :=
    h.of_colorFragments hcovers hc hcode
  have hinit := hmixes.enter hc .colorInit rfl
  cases hanimation : f.fragmentAnimation with
  | true =>
    obtain ⟨P, hP, hmultiplier, hoffset, rfl⟩ :=
      mixes_initColor hinit (hc.features ▸ hanimation) hstart
    have hentered := hP.enter hbegun .color rfl
    have hcolor : c₂.color = P.registers := (hentered.grows hgrows).color
    obtain ⟨codes, hcodes, rfl⟩ := updatedBy_gather
      (fun n hn => h.isCatalogue n (List.mem_filter.mp hn).1)
      (fun n hn => of_decide_eq_true (List.mem_filter.mp hn).2)
      (hcovers.ready h.isCatalogue (hbegun.enter .color) rfl fun _ hanimation =>
        ⟨(hcolored hanimation).multiplier, (hcolored hanimation).offset⟩)
      hentered (hbegun.features ▸ hanimation) hblock
    exact ⟨P, codes, hcolor, hmultiplier.trans (congrArg _ hc.features),
      hoffset.trans (congrArg _ hc.features),
      fun place hplace other hother => (hP.apart place hplace other hother).1, hcodes,
      by rw [Palette.colorPassCode_eq hcolor]⟩
  | false =>
    obtain ⟨_, -, hstart⟩ := leads_initColor.mp hstart
    rw [if_neg (by rw [hc.features, hanimation]; exact Bool.false_ne_true)] at hstart
    obtain ⟨rfl, rfl⟩ := hstart
    have hcolor : c₂.color = (Palette.clocked clocks).registers :=
      hgrows.color.trans hmixes.color
    obtain ⟨codes, hcodes, rfl⟩ := forall₂_gather (R := (Palette.clocked clocks).UpdatedBy)
      (I := fun _ => True)
      (fun n _ c p c' _ hcode => ⟨⟨⟨c, c', hcode⟩, 0, nofun, nofun⟩, trivial⟩) trivial hblock
    exact ⟨.clocked clocks, codes, hcolor, rfl, rfl, nofun, hcodes,
      by rw [Palette.colorPassCode_eq hcolor]; rfl⟩

/-- **The vertex program** relays the colors of the set. -/
theorem Built.relays_vertexCode (h : s.Built)
    (hcode : Leads (s.vertexCode pass profile sourceNames targetNames) c p c₁) :
    ∃ P, s.Relays pass c₁ P p := by
  have hfeatures : s.settings.features ∪ pass.features = s.featuresFor pass := by
    rw [h.features_eq_raised, featuresFor]
  obtain ⟨_, c₀, hreset, hfragments⟩ := leads_bind.mp (leads_orAbandon.mp hcode)
  rw [hfeatures] at hreset
  obtain ⟨_, _, shared, -, -, hopened⟩ := opened_of_reset hreset
  obtain ⟨_, _, _, _, _, _, -, -, -, hshared, hmixes⟩ := mixes_of_reset hreset
  obtain rfl := Option.some.inj (hopened.begun.shared.symm.trans hshared)
  have hcovers := covers_featuresFor s pass
  have hc := hopened.begun
  have hcarries := h.carries_vertexFragments hcovers hc hfragments hopened.color
  rw [hopened.varyings] at hcarries
  simp only [vertexFragments, leads_bind, leads_pure] at hfragments
  obtain ⟨placed, c₂, hplace, colored, c₃, hcolors, rfl, rfl⟩ := hfragments
  obtain ⟨-, hbegun, hsame⟩ := h.extends_placeFragments hcovers hc hplace
  obtain ⟨-, hbegun', -⟩ := h.extends_colorFragments hcovers hbegun hcolors
    (hsame.trans hopened.color)
  obtain ⟨P, codes, hcolor, hmultiplier, hoffset, hapart, hcodes, rfl⟩ :=
    h.relays_colorFragments hcovers hbegun (h.mixes_placeFragments hcovers hc hmixes hplace) hcolors
  rw [h.fragmentAnimation_featuresFor] at hmultiplier hoffset
  rw [colorMultiplier_featuresFor] at hmultiplier
  rw [colorOffset_featuresFor] at hoffset
  have hle := hcarries.first_le
  have hregisters := hcarries.registers
  rw [hcolor, Palette.varyings_registers] at hregisters
  have hvaryings := List.map_injective_iff.mpr
    (fun _ _ hsame => congrArg Register.index hsame) hregisters
  refine ⟨P, hcolor, hmultiplier, hoffset, hapart, hle, hvaryings, fun index => ?_,
    _, placed, codes, hbegun'.shared, hcodes, rfl⟩
  rw [Palette.spares_pass, not_not, hvaryings, List.mem_range'_1, Nat.add_sub_cancel' hle]

end NodeSet

/-! ### The fragment code -/

/-- Fragment code receives what a palette passes on: it multiplies a register by the varying of the
multiplier and adds that of the offset. -/
structure Palette.Receives (P : Palette) (shaded : Register) (q : Program) : Prop where
  /-- The code. -/
  code : q = P.multiplier.toList.map (fun place =>
      Statement.mul shaded shaded ({ kind := .varying, index := place.2 } : Register)) ++
    P.offset.toList.map fun place =>
      Statement.add shaded shaded ({ kind := .varying, index := place.2 } : Register)
  /-- It reads the varyings that are passed on and the register that it works on, if it is code at
  all. -/
  reads : ∀ index, q.Reads .varying index ↔ ¬ P.pass.Spares .varying index ∨
    (q ≠ [] ∧ shaded.kind = .varying ∧ shaded.index = index)

theorem Palette.receives (P : Palette) (shaded : Register) :
    P.Receives shaded (P.registers.combination shaded) := by
  refine ⟨?_, fun index => ?_⟩
  · obtain ⟨clocks, multiplier, offset⟩ := P
    cases multiplier <;> cases offset <;> rfl
  · rw [Palette.spares_pass, not_not]
    obtain ⟨clocks, multiplier, offset⟩ := P
    cases multiplier <;> cases offset <;>
      simp [ColorRegisters.combination, Palette.registers, Palette.varyings, Statement.mul,
        Statement.add, Register.operand] <;> grind

namespace Compilation

/-- The colors of a compilation are passed on. -/
def PassedOn (c : Compilation α) : Prop := c.phase = .colorCombine ∨ c.phase = .done

theorem PassedOn.ne_failed {c : Compilation α} (h : c.PassedOn) : c.phase ≠ .failed := by
  rcases h with h | h <;> rw [h] <;> exact Phase.noConfusion

theorem PassedOn.isActive {c : Compilation α} (h : c.PassedOn) : c.isActive = true := by
  unfold Compilation.isActive
  rcases h with h | h <;> rw [h] <;> rfl

end Compilation

/-- What fails as a whole abandons the compilation. -/
theorem Compile.phase_of_orAbandon_error {β : Type} {x : Compile α β} {c c' : Compilation α}
    {fault : Fault} (h : (orAbandon x).run c = .error fault c') : c'.phase = .failed := by
  cases hrun : x.run c with
  | ok b c'' =>
    have hleads : (orAbandon x).run c = .ok b c'' := leads_orAbandon.mpr hrun
    exact nomatch h.symm.trans hleads
  | error fault' c'' =>
    rw [run_orAbandon_of_error hrun] at h
    cases h
    rfl

namespace NodeSet

section

variable {c : Compilation α} {name : String} {shaded : Register}

/-- When the colors are passed on there is fragment code for every register. -/
theorem fragmentCode_of_passedOn (h : c.PassedOn) (hname : Register.ofName name = .ok shaded) :
    fragmentCode c name = .ok (c.color.combination shaded) := by
  unfold fragmentCode
  rcases h with h | h <;> rw [h] <;> exact colorCombination_eq_ok.mpr ⟨shaded, hname, rfl⟩

theorem fragmentCode_of_not_passedOn (h : ¬ c.PassedOn) :
    fragmentCode c name = .error .notCompiled := by
  unfold fragmentCode
  split
  · exact absurd (.inl ‹_›) h
  · exact absurd (.inr ‹_›) h
  · rfl

/-- On a compilation that is driven step by step there is no fragment code exactly until the colors
are passed on, and none after it is abandoned. -/
theorem fragmentCode_play [Scalar α] (profile : Profile) (calls : List (Call α))
    (hname : Register.ofName name = .ok shaded) :
    fragmentCode (play { profile } calls) name = .error .notCompiled ↔
      ∀ phases, (track profile calls).phases = some phases → .colorCombine ∉ phases := by
  have hsound := sound_track profile calls
  rw [← state_track]
  by_cases hpassed : (track profile calls).state.PassedOn
  · rw [fragmentCode_of_passedOn hpassed hname]
    refine ⟨nofun, fun h => absurd ?_ (h _ (hsound.phases.trans (if_pos hpassed.isActive)))⟩
    rcases hpassed with hphase | hphase <;> rw [hphase] <;> decide
  · refine iff_of_true (fragmentCode_of_not_passedOn hpassed) fun phases hphases hmem => hpassed ?_
    obtain ⟨hactive, rfl⟩ := hsound.phases_eq_some hphases
    revert hactive hmem
    unfold Compilation.PassedOn Compilation.isActive
    cases (track profile calls).state.phase <;> decide

end

/-! ### What leaves the varyings alone -/

section

variable {P : (β : Type) → Compile α β → Prop}

/-- Quiet code of nodes is quiet one after the other. -/
theorem quiet_gather (hq : Quiet P) {code : Node α → Compile α Program} {nodes : List (Node α)}
    (hcode : ∀ n ∈ nodes, P Program (code n)) : P Program (gather code nodes) := by
  induction nodes with
  | nil => exact hq.pure _
  | cons n nodes ih =>
    obtain ⟨hn, hnodes⟩ := List.forall_mem_cons.mp hcode
    exact hq.bind hn fun _ => hq.bind (ih hnodes) fun _ => hq.pure _

/-- To write texture code is quiet. -/
theorem quiet_writeUvCode [Scalar α] (hq : Quiet P) {s : NodeSet α} (hs : s.Modest)
    (source target : String) : P Program (s.writeUvCode source target) := by
  refine hq.bind (hq.claiming.has _) fun on => ?_
  split
  · exact hq.bind (hq.setUv source target) fun _ =>
      hq.bind (quiet_gather hq fun n hn => Node.claiming_uvCode hq.claiming (hs n hn)) fun _ =>
        hq.bind (hq.modify fun _ => rfl) fun _ => hq.pure _
  · exact hq.bind (hq.claiming.ofOutcome _) fun _ =>
      hq.bind (hq.claiming.ofOutcome _) fun _ => hq.pure _

end

variable [Scalar α] {s : NodeSet α} {c d : Compilation α} {source target : String}

/-- What a request for texture code is answered. -/
theorem run_uvCode (s : NodeSet α) (source target : String) (c : Compilation α) :
    (s.uvCode source target).run c =
      if c.isActive = true ∧ c.phase ≠ .done then
        match c.writtenUvCode source target with
        | .error fault => .error fault c
        | .ok (some code) => .ok code c
        | .ok none => (orAbandon (s.writeUvCode source target)).run c
      else .error .notCompiled c := by
  unfold uvCode
  rw [EStateM.run_bind, EStateM.run_get]
  dsimp only
  by_cases hopen : c.isActive = true ∧ c.phase ≠ .done
  · rw [if_pos hopen, if_neg (by simp [hopen.1, hopen.2])]
    cases c.writtenUvCode source target with
    | error fault => rfl
    | ok written => cases written <;> rfl
  · have hclosed : (!c.isActive || c.phase = .done) = true := by
      simpa [Classical.or_iff_not_imp_left] using hopen
    rw [if_neg hopen, if_pos hclosed]
    rfl

/-- Texture code that was not written yet is asked for, and writing it fails. -/
def Breaks (s : NodeSet α) (c : Compilation α) (source target : String) : Prop :=
  c.phase = .colorCombine ∧ c.writtenUvCode source target = .ok none ∧
    succeeds (s.writeUvCode source target) c = false

/-- A request for texture code changes nothing, or the code is written. -/
theorem after_uvCode (h : c.PassedOn) (s : NodeSet α) (source target : String) :
    (c.after (s.uvCode source target) = c ∧ ¬ s.Breaks c source target) ∨
    (c.phase = .colorCombine ∧ c.writtenUvCode source target = .ok none ∧
      c.after (s.uvCode source target) =
        c.after (orAbandon (s.writeUvCode source target))) := by
  have hrun := s.run_uvCode source target c
  split at hrun
  · rename_i hopen
    cases hwritten : c.writtenUvCode source target with
    | error fault =>
      rw [hwritten] at hrun
      exact .inl ⟨after_of_error hrun, fun hbreaks => nomatch hwritten.symm.trans hbreaks.2.1⟩
    | ok written =>
      rw [hwritten] at hrun
      cases written with
      | some code =>
        exact .inl ⟨Leads.after_eq hrun, fun hbreaks => nomatch hwritten.symm.trans hbreaks.2.1⟩
      | none =>
        refine .inr ⟨h.resolve_right hopen.2, rfl, ?_⟩
        unfold Compilation.after
        rw [hrun]
  · rename_i hclosed
    refine .inl ⟨after_of_error hrun, fun hbreaks => hclosed ⟨h.isActive, ?_⟩⟩
    rw [hbreaks.1]
    exact Phase.noConfusion

/-- Writing texture code abandons the compilation or keeps its phase, and its varyings where the
nodes are of the catalogue. -/
theorem Modest.after_orAbandon_writeUvCode (hs : s.Modest) (source target : String)
    (c : Compilation α) :
    (succeeds (s.writeUvCode source target) c = false ∧
      (c.after (orAbandon (s.writeUvCode source target))).phase = .failed) ∨
    (succeeds (s.writeUvCode source target) c = true ∧
      (c.after (orAbandon (s.writeUvCode source target))).phase = c.phase ∧
      (s.Built → c.SameVaryings (c.after (orAbandon (s.writeUvCode source target))))) := by
  have hlasts := quiet_writeUvCode quiet_lasting hs source target c
  unfold succeeds
  cases hwrite : (s.writeUvCode source target).run c with
  | error fault c' =>
    rw [after_of_error (run_orAbandon_of_error hwrite)]
    exact .inl ⟨rfl, rfl⟩
  | ok code c' =>
    rw [Leads.after_eq (leads_orAbandon.mpr hwrite)]
    rw [Leads.after_eq hwrite] at hlasts
    exact .inr ⟨rfl, hlasts.phase, fun h => h.sameVaryings_writeUvCode hwrite⟩

/-- To finish leaves the varyings alone, and the colors passed on. -/
theorem after_finish_of_passedOn (h : c.PassedOn) :
    (c.after finish).PassedOn ∧ c.SameVaryings (c.after finish) := by
  rcases h with h | h
  · have hnext : c.phase.next = some .done := by rw [h]; rfl
    have henter : Leads (enter .done) c () { c with phase := .done } := leads_enter.mpr ⟨hnext, rfl⟩
    -- behind the phase the rows are cleared and one of them is staged
    have hstages : Stages (do
        let shared ← (Compile.shared : Compile α SharedRegisters)
        setVertexConstant shared.zero.index
          ⟨Scalar.zero, Scalar.one, Scalar.two, Scalar.zero⟩) :=
      stages_bind (stages_get_bind fun _ => stages_ofOutcome _) fun _ =>
        stages_setVertexConstant _ _
    unfold finish
    rw [henter.after_bind, Leads.after_bind (b := ⟨⟩) (leads_modify.mpr rfl), hstages]
    exact ⟨.inr rfl, rfl, rfl⟩
  · have hsame : c.after finish = c := after_of_next_eq_none (by rw [h]; rfl) (k := .finish) rfl
    rw [hsame]
    exact ⟨.inr h, rfl, rfl⟩

/-- What is called behind the vertex code leaves the colors passed on, unless texture code that is
written then fails. -/
structure Endures (s : NodeSet α) (c : Compilation α) : Prop where
  /-- Texture code is asked for. -/
  uvCode : ∀ source target,
    (c.after (s.uvCode source target)).phase = .failed ↔ s.Breaks c source target
  /-- The code is finished. -/
  finish : (c.after finish).phase ≠ .failed
  /-- A frame is staged. -/
  activate : ∀ frame, (c.after (s.activate frame)).phase ≠ .failed

/-- **A step**: texture code that is asked for breaks the compilation or leaves it as far as it
is. -/
theorem Modest.after_uvCode_of_passedOn (hs : s.Modest) (h : c.PassedOn)
    (source target : String) :
    (s.Breaks c source target ∧ (c.after (s.uvCode source target)).phase = .failed) ∨
    (¬ s.Breaks c source target ∧ (c.after (s.uvCode source target)).PassedOn ∧
      (s.Built → c.SameVaryings (c.after (s.uvCode source target)))) := by
  rcases after_uvCode h s source target with ⟨hsame, hbreaks⟩ | ⟨hphase, hwritten, hafter⟩
  · rw [hsame]
    exact .inr ⟨hbreaks, h, fun _ => ⟨rfl, rfl⟩⟩
  · rw [hafter]
    rcases hs.after_orAbandon_writeUvCode source target c with
      ⟨hfails, hfailed⟩ | ⟨hsucceeds, hkept, hsame⟩
    · exact .inl ⟨⟨hphase, hwritten, hfails⟩, hfailed⟩
    · refine .inr ⟨fun hbreaks => ?_, .inl (hkept.trans hphase), hsame⟩
      exact Bool.false_ne_true (hbreaks.2.2.symm.trans hsucceeds)

/-- To stage a frame leaves the varyings alone, and the colors passed on. -/
theorem Modest.after_activate_of_passedOn (hs : s.Modest) (h : c.PassedOn) (frame : Frame α) :
    (c.after (s.activate frame)).PassedOn ∧ c.SameVaryings (c.after (s.activate frame)) := by
  rw [hs.stages_activate frame c]
  exact ⟨h, rfl, rfl⟩

theorem Modest.endures_of_passedOn (hs : s.Modest) (h : c.PassedOn) : s.Endures c where
  uvCode source target := by
    rcases hs.after_uvCode_of_passedOn h source target with
      ⟨hbreaks, hfailed⟩ | ⟨hbreaks, hpassed, -⟩
    · exact iff_of_true hfailed hbreaks
    · exact iff_of_false hpassed.ne_failed hbreaks
  finish := (after_finish_of_passedOn h).1.ne_failed
  activate frame := (hs.after_activate_of_passedOn h frame).1.ne_failed

/-- An abandoned compilation stays abandoned. -/
theorem Follows.failed (hs : s.Modest) (h : s.Follows c d) (hc : c.phase = .failed) : d.phase = .failed := by
  induction h with
  | refl => exact hc
  | @uvCode d source target _ ih =>
    have hrun := s.run_uvCode source target d
    rw [if_neg (by unfold Compilation.isActive; rw [ih]; simp [Phase.isActive])] at hrun
    rw [after_of_error hrun]
    exact ih
  | @finish d _ ih =>
    have hsame : d.after Compile.finish = d :=
      after_of_next_eq_none (by rw [ih]; rfl) (k := .finish) rfl
    rw [hsame]
    exact ih
  | activate frame _ ih =>
    rw [hs.stages_activate frame]
    exact ih

/-- **What follows** leaves the colors passed on, and the varyings of a built set as they are,
unless the compilation is abandoned. -/
theorem Follows.passedOn (hs : s.Modest) (h : s.Follows c d) (hc : c.PassedOn) :
    d.phase = .failed ∨ (d.PassedOn ∧ (s.Built → c.SameVaryings d)) := by
  induction h with
  | refl => exact .inr ⟨hc, fun _ => ⟨rfl, rfl⟩⟩
  | @uvCode d source target _ ih =>
    rcases ih with hfailed | ⟨hpassed, hsame⟩
    · exact .inl ((Follows.refl.uvCode source target).failed hs hfailed)
    · rcases hs.after_uvCode_of_passedOn hpassed source target with
        ⟨-, hfailed⟩ | ⟨-, hpassed', hsame'⟩
      · exact .inl hfailed
      · exact .inr ⟨hpassed', fun h => (hsame h).trans (hsame' h)⟩
  | @finish d _ ih =>
    rcases ih with hfailed | ⟨hpassed, hsame⟩
    · exact .inl ((Follows.finish (.refl (s := s))).failed hs hfailed)
    · obtain ⟨hpassed', hsame'⟩ := after_finish_of_passedOn hpassed
      exact .inr ⟨hpassed', fun h => (hsame h).trans hsame'⟩
  | @activate d frame _ ih =>
    rcases ih with hfailed | ⟨hpassed, hsame⟩
    · exact .inl ((Follows.refl.activate frame).failed hs hfailed)
    · obtain ⟨hpassed', hsame'⟩ := hs.after_activate_of_passedOn hpassed frame
      exact .inr ⟨hpassed', fun h => (hsame h).trans hsame'⟩

/-! ### The two programs -/

variable {pass : Pass} {profile : Profile} {sourceNames targetNames : List String}
  {shadedName : String} {shaded : Register}

/-- **The varyings**: let vertex code be written for a built set, whatever was compiled before. Its
program relays the colors, and until texture code fails while it is written, the fragment code for
every register receives what is passed on, through the same varyings; requests that are refused
change nothing. When the compilation is abandoned, and before the colors are passed on at all, there
is no fragment code. -/
theorem Built.varyings_spec (h : s.Built) (hname : Register.ofName shadedName = .ok shaded)
    (c : Compilation α) :
    (∀ p c₁, Leads (s.vertexCode pass profile sourceNames targetNames) c p c₁ →
      ∃ P, s.Relays pass c₁ P p ∧ ∀ c₂, s.Follows c₁ c₂ → c₂.phase ≠ .failed →
        c₂.used.varyings = c₁.used.varyings ∧ s.Endures c₂ ∧
          ∃ q, fragmentCode c₂ shadedName = .ok q ∧ P.Receives shaded q) ∧
    (∀ fault c₁, (s.vertexCode pass profile sourceNames targetNames).run c = .error fault c₁ →
      c₁.phase = .failed) ∧
    (∀ c₁ c₂, c₁.phase = .failed → s.Follows c₁ c₂ → c₂.phase = .failed ∧
      fragmentCode c₂ shadedName = .error .notCompiled) ∧
    ∀ calls : List (Call α),
      fragmentCode (play { profile } calls) shadedName = .error .notCompiled ↔
        ∀ phases, (track profile calls).phases = some phases → .colorCombine ∉ phases := by
  refine ⟨fun p c₁ hcode => ?_, fun fault c₁ => phase_of_orAbandon_error,
    fun c₁ c₂ hfailed hfollows => ?_, fun calls => fragmentCode_play profile calls hname⟩
  · obtain ⟨P, hrelays⟩ := h.relays_vertexCode hcode
    refine ⟨P, hrelays, fun c₂ hfollows hne => ?_⟩
    have hpassed : c₁.PassedOn := .inl (h.compiled_vertexCode hcode).1.phase
    obtain ⟨hpassed', hsame⟩ := (hfollows.passedOn h.modest hpassed).resolve_left hne
    obtain ⟨hused, hcolor⟩ := hsame h
    refine ⟨hused, h.modest.endures_of_passedOn hpassed', _, fragmentCode_of_passedOn hpassed' hname, ?_⟩
    rw [hcolor, hrelays.registers]
    exact P.receives shaded
  · have hfailed' := hfollows.failed h.modest hfailed
    exact ⟨hfailed', fragmentCode_of_not_passedOn fun hpassed => hpassed.ne_failed hfailed'⟩

/-- A set with both parts is compiled behind another one, asked for texture code and finished: the
fragment code reads the two varyings that the pass did not count. -/
theorem flickering_relays : ∃ p₀ c p c₁ c₂ P q,
    Leads (glowing.vertexCode (coloredPass 0 0) .baseline ["va0"] ["vt0"])
      { profile := .standard } p₀ c ∧
    Leads (flickering.vertexCode (coloredPass 1 2) .baseline ["va0"] ["vt0"]) c p c₁ ∧
    flickering.Relays (coloredPass 1 2) c₁ P p ∧ P.varyings = [2, 3] ∧
    flickering.Follows c₁ c₂ ∧ c₂.phase = .done ∧ fragmentCode c₂ "ft0" = .ok q ∧
    P.Receives { kind := .fragmentTemporary, index := 0 } q := by
  have hcode : succeeds (do
      let _ ← glowing.vertexCode (coloredPass 0 0) .baseline ["va0"] ["vt0"]
      let p ← flickering.vertexCode (coloredPass 1 2) .baseline ["va0"] ["vt0"]
      let c₁ ← get
      let _ ← flickering.uvCode "va1" "v7"
      finish
      let c₂ ← get
      if c₁.used.varyings = 4 ∧ c₂.phase = .done then return p else throw .notCompiled)
      { profile := .standard } = true := by
    decide +kernel
  obtain ⟨_, _, hcode⟩ := exists_leads hcode
  obtain ⟨p₀, c, hbefore, hcode⟩ := leads_bind.mp hcode
  obtain ⟨p, c₁, hvertex, hcode⟩ := leads_bind.mp hcode
  rw [leads_get_bind] at hcode
  obtain ⟨_, d, huv, hcode⟩ := leads_bind.mp hcode
  obtain ⟨_, c₂, hfinish, hcode⟩ := leads_bind.mp hcode
  rw [leads_get_bind] at hcode
  obtain ⟨hused, hdone⟩ := holds_of_leads hcode
  obtain ⟨P, hrelays, hreceives⟩ := (built_flickering.varyings_spec
    (show Register.ofName "ft0" = .ok { kind := .fragmentTemporary, index := 0 } from rfl) c).1
    p c₁ hvertex
  have hfollows : flickering.Follows c₁ c₂ := by
    have hall := (Follows.refl (s := flickering) (c := c₁)).uvCode "va1" "v7" |>.finish
    rwa [huv.after_eq, hfinish.after_eq] at hall
  obtain ⟨-, -, q, hq, hreceived⟩ := hreceives c₂ hfollows (by rw [hdone]; decide)
  refine ⟨p₀, c, p, c₁, c₂, P, q, hbefore, hvertex, hrelays, ?_, hfollows, hdone, hq, hreceived⟩
  rw [hrelays.varyings, hused]
  rfl

/-- Fragment code for a varying that the vertex program does not write reads it, and texture code
that is refused behind the end leaves fragment code to be given. -/
theorem glowing_reads_others : ∃ p c₁ q c₂ q',
    Leads (glowing.vertexCode (coloredPass 0 0) .baseline ["va0"] ["vt0"])
      { profile := .standard } p c₁ ∧
    c₁.used.varyings = 1 ∧ p.Spares .varying 7 ∧ fragmentCode c₁ "v7" = .ok q ∧
    q.Reads .varying 7 ∧
    Leads finish c₁ () c₂ ∧ (glowing.uvCode "va1" "v1").run c₂ = .error .notCompiled c₂ ∧
    fragmentCode c₂ "ft0" = .ok q' := by
  have hcode : succeeds (do
      let p ← glowing.vertexCode (coloredPass 0 0) .baseline ["va0"] ["vt0"]
      let c₁ ← get
      let q ← ofOutcome (fragmentCode c₁ "v7")
      finish
      let c₂ ← get
      let q' ← ofOutcome (fragmentCode c₂ "ft0")
      if c₁.used.varyings = 1 ∧ p.updates .varying 7 = [] ∧ c₂.phase = .done ∧
        q = [.mul ({ kind := .varying, index := 7 } : Register)
          ({ kind := .varying, index := 7 } : Register)
          ({ kind := .varying, index := 0 } : Register)] then return (p, q, q')
      else throw .notCompiled) { profile := .standard } = true := by
    decide +kernel
  obtain ⟨_, _, hcode⟩ := exists_leads hcode
  obtain ⟨p, c₁, hvertex, hcode⟩ := leads_bind.mp hcode
  rw [leads_get_bind] at hcode
  obtain ⟨q, _, hfragment, hcode⟩ := leads_bind.mp hcode
  obtain ⟨hq, rfl⟩ := leads_ofOutcome.mp hfragment
  obtain ⟨_, c₂, hfinish, hcode⟩ := leads_bind.mp hcode
  rw [leads_get_bind] at hcode
  obtain ⟨q', _, hfragment', hcode⟩ := leads_bind.mp hcode
  obtain ⟨hq', rfl⟩ := leads_ofOutcome.mp hfragment'
  obtain ⟨hused, hspares, hdone, rfl⟩ := holds_of_leads hcode
  refine ⟨p, c₁, _, c₂, q', hvertex, hused, Program.updates_eq_nil.mp hspares, hq,
    by simp [Statement.mul, Register.operand], hfinish, ?_, hq'⟩
  rw [run_uvCode, if_neg fun hopen => hopen.2 hdone]

end NodeSet

end ParticleShader
