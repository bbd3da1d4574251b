import ParticleShader.Proofs.NodeSet.Built
import ParticleShader.Proofs.Node.Emission

/-!
# What nodes take

Which parameters the code of a catalogue node takes registers for, one need after the
other, and what a compilation remembers of them. The ledger of a compilation holds that
alone, so what a need does is said once (`Ledger.take`), and what the code of a node does
is a list of needs. **`records_vertexCode`** and **`records_uvCode`** say that the code of
a node does nothing else to the state.
-/

namespace ParticleShader

variable {α : Type}

/-- A parameter that the code of a node takes registers for. -/
inductive Need where
  /-- Consecutive constants. -/
  | constants (slot count : Nat)
  /-- An attribute that reads values of the node from `start` on. -/
  | stream (slot start components : Nat)
deriving DecidableEq

namespace Need

/-- The need of a parameter: a constant if it is global, an attribute otherwise. -/
def parameter (mode : Mode) (slot start components : Nat) : Need :=
  match mode with
  | .global => constants slot 1
  | .perParticle _ => stream slot start components

/-- The number of the parameter. -/
def slot : Need → Nat
  | constants slot _ => slot
  | stream slot _ _ => slot

@[simp] theorem slot_parameter (mode : Mode) (slot start components : Nat) :
    (parameter mode slot start components).slot = slot := by
  cases mode <;> rfl

end Need

/-! ### The ledger -/

/-- What is remembered of the attributes and constants that were taken. -/
structure Ledger where
  /-- The attributes in use. -/
  attributes : Nat
  /-- The constants in use. -/
  constants : Nat
  /-- The registers of the parameters, the newest first. -/
  indices : List ((NodeId × Nat) × Nat)
  /-- The attribute streams, in the order of their registers. -/
  bindings : List StreamBinding

namespace Ledger

/-- The ledger after a node has taken what it needs for a parameter. -/
def take (l : Ledger) (n : Node α) : Need → Ledger
  | .constants slot count =>
    { l with
      constants := l.constants + count
      indices := ((n.id, slot), l.constants) :: l.indices }
  | .stream slot start components =>
    { l with
      attributes := l.attributes + 1
      indices := ((n.id, slot), l.attributes) :: l.indices
      bindings := l.bindings ++
        [{ register := l.attributes, node := n.id
           buffer := (Compile.streamBase n.info).1
           offset := (Compile.streamBase n.info).2 + start
           components := components }] }

/-- The ledger after nodes have taken what they need. -/
def takeAll (l : Ledger) (needs : List (Node α × Need)) : Ledger :=
  needs.foldl (fun l need => l.take need.1 need.2) l

theorem takeAll_cons (l : Ledger) (n : Node α) (need : Need) (needs : List (Node α × Need)) :
    l.takeAll ((n, need) :: needs) = (l.take n need).takeAll needs := rfl

theorem takeAll_append (l : Ledger) (needs needs' : List (Node α × Need)) :
    l.takeAll (needs ++ needs') = (l.takeAll needs).takeAll needs' := List.foldl_append

end Ledger

namespace Compilation

/-- The ledger of a compilation. -/
def ledger (c : Compilation α) : Ledger where
  attributes := c.used.vertexAttributes
  constants := c.used.vertexConstants
  indices := c.indices
  bindings := c.bindings

/-- A state in which the needs of nodes were met, and nothing else was done. -/
structure Records (c c' : Compilation α) (needs : List (Node α × Need)) : Prop where
  /-- Only the use of the pools and what is remembered of it change. -/
  frame : c' = { c with used := c'.used, indices := c'.indices, bindings := c'.bindings }
  /-- The needs are entered in their order. -/
  ledger : c'.ledger = c.ledger.takeAll needs
  /-- Constants are taken within the profile. -/
  room : c.used.vertexConstants ≤ c.limit .vertexConstant →
    c'.used.vertexConstants ≤ c'.limit .vertexConstant
  /-- No varying is taken. -/
  varyings : c'.used.varyings = c.used.varyings

namespace Records

variable {c c' c'' : Compilation α} {needs needs' : List (Node α × Need)}

theorem refl (c : Compilation α) : c.Records c [] := ⟨rfl, rfl, id, rfl⟩

theorem trans (h : c.Records c' needs) (h' : c'.Records c'' needs') :
    c.Records c'' (needs ++ needs') := by
  refine ⟨?_, ?_, fun hroom => h'.room (h.room hroom), h'.varyings.trans h.varyings⟩
  · rw [h'.frame, h.frame]
  · rw [h'.ledger, h.ledger, Ledger.takeAll_append]

theorem features (h : c.Records c' needs) : c'.features = c.features := by rw [h.frame]

end Records

end Compilation

namespace Compile

open Compilation

variable {c c' : Compilation α} {r : Register} {n : Node α} {slot start components count : Nat}

theorem records_claimConstants (h : Leads (claimConstants n.info slot count) c r c') :
    c.Records c' [(n, .constants slot count)] := by
  obtain ⟨-, hroom, rfl⟩ := leads_claimConstants.mp h
  exact ⟨rfl, rfl, fun _ => hroom, rfl⟩

theorem records_bindStream (h : Leads (bindStream n.info slot start components) c r c') :
    c.Records c' [(n, .stream slot start components)] := by
  obtain ⟨-, -, rfl⟩ := leads_bindStream.mp h
  exact ⟨rfl, rfl, id, rfl⟩

theorem records_parameter (h : Leads (parameter n.info slot start components) c r c') :
    c.Records c' [(n, .parameter n.behavior.mode slot start components)] := by
  have hmode : n.info.mode = n.behavior.mode := rfl
  unfold parameter at h
  rw [hmode] at h
  cases hbehavior : n.behavior.mode with
  | global =>
    rw [hbehavior] at h
    exact records_claimConstants h
  | perParticle buffer =>
    rw [hbehavior] at h
    exact records_bindStream h

end Compile

/-! ### The needs of a behavior -/

namespace Behavior

/-- The needs of a part of a color, of which the values begin at `start`. -/
def partNeeds (mode : Mode) (startSlot deltaSlot start : Nat) : List Need :=
  [.parameter mode startSlot start 4, .parameter mode deltaSlot (start + 4) 4]

/-- The needs of a color animation: its cycle, and its parts. -/
def colorNeeds (animation : ColorAnimation α) : List Need :=
  (if animation.cycle.isSome then [.constants Slot.cycle 1] else []) ++
    (if animation.usesMultiplier then
      partNeeds animation.colors.mode Slot.startMultiplier Slot.deltaMultiplier 0 else []) ++
    (if animation.usesOffset then
      partNeeds animation.colors.mode Slot.startOffset Slot.deltaOffset
        (if animation.usesMultiplier then 8 else 0) else [])

/-- The needs of the vertex code of a catalogue node. -/
def vertexNeeds (features : Features) : Behavior α → List Need
  | .time _ => [.stream Slot.value 0 4, .constants Slot.frameTime 1]
  | .position value | .velocity value | .acceleration value =>
    [.parameter value.mode Slot.value 0 3]
  | .scale curve value => [.parameter value.mode Slot.value 0 curve.length]
  | .rotationalVelocity value => [.parameter value.mode Slot.value 0 4]
  | .rotateToHeading => if features.billboard then [.constants Slot.value 3] else []
  | .billboard _ => [.constants Slot.value 3]
  | .follow => [.stream Slot.value 0 3]
  | .color animation => if features.fragmentAnimation then colorNeeds animation else []
  | .uv _ _ | .spriteSheet _ | .custom _ => []

/-- The needs of the texture code of a node. -/
def uvNeeds [Scalar α] (features : Features) : Behavior α → List Need
  | .uv _ value => if features.uvAnimation then [.parameter value.mode Slot.value 0 2] else []
  | .spriteSheet sheet =>
    if features.uvAnimation then
      .constants Slot.value 1 ::
        if (sheetPhaseTime sheet).isSome then [.constants Slot.phase 1] else []
    else []
  | _ => []

/-- A stream reads values that a behavior keeps. -/
def Serves (b : Behavior α) : Need → Prop
  | .constants _ _ => True
  | .stream _ start components =>
    (∃ buffer, b.mode = .perParticle buffer) ∧ start + components ≤ b.length

theorem serves_parameter {b : Behavior α} {slot start components : Nat}
    (hlength : ∀ buffer, b.mode = .perParticle buffer → start + components ≤ b.length) :
    b.Serves (.parameter b.mode slot start components) := by
  cases hmode : b.mode with
  | global => exact trivial
  | perParticle buffer => exact ⟨⟨buffer, hmode⟩, hlength buffer hmode⟩

/-- The streams of a part of a color lie in the values of the color. -/
theorem serves_partNeeds {b : Behavior α} {wanted : Bool} {startSlot deltaSlot start : Nat}
    (hlength : ∀ buffer, b.mode = .perParticle buffer → wanted = true → start + 8 ≤ b.length) :
    ∀ need ∈ (if wanted then partNeeds b.mode startSlot deltaSlot start else []),
      b.Serves need := by
  cases wanted with
  | false => nofun
  | true =>
    simp only [if_true, partNeeds, List.forall_mem_cons]
    refine ⟨serves_parameter fun buffer hmode => ?_, serves_parameter fun buffer hmode => ?_, nofun⟩
    · have := hlength buffer hmode rfl
      omega
    · exact hlength buffer hmode rfl

theorem serves_colorNeeds (animation : ColorAnimation α) :
    ∀ need ∈ colorNeeds animation, (Behavior.color animation).Serves need := by
  have hlength : ∀ buffer, (Behavior.color animation).mode = .perParticle buffer →
      (Behavior.color animation).length =
        8 * (animation.usesMultiplier.toNat + animation.usesOffset.toNat) := by
    intro buffer hmode
    obtain ⟨_, _, _, colors⟩ := animation
    cases colors with
    | global => cases hmode
    | perParticle => rfl
  unfold colorNeeds
  rw [List.forall_mem_append, List.forall_mem_append]
  refine ⟨⟨?_, ?_⟩, ?_⟩
  · split
    · exact List.forall_mem_singleton.mpr trivial
    · exact nofun
  · refine serves_partNeeds (b := .color animation) fun buffer hmode hwanted => ?_
    rw [hlength buffer hmode, hwanted, Bool.toNat_true]
    omega
  · refine serves_partNeeds (b := .color animation) fun buffer hmode hwanted => ?_
    rw [hlength buffer hmode, hwanted, Bool.toNat_true]
    cases animation.usesMultiplier
    · exact Nat.le_refl 8
    · exact Nat.le_refl 16

/-- **Streams stay in their slice**: what vertex code reads of a buffer is kept by its node. -/
theorem serves_vertexNeeds (features : Features) (b : Behavior α) :
    ∀ need ∈ b.vertexNeeds features, b.Serves need := by
  cases b
  case color animation =>
    simp only [vertexNeeds]
    split
    · exact serves_colorNeeds animation
    · exact nofun
  case rotateToHeading =>
    simp only [vertexNeeds]
    split
    · exact List.forall_mem_singleton.mpr trivial
    · exact nofun
  case billboard axis => exact List.forall_mem_singleton.mpr trivial
  case time lifecycle =>
    exact List.forall_mem_cons.mpr
      ⟨⟨⟨_, rfl⟩, Nat.le_refl 4⟩, List.forall_mem_singleton.mpr trivial⟩
  case follow => exact List.forall_mem_singleton.mpr ⟨⟨_, rfl⟩, Nat.le_refl 3⟩
  case position | velocity | acceleration | scale | rotationalVelocity =>
    exact List.forall_mem_singleton.mpr
      (serves_parameter fun _ _ => Nat.le_of_eq (Nat.zero_add _))
  case uv | spriteSheet | custom => exact nofun

/-- What texture code reads of a buffer is kept by its node. -/
theorem serves_uvNeeds [Scalar α] (features : Features) (b : Behavior α) :
    ∀ need ∈ b.uvNeeds features, b.Serves need := by
  cases b
  case uv axis value =>
    simp only [uvNeeds]
    split
    · exact List.forall_mem_singleton.mpr
        (serves_parameter (b := .uv axis value) fun _ _ => Nat.le_refl 2)
    · exact nofun
  case spriteSheet sheet =>
    simp only [uvNeeds]
    split
    · refine List.forall_mem_cons.mpr ⟨trivial, ?_⟩
      split
      · exact List.forall_mem_singleton.mpr trivial
      · exact nofun
    · exact nofun
  all_goals exact nofun

/-- All needs of a behavior. -/
def needs [Scalar α] (features : Features) (b : Behavior α) : List Need :=
  b.vertexNeeds features ++ b.uvNeeds features

theorem nodup_slots_colorNeeds (animation : ColorAnimation α) :
    ((colorNeeds animation).map Need.slot).Nodup := by
  unfold colorNeeds partNeeds
  cases animation.cycle.isSome <;> cases animation.usesMultiplier <;>
    cases animation.usesOffset <;> simp <;> decide

/-- **No parameter is taken twice**: a behavior needs every one of its slots once. -/
theorem nodup_slots [Scalar α] (features : Features) (b : Behavior α) :
    ((b.needs features).map Need.slot).Nodup := by
  unfold needs
  cases b
  case color animation =>
    simp only [vertexNeeds, uvNeeds, List.append_nil]
    split
    · exact nodup_slots_colorNeeds animation
    · exact List.nodup_nil
  case rotateToHeading =>
    simp only [vertexNeeds, uvNeeds, List.append_nil]
    split
    · exact List.nodup_singleton _
    · exact List.nodup_nil
  case time lifecycle =>
    show [Slot.value, Slot.frameTime].Nodup
    decide
  case uv axis value =>
    simp only [vertexNeeds, uvNeeds, List.nil_append]
    split
    · exact List.nodup_singleton _
    · exact List.nodup_nil
  case spriteSheet sheet =>
    simp only [vertexNeeds, uvNeeds, List.nil_append]
    split
    · split <;> decide
    · exact List.nodup_nil
  case custom => exact List.nodup_nil
  all_goals exact List.nodup_singleton _

/-! ### The code of a node meets its needs -/

open Compile Compilation

variable {c c' : Compilation α} {n : Node α} {p : Program}

theorem records_timeCode {lifecycle : Lifecycle} (h : Leads (timeCode lifecycle n.info) c p c') :
    c.Records c' [(n, .stream Slot.value 0 4), (n, .constants Slot.frameTime 1)] := by
  obtain ⟨stream, c₁, now, hstream, hnow, -⟩ := leads_timeCode.mp h
  exact (records_bindStream hstream).trans (records_claimConstants hnow)

theorem records_headingCode (h : Leads (headingCode n.info) c p c') : c.Records c'
    (if c.features.billboard then [(n, .constants Slot.value 3)] else []) := by
  obtain ⟨shared, total, -, -, hheading⟩ := leads_headingCode.mp h
  split at hheading <;> rename_i hbillboard
  · obtain ⟨matrix, hmatrix, -⟩ := hheading
    rw [if_pos hbillboard]
    exact records_claimConstants hmatrix
  · obtain ⟨_, _, _, _, _, _, rfl, -⟩ := hheading
    rw [if_neg hbillboard]
    exact .refl c'

theorem records_blends {cycle : Option (Cycle α)} {shared : SharedRegisters} {temp : Nat}
    {blend : Register} {wave : Program} (h : Blends cycle n.info shared c temp blend wave c') :
    c.Records c' (if cycle.isSome then [(n, .constants Slot.cycle 1)] else []) := by
  cases cycle with
  | none =>
    obtain ⟨rfl, -⟩ := h
    exact .refl c'
  | some cycle =>
    obtain ⟨speed, _, _, hspeed, -⟩ := h
    exact records_claimConstants hspeed

/-- A part of a color takes what it needs where it is wanted. -/
theorem records_colorPart {wanted : Bool} {accumulator : ColorRegisters → Option Register}
    {startSlot deltaSlot start : Nat} {temp blend : Register}
    {join : Operand → Operand → Operand → Statement}
    (h : Leads (codeIf wanted
      (colorPartCode n.info accumulator startSlot deltaSlot start temp blend join)) c p c') :
    c.Records c' ((if wanted then partNeeds n.behavior.mode startSlot deltaSlot start else []).map
      (n, ·)) := by
  rw [leads_codeIf] at h
  cases wanted with
  | false =>
    obtain ⟨-, rfl⟩ := h
    exact .refl c'
  | true =>
    obtain ⟨_, first, c₁, delta, -, hfirst, hdelta, -⟩ := leads_colorPartCode.mp h
    exact (records_parameter hfirst).trans (records_parameter hdelta)

theorem records_colorCode {animation : ColorAnimation α} (hbehavior : n.behavior = .color animation)
    (h : Leads (colorCode animation n.info) c p c') : c.Records c'
      ((if c.features.fragmentAnimation then colorNeeds animation else []).map (n, ·)) := by
  have hmode : n.behavior.mode = animation.colors.mode := by rw [hbehavior]; rfl
  rw [leads_colorCode] at h
  split at h <;> rename_i hanimation
  · rw [if_pos hanimation]
    obtain ⟨shared, temp, blend, wave, c₁, parts, -, hblends, hparts, -⟩ := h
    obtain ⟨_, c₂, _, hmultiplier, hoffset, -⟩ := leads_colorPartsCode.mp hparts
    have hboth := ((records_blends hblends).trans (records_colorPart hmultiplier)).trans
      (records_colorPart hoffset)
    rw [hmode] at hboth
    unfold colorNeeds
    rw [List.map_append, List.map_append]
    cases hcycle : animation.cycle <;> rw [hcycle] at hboth <;> exact hboth
  · rw [if_neg hanimation]
    obtain ⟨-, rfl⟩ := h
    exact .refl c'

variable [Scalar α]

theorem records_uvScrollCode {axis : UvAxis} {value : Parameter (Vec2 α)}
    (hbehavior : n.behavior = .uv axis value) (h : Leads (uvScrollCode axis value n.info) c p c') :
    c.Records c' (((Behavior.uv axis value).uvNeeds c.features).map (n, ·)) := by
  have hmode : n.behavior.mode = value.mode := by rw [hbehavior]; rfl
  rw [leads_uvScrollCode] at h
  simp only [uvNeeds]
  split at h <;> rename_i hanimation
  · obtain ⟨_, -, _, hvalue, -⟩ := h
    rw [if_pos hanimation, ← hmode]
    exact records_parameter hvalue
  · obtain ⟨-, rfl⟩ := h
    rw [if_neg hanimation]
    exact .refl c'

theorem records_sheetPhaseCode {sheet : SpriteSheet α} {phase : Option Register}
    (h : Leads (sheetPhaseCode sheet n.info) c phase c') : c.Records c'
      ((if (sheetPhaseTime sheet).isSome then [Need.constants Slot.phase 1] else []).map
        (n, ·)) := by
  rw [leads_sheetPhaseCode] at h
  split at h <;> rename_i hshift
  · obtain ⟨_, hphase, -⟩ := h
    rw [if_pos hshift]
    exact records_claimConstants hphase
  · obtain ⟨-, rfl⟩ := h
    rw [if_neg hshift]
    exact .refl c'

theorem records_spriteSheetCode {sheet : SpriteSheet α}
    (h : Leads (spriteSheetCode sheet n.info) c p c') :
    c.Records c' (((Behavior.spriteSheet sheet).uvNeeds c.features).map (n, ·)) := by
  rw [leads_spriteSheetCode] at h
  simp only [uvNeeds]
  split at h <;> rename_i hanimation
  · obtain ⟨_, -, _, -, constants, c₁, hconstants, phase, hphase, -⟩ := h
    rw [if_pos hanimation]
    exact (records_claimConstants hconstants).trans (records_sheetPhaseCode hphase)
  · obtain ⟨-, rfl⟩ := h
    rw [if_neg hanimation]
    exact .refl c'

end Behavior

namespace Node

open Behavior Compile Compilation

variable {c c' : Compilation α} {n : Node α} {p : Program}

/-- The needs of the vertex code of a node. -/
def vertexNeeds (features : Features) (n : Node α) : List (Node α × Need) :=
  (n.behavior.vertexNeeds features).map (n, ·)

/-- The needs of the texture code of a node. -/
def uvNeeds [Scalar α] (features : Features) (n : Node α) : List (Node α × Need) :=
  (n.behavior.uvNeeds features).map (n, ·)

/-- All needs of a node. -/
def needs [Scalar α] (features : Features) (n : Node α) : List (Node α × Need) :=
  (n.behavior.needs features).map (n, ·)

/-- **What vertex code takes**: the needs of its node in their order, and nothing else. -/
theorem records_vertexCode (hcatalogue : n.behavior.IsCatalogue) (h : Leads n.vertexCode c p c') :
    c.Records c' (n.vertexNeeds c.features) := by
  unfold Node.vertexCode at h
  unfold Node.vertexNeeds
  cases hbehavior : n.behavior <;> rw [hbehavior] at h
  case time lifecycle => exact records_timeCode h
  case position value =>
    obtain ⟨_, hvalue, -⟩ := leads_positionCode.mp h
    have hrecords := records_parameter hvalue
    rwa [hbehavior] at hrecords
  case velocity value =>
    obtain ⟨_, hvalue, -⟩ := leads_velocityCode.mp h
    have hrecords := records_parameter hvalue
    rwa [hbehavior] at hrecords
  case acceleration value =>
    obtain ⟨_, hvalue, -⟩ := leads_accelerationCode.mp h
    have hrecords := records_parameter hvalue
    rwa [hbehavior] at hrecords
  case scale curve value =>
    obtain ⟨_, hvalue, -⟩ := leads_scaleCode.mp h
    have hrecords := records_parameter hvalue
    rwa [hbehavior] at hrecords
  case rotationalVelocity value =>
    obtain ⟨_, hvalue, -⟩ := leads_rotationalVelocityCode.mp h
    have hrecords := records_parameter hvalue
    rwa [hbehavior] at hrecords
  case rotateToHeading =>
    have hrecords := records_headingCode h
    unfold Behavior.vertexNeeds
    cases hbillboard : c.features.billboard <;> rw [hbillboard] at hrecords <;> exact hrecords
  case billboard axis =>
    obtain ⟨_, hmatrix, -⟩ := leads_billboardCode.mp h
    exact records_claimConstants hmatrix
  case follow =>
    obtain ⟨_, hvalue, -⟩ := leads_followCode.mp h
    exact records_bindStream hvalue
  case color animation => exact records_colorCode hbehavior h
  case custom node =>
    rw [hbehavior] at hcatalogue
    exact hcatalogue.elim
  case uv | spriteSheet =>
    obtain ⟨-, rfl⟩ := leads_result.mp h
    exact .refl c'

/-- **What texture code takes**: the needs of its node in their order, and nothing else. -/
theorem records_uvCode [Scalar α] (hcatalogue : n.behavior.IsCatalogue)
    (h : Leads n.uvCode c p c') : c.Records c' (n.uvNeeds c.features) := by
  unfold Node.uvCode at h
  unfold Node.uvNeeds
  cases hbehavior : n.behavior <;> rw [hbehavior] at h
  case uv axis value => exact records_uvScrollCode hbehavior h
  case spriteSheet sheet => exact records_spriteSheetCode h
  case custom node =>
    rw [hbehavior] at hcatalogue
    exact hcatalogue.elim
  all_goals
    obtain ⟨-, rfl⟩ := leads_result.mp h
    exact .refl c'

end Node

end ParticleShader
