import ParticleShader.Proofs.Compilation.Spending
import ParticleShader.Proofs.NodeSet.Built
import ParticleShader.Proofs.Node.Emission

/-!
# What nodes cost

How many registers of the pools the vertex code of a catalogue node takes and how
many temporaries it needs at once, by its behavior and the features that are on.
**`takes_vertexCode`** says that this is exact: with room for it the code can be
written, and nothing else can stand in the way.
-/

namespace ParticleShader

variable {α : Type}

namespace Behavior

/-- The registers of the animated parts of a color: each has a start and a difference. -/
def colorPartsDemand (animation : ColorAnimation α) : Demand :=
  let part := (Demand.parameter animation.colors.mode).plus (.parameter animation.colors.mode)
  (if animation.usesMultiplier then part else .none).plus
    (if animation.usesOffset then part else .none)

/-- The registers of a color animation: a constant for its cycle, and its parts. -/
def colorDemand (animation : ColorAnimation α) : Demand :=
  (if animation.cycle.isSome then Demand.of .vertexConstant 1 else .none).plus
    (colorPartsDemand animation)

/-- The registers of the pools that the vertex code of a behavior takes. -/
def demand (features : Features) : Behavior α → Demand
  | .time _ => (Demand.of .vertexAttribute 1).plus (.of .vertexConstant 1)
  | .position value | .velocity value | .acceleration value => .parameter value.mode
  | .scale _ value | .rotationalVelocity value => .parameter value.mode
  | .rotateToHeading => if features.billboard then .of .vertexConstant 3 else .none
  | .billboard _ => .of .vertexConstant 3
  | .follow => .of .vertexAttribute 1
  | .color animation => if features.fragmentAnimation then colorDemand animation else .none
  | .uv _ _ | .spriteSheet _ | .custom _ => .none

/-- The temporaries that the vertex code of a behavior needs at once. -/
def scratch (features : Features) : Behavior α → Nat
  | .time lifecycle => 1 + lifecycle.usesDuration.toNat
  | .velocity _ | .scale _ _ | .billboard _ => 1
  | .acceleration _ => 1 + features.velocity.toNat
  | .rotationalVelocity _ => 3
  | .rotateToHeading => if features.billboard then 2 else 5
  | .color animation =>
    if features.fragmentAnimation then 1 + animation.cycle.isSome.toNat else 0
  | .position _ | .follow | .uv _ _ | .spriteSheet _ | .custom _ => 0

end Behavior

/-- Everything that the code of a behavior relies on has been shared out. -/
structure Compilation.Ready (c : Compilation α) (b : Behavior α) : Prop where
  /-- The shared registers are there, with a velocity if it is accumulated. -/
  shared : ∃ shared, c.shared? = .ok shared ∧ shared.velocity.isSome = c.features.velocity
  /-- The velocity is accumulated for a behavior that needs it. -/
  velocity : b.raised.velocity = true → c.features.velocity = true
  /-- There is an accumulator for the multiplier of a color. -/
  multiplier : c.features.fragmentAnimation = true → b.raised.colorMultiplier = true →
    c.color.multiplier.isSome
  /-- There is an accumulator for the offset of a color. -/
  offset : c.features.fragmentAnimation = true → b.raised.colorOffset = true →
    c.color.offset.isSome

namespace Compilation

variable {c c' : Compilation α} {b : Behavior α} {d : Demand}

theorem Ready.grows (h : c.Ready b) (hgrows : c.Grows c' d) : c'.Ready b := by
  refine ⟨?_, ?_, ?_, ?_⟩ <;> simp only [hgrows.features, hgrows.shared?, hgrows.color]
  · exact h.shared
  · exact h.velocity
  · exact h.multiplier
  · exact h.offset

end Compilation

namespace Behavior

open Compile Compilation

variable {c : Compilation α} {info : NodeInfo} {shared : SharedRegisters}

theorem exists_endingCode {lifecycle : Lifecycle} {stream : Register} :
    (∃ p, Leads (endingCode lifecycle shared stream) c p c) ↔
      lifecycle.usesDuration.toNat ≤ c.free.length := by
  simp only [leads_endingCode]
  cases lifecycle.usesDuration <;> cases c.free <;> simp

theorem exists_speedCode {way : Register} :
    (∃ p, Leads (speedCode shared way) c p c) ↔
      shared.velocity.isSome.toNat ≤ c.free.length := by
  simp only [leads_speedCode]
  cases shared.velocity <;> cases c.free <;> simp

/-- The parameters of the node that keeps time. -/
theorem takes_timeParameters : Takes (do
      let stream ← bindStream info Slot.value 0 4
      let now ← claimConstants info Slot.frameTime 1
      return (stream, now)) c ((Demand.of .vertexAttribute 1).plus (.of .vertexConstant 1)) 0 :=
  (takes_bindStream info Slot.value 0 4).bind fun stream _ _ =>
    (takes_claimConstants info Slot.frameTime Nat.one_pos).bind fun now _ _ =>
      takes_pure (stream, now)

theorem takes_timeCode {lifecycle : Lifecycle} (hshared : c.shared? = .ok shared) :
    Takes (timeCode lifecycle info) c ((Demand.of .vertexAttribute 1).plus (.of .vertexConstant 1))
      (1 + lifecycle.usesDuration.toNat) := by
  have hcode : ∀ p c', Leads (timeCode lifecycle info) c p c' ↔ ∃ values : Register × Register,
      Leads (do
        let stream ← bindStream info Slot.value 0 4
        let now ← claimConstants info Slot.frameTime 1
        return (stream, now)) c values c' ∧ ∃ shared started rest ending,
        c'.shared? = .ok shared ∧ c'.free = started :: rest ∧
        Leads (endingCode lifecycle shared values.1) (c'.claiming started) ending
          (c'.claiming started) ∧
        p = startProgram shared values.1 values.2 (Register.temporary started).x ++ ending ++
          lifeProgram shared values.1 := by
    intro p c'
    simp only [leads_bind (x := bindStream info Slot.value 0 4),
      leads_bind (x := claimConstants info Slot.frameTime 1), leads_pure, leads_timeCode]
    constructor
    · rintro ⟨stream, c₁, now, hstream, hnow, h⟩
      exact ⟨(stream, now), ⟨stream, c₁, hstream, now, c', hnow, rfl, rfl⟩, h⟩
    · rintro ⟨_, ⟨stream, c₁, hstream, now, _, hnow, rfl, rfl⟩, h⟩
      exact ⟨stream, c₁, now, hstream, hnow, h⟩
  refine takes_timeParameters.of_leads hcode fun values c' hgrows => ?_
  rw [hgrows.shared?, hgrows.free, hshared]
  cases hfree : c.free with
  | nil => simp
  | cons started rest =>
    have hrest := free_claiming_head (hgrows.free.trans hfree)
    have hending : (∃ p, Leads (endingCode lifecycle shared values.1) (c'.claiming started) p
        (c'.claiming started)) ↔ _ := exists_endingCode
    rw [hrest] at hending
    simp [hending]
    omega

theorem takes_positionCode (hshared : c.shared? = .ok shared) :
    Takes (positionCode info) c (.parameter info.mode) 0 := by
  refine (takes_parameter info Slot.value 0 3).of_leads (fun _ _ => leads_positionCode)
    fun value c' hgrows => ?_
  simp [hgrows.shared?, hshared]

theorem takes_velocityCode (hshared : c.shared? = .ok shared) :
    Takes (velocityCode info) c (.parameter info.mode) 1 := by
  refine (takes_parameter info Slot.value 0 3).of_leads (fun _ _ => leads_velocityCode)
    fun value c' hgrows => ?_
  rw [hgrows.shared?, hgrows.free, hshared]
  cases c.free <;> simp

theorem takes_accelerationCode (hshared : c.shared? = .ok shared) :
    Takes (accelerationCode info) c (.parameter info.mode) (1 + shared.velocity.isSome.toNat) := by
  refine (takes_parameter info Slot.value 0 3).of_leads (fun _ _ => leads_accelerationCode)
    fun value c' hgrows => ?_
  rw [hgrows.shared?, hgrows.free, hshared]
  cases hfree : c.free with
  | nil => simp
  | cons way rest =>
    have hrest := free_claiming_head (hgrows.free.trans hfree)
    have hspeed : (∃ p, Leads (speedCode shared (.temporary way)) (c'.claiming way) p
        (c'.claiming way)) ↔ _ := exists_speedCode
    rw [hrest] at hspeed
    simp [hspeed]
    omega

theorem takes_scaleCode {curve : ScaleCurve} (hshared : c.shared? = .ok shared) :
    Takes (scaleCode curve info) c (.parameter info.mode) 1 := by
  refine (takes_parameter info Slot.value 0 curve.length).of_leads (fun _ _ => leads_scaleCode)
    fun value c' hgrows => ?_
  rw [hgrows.shared?, hgrows.free, hshared]
  cases c.free <;> simp

theorem takes_rotationalVelocityCode (hshared : c.shared? = .ok shared) :
    Takes (rotationalVelocityCode info) c (.parameter info.mode) 3 := by
  refine (takes_parameter info Slot.value 0 4).of_leads (fun _ _ => leads_rotationalVelocityCode)
    fun value c' hgrows => ?_
  rw [hgrows.shared?, hgrows.free, hshared]
  rcases c.free with _ | ⟨_, _ | ⟨_, _ | ⟨_, _⟩⟩⟩ <;> simp

theorem takes_billboardCode (hshared : c.shared? = .ok shared) :
    Takes (billboardCode info) c (.of .vertexConstant 3) 1 := by
  refine (takes_claimConstants info Slot.value (Nat.succ_pos 2)).of_leads
    (fun _ _ => leads_billboardCode) fun value c' hgrows => ?_
  rw [hgrows.shared?, hgrows.free, hshared]
  cases c.free <;> simp

theorem takes_followCode (hshared : c.shared? = .ok shared) :
    Takes (followCode info) c (.of .vertexAttribute 1) 0 := by
  refine (takes_bindStream info Slot.value 0 3).of_leads (fun _ _ => leads_followCode)
    fun value c' hgrows => ?_
  simp [hgrows.shared?, hshared]

theorem takes_headingCode (hshared : c.shared? = .ok shared)
    (hvelocity : shared.velocity.isSome = true) :
    Takes (headingCode info) c (if c.features.billboard then .of .vertexConstant 3 else .none)
      (if c.features.billboard then 2 else 5) := by
  obtain ⟨total, htotal⟩ := Option.isSome_iff_exists.mp hvelocity
  cases hbillboard : c.features.billboard with
  | true =>
    have hcode : ∀ p c', Leads (headingCode info) c p c' ↔ ∃ matrix,
        Leads (claimConstants info Slot.value 3) c matrix c' ∧ ∃ heading temp rest,
          c'.free = heading :: temp :: rest ∧
          p = screenHeadingProgram shared total matrix (.temporary heading) (.temporary temp) := by
      simp [leads_headingCode, hshared, htotal, hbillboard]
    refine (takes_claimConstants info Slot.value (Nat.succ_pos 2)).of_leads hcode
      fun matrix c' hgrows => ?_
    rw [hgrows.free]
    rcases c.free with _ | ⟨_, _ | ⟨_, _⟩⟩ <;> simp
  | false =>
    have hcode : ∀ p c', Leads (headingCode info) c p c' ↔ c' = c ∧
        ∃ heading side up sum temp rest, c.free = heading :: side :: up :: sum :: temp :: rest ∧
          p = spaceHeadingProgram shared total (.temporary heading) (.temporary side)
            (.temporary up) (.temporary sum) (.temporary temp) := by
      simp [leads_headingCode, hshared, htotal, hbillboard]
    refine takes_of_stays hcode ?_
    rcases c.free with _ | ⟨_, _ | ⟨_, _ | ⟨_, _ | ⟨_, _ | ⟨_, _⟩⟩⟩⟩⟩ <;> simp

/-! ### Colors -/

theorem takes_colorPartCode {accumulator : ColorRegisters → Option Register}
    {startSlot deltaSlot start : Nat} {temp blend : Register}
    {join : Operand → Operand → Operand → Statement} (h : (accumulator c.color).isSome = true) :
    Takes (colorPartCode info accumulator startSlot deltaSlot start temp blend join) c
      ((Demand.parameter info.mode).plus (.parameter info.mode)) 0 := by
  obtain ⟨target, htarget⟩ := Option.isSome_iff_exists.mp h
  refine takes_get_bind ?_
  rw [htarget]
  exact (takes_parameter info startSlot start 4).bind fun first _ _ =>
    (takes_parameter info deltaSlot (start + 4) 4).bind fun delta _ _ => takes_pure _

theorem takes_codeIf {wanted : Bool} {code : Compile α Program} {d : Demand}
    (h : wanted = true → Takes code c d 0) :
    Takes (codeIf wanted code) c (if wanted then d else .none) 0 := by
  cases wanted with
  | true => exact h rfl
  | false => exact takes_pure []

theorem takes_colorPartsCode {animation : ColorAnimation α} {temp blend : Register}
    (hmultiplier : animation.usesMultiplier = true → c.color.multiplier.isSome = true)
    (hoffset : animation.usesOffset = true → c.color.offset.isSome = true)
    (hmode : info.mode = animation.colors.mode) :
    Takes (colorPartsCode animation info temp blend) c (colorPartsDemand animation) 0 := by
  unfold colorPartsDemand
  rw [← hmode]
  refine (takes_codeIf fun hwanted => takes_colorPartCode (hmultiplier hwanted)).bind
    fun multiplier c' hgrows => ?_
  rw [← hgrows.color] at hoffset
  exact (takes_codeIf fun hwanted => takes_colorPartCode (hoffset hwanted)).bind
    fun offset _ _ => takes_pure _

/-- A color without a cycle is blended by the life. -/
theorem leads_colorCode_life {animation : ColorAnimation α} {p : Program} {c' : Compilation α}
    {temp : Nat} {rest : List Nat} (hanimation : c.features.fragmentAnimation = true)
    (hshared : c.shared? = .ok shared) (hfree : c.free = temp :: rest)
    (hcycle : animation.cycle = none) :
    Leads (colorCode animation info) c p c' ↔
      Leads (colorPartsCode animation info (.temporary temp) shared.life) c p c' := by
  rw [leads_colorCode, if_pos hanimation, hcycle]
  constructor
  · rintro ⟨_, _, _, _, _, parts, hshared', ⟨rfl, ⟨_, htemp⟩, rfl, rfl⟩, hcode, hp⟩
    cases hshared.symm.trans hshared'
    cases hfree.symm.trans htemp
    rwa [hp]
  · intro hcode
    exact ⟨shared, temp, _, _, c, p, hshared, ⟨rfl, ⟨rest, hfree⟩, rfl, rfl⟩, hcode, rfl⟩

/-- A color in a cycle is blended by a wave, which has a temporary of its own. -/
theorem leads_colorCode_wave {animation : ColorAnimation α} {cycle : Cycle α} {p : Program}
    {c' : Compilation α} {temp index : Nat} {rest : List Nat}
    (hanimation : c.features.fragmentAnimation = true) (hshared : c.shared? = .ok shared)
    (hfree : c.free = temp :: index :: rest) (hcycle : animation.cycle = some cycle) :
    Leads (colorCode animation info) c p c' ↔ ∃ values : Register × Program,
      Leads (do
        let speed ← claimConstants info Slot.cycle 1
        let parts ← colorPartsCode animation info (.temporary temp) (Register.temporary index).x
        return (speed, parts)) c values c' ∧
        p = waveProgram cycle shared values.1 (Register.temporary index).x ++ values.2 := by
  rw [leads_colorCode, if_pos hanimation, hcycle]
  simp only [leads_bind (x := claimConstants info Slot.cycle 1),
    leads_bind (x := colorPartsCode _ _ _ _), leads_pure]
  constructor
  · rintro ⟨_, _, _, _, c₁, parts, hshared', ⟨speed, _, _, hspeed, htemp, rfl, rfl⟩, hcode, rfl⟩
    cases hshared.symm.trans hshared'
    cases hfree.symm.trans htemp
    exact ⟨(speed, parts), ⟨speed, c₁, hspeed, parts, c', hcode, rfl, rfl⟩, rfl⟩
  · rintro ⟨_, ⟨speed, c₁, hspeed, parts, _, hcode, rfl, rfl⟩, rfl⟩
    exact ⟨shared, temp, _, _, c₁, parts, hshared, ⟨speed, index, rest, hspeed, hfree, rfl, rfl⟩,
      hcode, rfl⟩

theorem takes_colorCode {animation : ColorAnimation α} (hready : c.Ready (.color animation))
    (hmode : info.mode = animation.colors.mode) :
    Takes (colorCode animation info) c
      (if c.features.fragmentAnimation then colorDemand animation else .none)
      (if c.features.fragmentAnimation then 1 + animation.cycle.isSome.toNat else 0) := by
  obtain ⟨shared, hshared, -⟩ := hready.shared
  cases hanimation : c.features.fragmentAnimation with
  | false =>
    have hcode : ∀ p c', Leads (colorCode animation info) c p c' ↔ c' = c ∧ p = [] := by
      simp [leads_colorCode, hanimation, and_comm]
    exact takes_of_stays hcode (by simp)
  | true =>
    have hparts : ∀ (c₁ : Compilation α) (d : Demand) (temp blend : Register), c.Grows c₁ d →
        Takes (colorPartsCode animation info temp blend) c₁ (colorPartsDemand animation) 0 := by
      intro c₁ d temp blend hgrows
      refine takes_colorPartsCode ?_ ?_ hmode <;> rw [hgrows.color]
      · exact hready.multiplier hanimation
      · exact hready.offset hanimation
    unfold colorDemand
    have hblends : ∀ {p c'}, Leads (colorCode animation info) c p c' →
        ∃ shared temp blend wave c₁, Blends animation.cycle info shared c temp blend wave c₁ := by
      intro p c' h
      rw [leads_colorCode, if_pos hanimation] at h
      obtain ⟨shared, temp, blend, wave, c₁, _, -, hblend, -⟩ := h
      exact ⟨shared, temp, blend, wave, c₁, hblend⟩
    cases hcycle : animation.cycle with
    | none =>
      simp only [Option.isSome_none, Bool.false_eq_true, if_false, if_true, Demand.none_plus,
        Bool.toNat_false]
      cases hfree : c.free with
      | nil =>
        refine takes_of_refuses (fun p c' h => ?_) (by simp [hfree])
        obtain ⟨_, _, _, _, _, hblend⟩ := hblends h
        obtain ⟨_, htemp⟩ := hblend.free
        simp [hfree] at htemp
      | cons temp rest =>
        have hcode : ∀ p c', Leads (colorCode animation info) c p c' ↔ ∃ parts,
            Leads (colorPartsCode animation info (.temporary temp) shared.life) c parts c' ∧
              p = parts := by
          simp [leads_colorCode_life hanimation hshared hfree hcycle]
        refine (hparts c .none (.temporary temp) shared.life (.refl c)).of_leads hcode
          fun parts c' _ => ?_
        simp [hfree]
    | some cycle =>
      simp only [Option.isSome_some, if_true, Bool.toNat_true]
      rw [hcycle] at hblends
      rcases hfree : c.free with _ | ⟨temp, _ | ⟨index, rest⟩⟩
      · refine takes_of_refuses (fun p c' h => ?_) (by simp [hfree])
        obtain ⟨_, _, _, _, _, _, _, _, -, htemp, -⟩ := hblends h
        simp [hfree] at htemp
      · refine takes_of_refuses (fun p c' h => ?_) (by simp [hfree])
        obtain ⟨_, _, _, _, _, _, _, _, -, htemp, -⟩ := hblends h
        simp [hfree] at htemp
      · refine ((takes_claimConstants info Slot.cycle Nat.one_pos).bind fun speed c₁ hgrows =>
          (hparts c₁ _ _ _ hgrows).bind fun parts _ _ => takes_pure (speed, parts)).of_leads
            (fun p c' => leads_colorCode_wave hanimation hshared hfree hcycle) fun values c' _ => ?_
        simp [hfree]

end Behavior

namespace Node

open Compile Compilation Behavior

variable {c : Compilation α}

/-- **The cost of a node**: where everything that a catalogue node relies on has been
shared out, its code can be written exactly if there is room for its demand and for
its scratch temporaries. -/
theorem takes_vertexCode {n : Node α} (hcatalogue : n.behavior.IsCatalogue)
    (hready : c.Ready n.behavior) :
    Takes n.vertexCode c (n.behavior.demand c.features) (n.behavior.scratch c.features) := by
  obtain ⟨shared, hshared, hvelocity⟩ := hready.shared
  obtain ⟨behavior, id, offset, dynamicOffset⟩ := n
  cases behavior with
  | time lifecycle => exact takes_timeCode hshared
  | position value => exact takes_positionCode hshared
  | velocity value => exact takes_velocityCode hshared
  | acceleration value =>
    unfold scratch
    rw [← hvelocity]
    exact takes_accelerationCode hshared
  | scale curve value => exact takes_scaleCode hshared
  | rotationalVelocity value => exact takes_rotationalVelocityCode hshared
  | rotateToHeading =>
    exact takes_headingCode hshared (hvelocity.trans (hready.velocity rfl))
  | billboard axis => exact takes_billboardCode hshared
  | follow => exact takes_followCode hshared
  | uv axis value => exact takes_pure []
  | spriteSheet sheet => exact takes_pure []
  | color animation => exact takes_colorCode hready rfl
  | custom node => exact hcatalogue.elim

end Node

end ParticleShader
