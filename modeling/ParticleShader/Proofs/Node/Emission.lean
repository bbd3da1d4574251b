import ParticleShader.Node.UvCode
import ParticleShader.Proofs.Compilation.Pools

/-!
# What nodes emit

When the code of a node of the catalogue can be written, which program it is, and
which registers it works on. All scratch temporaries are given back, so afterwards
only the pools and what is remembered of them differ. One lemma for each code: the
parameters that are taken, the temporaries that are free, the program.
-/

namespace ParticleShader

namespace Behavior

open Compile Compilation

variable {α : Type} {c c' : Compilation α} {info : NodeInfo} {p : Program}

theorem leads_positionCode : Leads (positionCode info) c p c' ↔
    ∃ value, Leads (parameter info Slot.value 0 3) c value c' ∧ ∃ shared,
      c'.shared? = .ok shared ∧ p = positionProgram shared value := by
  simp only [positionCode, leads_bind, leads_shared, leads_pure]
  constructor
  · rintro ⟨value, _, hvalue, shared, _, ⟨hshared, rfl⟩, rfl, rfl⟩
    exact ⟨value, hvalue, shared, hshared, rfl⟩
  · rintro ⟨value, hvalue, shared, hshared, rfl⟩
    exact ⟨value, _, hvalue, shared, _, ⟨hshared, rfl⟩, rfl, rfl⟩

theorem leads_velocityCode : Leads (velocityCode info) c p c' ↔
    ∃ value, Leads (parameter info Slot.value 0 3) c value c' ∧ ∃ shared way rest,
      c'.shared? = .ok shared ∧ c'.free = way :: rest ∧
      p = velocityProgram shared value (.temporary way) := by
  unfold velocityCode
  rw [leads_bind]
  simp only [leads_shared_bind, leads_scratch, leads_pure]
  constructor
  · rintro ⟨value, c', hvalue, shared, hshared, way, rest, hfree, rfl, rfl⟩
    exact ⟨value, hvalue, shared, way, rest, hshared, hfree, rfl⟩
  · rintro ⟨value, hvalue, shared, way, rest, hshared, hfree, rfl⟩
    exact ⟨value, _, hvalue, shared, hshared, way, rest, hfree, rfl, rfl⟩

theorem leads_speedCode {shared : SharedRegisters} {way : Register} :
    Leads (speedCode shared way) c p c' ↔ c' = c ∧
      match shared.velocity with
      | none => p = []
      | some total => ∃ doubled rest, c.free = doubled :: rest ∧
        p = speedProgram shared total way (.temporary doubled) := by
  unfold speedCode
  cases shared.velocity with
  | none =>
    exact leads_result.trans and_comm
  | some total =>
    simp only [leads_scratch, leads_pure]
    constructor
    · rintro ⟨doubled, rest, hfree, rfl, rfl⟩
      exact ⟨rfl, doubled, rest, hfree, rfl⟩
    · rintro ⟨rfl, doubled, rest, hfree, rfl⟩
      exact ⟨doubled, rest, hfree, rfl, rfl⟩

theorem leads_accelerationCode : Leads (accelerationCode info) c p c' ↔
    ∃ value, Leads (parameter info Slot.value 0 3) c value c' ∧ ∃ shared way rest speed,
      c'.shared? = .ok shared ∧ c'.free = way :: rest ∧
      Leads (speedCode shared (.temporary way)) (c'.claiming way) speed (c'.claiming way) ∧
      p = accelerationProgram shared value (.temporary way) speed := by
  unfold accelerationCode
  rw [leads_bind]
  simp only [leads_shared_bind, leads_acquire_bind]
  constructor
  · rintro ⟨value, c₁, hvalue, shared, hshared, way, rest, hfree, h⟩
    obtain ⟨speed, c₂, hspeed, h⟩ := leads_bind.mp h
    obtain ⟨rfl, -⟩ := leads_speedCode.mp hspeed
    rw [leads_release_temporary, leads_pure] at h
    obtain ⟨rfl, rfl⟩ := h
    exact ⟨value, hvalue, shared, way, rest, speed, hshared, hfree, hspeed, rfl⟩
  · rintro ⟨value, hvalue, shared, way, rest, speed, hshared, hfree, hspeed, rfl⟩
    refine ⟨value, c', hvalue, shared, hshared, way, rest, hfree, leads_bind.mpr ⟨_, _, hspeed, ?_⟩⟩
    rw [leads_release_temporary, leads_pure]
    exact ⟨rfl, rfl⟩

theorem leads_endingCode {lifecycle : Lifecycle} {shared : SharedRegisters} {stream : Register} :
    Leads (endingCode lifecycle shared stream) c p c' ↔ c' = c ∧
      if lifecycle.usesDuration then ∃ factor rest, c.free = factor :: rest ∧
        p = endingProgram lifecycle shared stream (Register.temporary factor).x
      else p = [] := by
  unfold endingCode
  split
  · simp only [leads_scratchScalar, leads_pure]
    constructor
    · rintro ⟨factor, rest, hfree, rfl, rfl⟩
      exact ⟨rfl, factor, rest, hfree, rfl⟩
    · rintro ⟨rfl, factor, rest, hfree, rfl⟩
      exact ⟨factor, rest, hfree, rfl, rfl⟩
  · exact leads_result.trans and_comm

theorem leads_timeCode {lifecycle : Lifecycle} : Leads (timeCode lifecycle info) c p c' ↔
    ∃ stream c₁ now, Leads (bindStream info Slot.value 0 4) c stream c₁ ∧
      Leads (claimConstants info Slot.frameTime 1) c₁ now c' ∧ ∃ shared started rest ending,
      c'.shared? = .ok shared ∧ c'.free = started :: rest ∧
      Leads (endingCode lifecycle shared stream) (c'.claiming started) ending
        (c'.claiming started) ∧
      p = startProgram shared stream now (Register.temporary started).x ++ ending ++
        lifeProgram shared stream := by
  unfold timeCode
  rw [leads_bind]
  simp only [leads_bind (x := claimConstants info Slot.frameTime 1), leads_shared_bind,
    leads_acquireScalar_bind]
  constructor
  · rintro ⟨stream, c₁, hstream, now, c₂, hnow, shared, hshared, started, rest, hfree, h⟩
    obtain ⟨ending, c₃, hending, h⟩ := leads_bind.mp h
    obtain ⟨rfl, -⟩ := leads_endingCode.mp hending
    rw [leads_release_x, leads_pure] at h
    obtain ⟨rfl, rfl⟩ := h
    exact ⟨stream, c₁, now, hstream, hnow, shared, started, rest, ending, hshared, hfree, hending,
      rfl⟩
  · rintro ⟨stream, c₁, now, hstream, hnow, shared, started, rest, ending, hshared, hfree,
      hending, rfl⟩
    refine ⟨stream, c₁, hstream, now, c', hnow, shared, hshared, started, rest, hfree,
      leads_bind.mpr ⟨_, _, hending, ?_⟩⟩
    rw [leads_release_x, leads_pure]
    exact ⟨rfl, rfl⟩

theorem leads_scaleCode {curve : ScaleCurve} : Leads (scaleCode curve info) c p c' ↔
    ∃ value, Leads (parameter info Slot.value 0 curve.length) c value c' ∧ ∃ shared factor rest,
      c'.shared? = .ok shared ∧ c'.free = factor :: rest ∧
      p = scaleProgram curve shared value (Register.temporary factor).x := by
  unfold scaleCode
  rw [leads_bind]
  simp only [leads_shared_bind, leads_scratchScalar, leads_pure]
  constructor
  · rintro ⟨value, c', hvalue, shared, hshared, factor, rest, hfree, rfl, rfl⟩
    exact ⟨value, hvalue, shared, factor, rest, hshared, hfree, rfl⟩
  · rintro ⟨value, hvalue, shared, factor, rest, hshared, hfree, rfl⟩
    exact ⟨value, _, hvalue, shared, hshared, factor, rest, hfree, rfl, rfl⟩

theorem leads_rotationalVelocityCode : Leads (rotationalVelocityCode info) c p c' ↔
    ∃ value, Leads (parameter info Slot.value 0 4) c value c' ∧
      ∃ shared angle cross parallel rest, c'.shared? = .ok shared ∧
      c'.free = angle :: cross :: parallel :: rest ∧
      p = rotationalVelocityProgram shared value (.temporary angle) (.temporary cross)
        (.temporary parallel) := by
  unfold rotationalVelocityCode
  rw [leads_bind]
  simp only [leads_shared_bind, leads_acquire_bind, leads_release_temporary, leads_pure]
  constructor
  · rintro ⟨value, c', hvalue, shared, hshared, angle, _, hangle, cross, _, hcross, parallel, rest,
      hparallel, rfl, rfl⟩
    rw [free_claiming_head hangle] at hcross
    subst hcross
    rw [free_claiming_head (free_claiming_head hangle)] at hparallel
    subst hparallel
    exact ⟨value, hvalue, shared, angle, cross, parallel, rest, hshared, hangle, rfl⟩
  · rintro ⟨value, hvalue, shared, angle, cross, parallel, rest, hshared, hfree, rfl⟩
    have hcross := free_claiming_head hfree
    exact ⟨value, c', hvalue, shared, hshared, angle, _, hfree, cross, _, hcross, parallel, rest,
      free_claiming_head hcross, rfl, rfl⟩

theorem leads_headingCode : Leads (headingCode info) c p c' ↔
    ∃ shared total, c.shared? = .ok shared ∧ shared.velocity = some total ∧
      if c.features.billboard then
        ∃ matrix, Leads (claimConstants info Slot.value 3) c matrix c' ∧ ∃ heading temp rest,
          c'.free = heading :: temp :: rest ∧
          p = screenHeadingProgram shared total matrix (.temporary heading) (.temporary temp)
      else
        ∃ heading side up sum temp rest, c' = c ∧
          c.free = heading :: side :: up :: sum :: temp :: rest ∧
          p = spaceHeadingProgram shared total (.temporary heading) (.temporary side)
            (.temporary up) (.temporary sum) (.temporary temp) := by
  unfold headingCode
  rw [leads_shared_bind]
  refine exists_congr fun shared => ?_
  cases shared.velocity with
  | none => simp
  | some total =>
    simp only [leads_has_bind]
    cases c.features.billboard with
    | true =>
      simp only [if_true]
      rw [leads_bind]
      simp only [leads_acquire_bind, leads_release_temporary, leads_pure]
      constructor
      · rintro ⟨hshared, matrix, c', hmatrix, heading, _, hheading, temp, rest, htemp, rfl, rfl⟩
        obtain rfl := (free_claiming_head hheading).symm.trans htemp
        exact ⟨total, hshared, rfl, matrix, hmatrix, heading, temp, rest, hheading, rfl⟩
      · rintro ⟨_, hshared, htotal, matrix, hmatrix, heading, temp, rest, hfree, rfl⟩
        cases htotal
        exact ⟨hshared, matrix, c', hmatrix, heading, _, hfree, temp, rest,
          free_claiming_head hfree, rfl, rfl⟩
    | false =>
      simp only [Bool.false_eq_true, if_false, List.forM_eq_forM, List.forM_cons,
        List.forM_nil, bind_assoc, pure_bind]
      simp only [leads_acquire_bind, leads_release_temporary, leads_pure]
      constructor
      · rintro ⟨hshared, heading, _, hheading, side, _, hside, up, _, hup, sum, _, hsum, temp, rest,
          htemp, rfl, rfl⟩
        obtain rfl := (free_claiming_head hsum).symm.trans htemp
        obtain rfl := (free_claiming_head hup).symm.trans hsum
        obtain rfl := (free_claiming_head hside).symm.trans hup
        obtain rfl := (free_claiming_head hheading).symm.trans hside
        exact ⟨total, hshared, rfl, heading, side, up, sum, temp, rest, rfl, hheading, rfl⟩
      · rintro ⟨_, hshared, htotal, heading, side, up, sum, temp, rest, rfl, hheading, rfl⟩
        cases htotal
        have hside := free_claiming_head hheading
        have hup := free_claiming_head hside
        have hsum := free_claiming_head hup
        exact ⟨hshared, heading, _, hheading, side, _, hside, up, _, hup, sum, _, hsum, temp, rest,
          free_claiming_head hsum, rfl, rfl⟩

theorem leads_billboardCode : Leads (billboardCode info) c p c' ↔
    ∃ matrix, Leads (claimConstants info Slot.value 3) c matrix c' ∧ ∃ shared temp rest,
      c'.shared? = .ok shared ∧ c'.free = temp :: rest ∧
      p = billboardProgram shared matrix (.temporary temp) := by
  unfold billboardCode
  rw [leads_bind]
  simp only [leads_shared_bind, leads_scratch, leads_pure]
  constructor
  · rintro ⟨matrix, c', hmatrix, shared, hshared, temp, rest, hfree, rfl, rfl⟩
    exact ⟨matrix, hmatrix, shared, temp, rest, hshared, hfree, rfl⟩
  · rintro ⟨matrix, hmatrix, shared, temp, rest, hshared, hfree, rfl⟩
    exact ⟨matrix, _, hmatrix, shared, hshared, temp, rest, hfree, rfl, rfl⟩

theorem leads_followCode : Leads (followCode info) c p c' ↔
    ∃ value, Leads (bindStream info Slot.value 0 3) c value c' ∧ ∃ shared,
      c'.shared? = .ok shared ∧ p = followProgram shared value := by
  simp only [followCode, leads_bind, leads_shared, leads_pure]
  constructor
  · rintro ⟨value, _, hvalue, shared, _, ⟨hshared, rfl⟩, rfl, rfl⟩
    exact ⟨value, hvalue, shared, hshared, rfl⟩
  · rintro ⟨value, hvalue, shared, hshared, rfl⟩
    exact ⟨value, _, hvalue, shared, _, ⟨hshared, rfl⟩, rfl, rfl⟩

/-! ### Colors -/

variable {join : Operand → Operand → Operand → Statement} {temp blend : Register}

theorem leads_colorPartCode {accumulator : ColorRegisters → Option Register}
    {startSlot deltaSlot start : Nat} :
    Leads (colorPartCode info accumulator startSlot deltaSlot start temp blend join) c p c' ↔
      ∃ target first c₁ delta, accumulator c.color = some target ∧
        Leads (parameter info startSlot start 4) c first c₁ ∧
        Leads (parameter info deltaSlot (start + 4) 4) c₁ delta c' ∧
        p = colorPartProgram join target first delta temp blend := by
  unfold colorPartCode
  rw [leads_get_bind]
  cases accumulator c.color with
  | none => simp
  | some target =>
    simp only [leads_bind, leads_pure, Option.some.injEq]
    constructor
    · rintro ⟨first, c₁, hfirst, delta, c₂, hdelta, rfl, rfl⟩
      exact ⟨target, first, c₁, delta, rfl, hfirst, hdelta, rfl⟩
    · rintro ⟨_, first, c₁, delta, rfl, hfirst, hdelta, rfl⟩
      exact ⟨first, c₁, hfirst, delta, c', hdelta, rfl, rfl⟩

theorem leads_codeIf {wanted : Bool} {code : Compile α Program} :
    Leads (codeIf wanted code) c p c' ↔
      if wanted then Leads code c p c' else p = [] ∧ c' = c := by
  cases wanted with
  | true => rfl
  | false => exact leads_result

/-- The parts of a color, that of the multiplier first. -/
theorem leads_colorPartsCode {animation : ColorAnimation α} :
    Leads (colorPartsCode animation info temp blend) c p c' ↔ ∃ multiplier c₁ offset,
      Leads (codeIf animation.usesMultiplier (colorPartCode info (·.multiplier)
        Slot.startMultiplier Slot.deltaMultiplier 0 temp blend Statement.mul)) c multiplier c₁ ∧
      Leads (codeIf animation.usesOffset (colorPartCode info (·.offset) Slot.startOffset
        Slot.deltaOffset (if animation.usesMultiplier then 8 else 0) temp blend Statement.add))
        c₁ offset c' ∧
      p = multiplier ++ offset := by
  unfold colorPartsCode
  simp only [leads_bind, leads_pure]
  constructor
  · rintro ⟨multiplier, c₁, hmultiplier, offset, _, hoffset, rfl, rfl⟩
    exact ⟨multiplier, c₁, offset, hmultiplier, hoffset, rfl⟩
  · rintro ⟨multiplier, c₁, offset, hmultiplier, hoffset, rfl⟩
    exact ⟨multiplier, c₁, hmultiplier, offset, c', hoffset, rfl, rfl⟩

theorem ignoresClaims_codeIf (wanted : Bool) {code : Compile α Program}
    (h : IgnoresClaims code) : IgnoresClaims (codeIf wanted code) := by
  unfold codeIf
  split
  · exact h
  · exact ignoresClaims_pure _

theorem ignoresClaims_colorPartCode (accumulator : ColorRegisters → Option Register)
    (startSlot deltaSlot start : Nat) :
    IgnoresClaims (colorPartCode info accumulator startSlot deltaSlot start temp blend join :
      Compile α Program) := by
  intro c c'' index p
  have hparts : ∀ target, IgnoresClaims (do
      let first ← parameter info startSlot start 4
      let delta ← parameter info deltaSlot (start + 4) 4
      return colorPartProgram join target first delta temp blend : Compile α Program) :=
    fun target => ignoresClaims_bind (ignoresClaims_parameter _ _ _ _) fun _ =>
      ignoresClaims_bind (ignoresClaims_parameter _ _ _ _) fun _ => ignoresClaims_pure _
  simp only [colorPartCode, leads_get_bind]
  show Leads (match accumulator c.color with | none => _ | some target => _) _ _ _ ↔ _
  cases accumulator c.color with
  | none => simp
  | some target => exact hparts target c c'' index p

theorem ignoresClaims_colorPartsCode (animation : ColorAnimation α) :
    IgnoresClaims (colorPartsCode animation info temp blend) :=
  ignoresClaims_bind (ignoresClaims_codeIf _ (ignoresClaims_colorPartCode _ _ _ _)) fun _ =>
    ignoresClaims_bind (ignoresClaims_codeIf _ (ignoresClaims_colorPartCode _ _ _ _)) fun _ =>
      ignoresClaims_pure _

/-- Where the register that blends the colors comes from, when the first free
temporary is taken already. -/
def Blends (cycle : Option (Cycle α)) (info : NodeInfo) (shared : SharedRegisters)
    (c : Compilation α) (temp : Nat) (blend : Register) (wave : Program) (c' : Compilation α) :
    Prop :=
  match cycle with
  | none => c' = c ∧ (∃ rest, c.free = temp :: rest) ∧ blend = shared.life ∧ wave = []
  | some cycle => ∃ speed index rest, Leads (claimConstants info Slot.cycle 1) c speed c' ∧
    c.free = temp :: index :: rest ∧ blend = (Register.temporary index).x ∧
    wave = waveProgram cycle shared speed blend

theorem Blends.free {cycle : Option (Cycle α)} {shared : SharedRegisters} {temp : Nat}
    {blend : Register} {wave : Program} (h : Blends cycle info shared c temp blend wave c') :
    ∃ rest, c.free = temp :: rest := by
  cases cycle with
  | none => exact h.2.1
  | some cycle =>
    obtain ⟨_, index, rest, -, hfree, -⟩ := h
    exact ⟨index :: rest, hfree⟩

/-- What follows on the code of the parts, with the two temporaries of a color claimed
and given up behind it. -/
theorem leads_colorParts_release {cycle : Option (Cycle α)} {animation : ColorAnimation α}
    {shared : SharedRegisters} {temp : Nat} {rest : List Nat}
    (hfree : c.free = temp :: rest) :
    Leads (do
      let (blend, wave) ← blendCode cycle info shared
      let parts ← colorPartsCode animation info (.temporary temp) blend
      releaseBlend cycle blend
      release (.temporary temp)
      return wave ++ parts) (c.claiming temp) p c' ↔
    ∃ blend wave c₁ parts, Blends cycle info shared c temp blend wave c₁ ∧
      Leads (colorPartsCode animation info (.temporary temp) blend) c₁ parts c' ∧
      p = wave ++ parts := by
  have hparts : ∀ blend, IgnoresClaims
      (colorPartsCode animation info (.temporary temp) blend) :=
    fun _ => ignoresClaims_colorPartsCode animation
  cases cycle with
  | none =>
    simp only [blendCode, releaseBlend, Option.isSome_none, Bool.false_eq_true, if_false, pure_bind,
      Blends]
    rw [leads_bind]
    constructor
    · rintro ⟨parts, _, hclaimed, h⟩
      obtain ⟨c₂, hcode, rfl⟩ := (hparts _ _ _ _ _).mp hclaimed
      rw [leads_release_temporary, leads_pure] at h
      obtain ⟨rfl, rfl⟩ := h
      exact ⟨_, _, c, _, ⟨rfl, ⟨rest, hfree⟩, rfl, rfl⟩, hcode, rfl⟩
    · rintro ⟨_, _, _, _, ⟨rfl, -, rfl, rfl⟩, hcode, rfl⟩
      refine ⟨_, _, (hparts _ _ _ _ _).mpr ⟨c', hcode, rfl⟩, ?_⟩
      rw [leads_release_temporary, leads_pure]
      exact ⟨rfl, rfl⟩
  | some cycle =>
    simp only [blendCode, releaseBlend, Option.isSome_some, if_true, bind_assoc, pure_bind, Blends]
    rw [leads_bind]
    simp only [ignoresClaims_claimConstants _ _ _ _ _ temp _, leads_acquireScalar_bind]
    constructor
    · rintro ⟨speed, _, ⟨c₁, hspeed, rfl⟩, index, rest', hindex, h⟩
      rw [leads_bind] at h
      obtain ⟨parts, _, hboth, h⟩ := h
      obtain ⟨_, hclaimed, rfl⟩ := (hparts _ _ _ _ _).mp hboth
      obtain ⟨c₂, hcode, rfl⟩ := (hparts _ _ _ _ _).mp hclaimed
      rw [leads_release_x, leads_release_temporary, leads_pure] at h
      obtain ⟨rfl, rfl⟩ := h
      have hfree₁ : c₁.free = temp :: rest := by
        rw [(leads_claimConstants.mp hspeed).2.2]
        exact hfree
      obtain rfl := (free_claiming_head hfree₁).symm.trans hindex
      exact ⟨_, _, c₁, parts, ⟨speed, index, rest', hspeed, hfree, rfl, rfl⟩, hcode, rfl⟩
    · rintro ⟨_, _, c₁, parts, ⟨speed, index, rest', hspeed, hfree', rfl, rfl⟩, hcode, rfl⟩
      have hfree₁ : c₁.free = temp :: index :: rest' := by
        rw [(leads_claimConstants.mp hspeed).2.2]
        exact hfree'
      refine ⟨speed, _, ⟨c₁, hspeed, rfl⟩, index, rest', free_claiming_head hfree₁, ?_⟩
      rw [leads_bind]
      refine ⟨parts, _, (hparts _ _ _ _ _).mpr
        ⟨_, (hparts _ _ _ _ _).mpr ⟨c', hcode, rfl⟩, rfl⟩, ?_⟩
      rw [leads_release_x, leads_release_temporary, leads_pure]
      exact ⟨rfl, rfl⟩

theorem leads_colorCode {animation : ColorAnimation α} : Leads (colorCode animation info) c p c' ↔
    if c.features.fragmentAnimation then
      ∃ shared temp blend wave c₁ parts, c.shared? = .ok shared ∧
        Blends animation.cycle info shared c temp blend wave c₁ ∧
        Leads (colorPartsCode animation info (.temporary temp) blend) c₁ parts c' ∧
        p = wave ++ parts
    else p = [] ∧ c' = c := by
  unfold colorCode
  rw [leads_has_bind]
  cases c.features.fragmentAnimation with
  | false => exact leads_result
  | true =>
    simp only [Bool.not_true, Bool.false_eq_true, if_false, if_true, leads_shared_bind,
      leads_acquire_bind]
    constructor
    · rintro ⟨shared, hshared, temp, rest, hfree, h⟩
      obtain ⟨blend, wave, c₁, parts, hblend, hcode, rfl⟩ := (leads_colorParts_release hfree).mp h
      exact ⟨shared, temp, blend, wave, c₁, parts, hshared, hblend, hcode, rfl⟩
    · rintro ⟨shared, temp, blend, wave, c₁, parts, hshared, hblend, hcode, rfl⟩
      obtain ⟨rest, hfree⟩ := hblend.free
      exact ⟨shared, hshared, temp, rest, hfree, (leads_colorParts_release hfree).mpr
        ⟨blend, wave, c₁, parts, hblend, hcode, rfl⟩⟩

/-! ### Texture coordinates -/

theorem leads_uvRegisters_bind {β : Type} {f : UvRegisters → Compile α β} {b : β} :
    Leads (uvRegisters >>= f) c b c' ↔
      ∃ registers, c.uv = some registers ∧ Leads (f registers) c b c' := by
  unfold uvRegisters
  rw [bind_assoc, leads_get_bind]
  cases c.uv with
  | none => simp
  | some registers => simp

theorem leads_sheetPhaseCode {sheet : SpriteSheet α} [Scalar α] {phase : Option Register} :
    Leads (sheetPhaseCode sheet info) c phase c' ↔
      if (sheetPhaseTime sheet).isSome then
        ∃ r, Leads (claimConstants info Slot.phase 1) c r c' ∧ phase = some r
      else phase = none ∧ c' = c := by
  unfold sheetPhaseCode
  cases sheetPhaseTime sheet with
  | none => exact leads_result
  | some shift => simp [eq_comm]

variable [Scalar α]

theorem leads_uvScrollCode {axis : UvAxis} {value : Parameter (Vec2 α)} :
    Leads (uvScrollCode axis value info) c p c' ↔
      if c.features.uvAnimation then
        ∃ registers, c.uv = some registers ∧
          ∃ constants, Leads (parameter info Slot.value 0 2) c constants c' ∧
          ∃ shared wave rest, c'.shared? = .ok shared ∧ c'.free = wave :: rest ∧
            p = uvScrollProgram value shared (axis.of registers.working) constants
              (Register.temporary wave).x
      else p = [] ∧ c' = c := by
  unfold uvScrollCode
  rw [leads_has_bind]
  cases c.features.uvAnimation with
  | false => exact leads_result
  | true =>
    simp only [Bool.not_true, Bool.false_eq_true, if_false, if_true, leads_uvRegisters_bind]
    refine exists_congr fun registers => and_congr_right fun _ => ?_
    rw [leads_bind]
    simp only [leads_shared_bind, leads_scratchScalar, leads_pure]
    constructor
    · rintro ⟨constants, c', hconstants, shared, hshared, wave, rest, hfree, rfl, rfl⟩
      exact ⟨constants, hconstants, shared, wave, rest, hshared, hfree, rfl⟩
    · rintro ⟨constants, hconstants, shared, wave, rest, hshared, hfree, rfl⟩
      exact ⟨constants, _, hconstants, shared, hshared, wave, rest, hfree, rfl, rfl⟩

theorem leads_spriteSheetCode {sheet : SpriteSheet α} :
    Leads (spriteSheetCode sheet info) c p c' ↔
      if c.features.uvAnimation then
        ∃ registers, c.uv = some registers ∧ ∃ shared, c.shared? = .ok shared ∧
          ∃ constants c₁, Leads (claimConstants info Slot.value 1) c constants c₁ ∧
          ∃ phase, Leads (sheetPhaseCode sheet info) c₁ phase c' ∧
          ∃ temp rest, c'.free = temp :: rest ∧
            p = spriteSheetProgram sheet shared registers.working constants phase
              (.temporary temp)
      else p = [] ∧ c' = c := by
  unfold spriteSheetCode
  rw [leads_has_bind]
  cases c.features.uvAnimation with
  | false => exact leads_result
  | true =>
    simp only [Bool.not_true, Bool.false_eq_true, if_false, if_true, leads_uvRegisters_bind,
      leads_shared_bind]
    refine exists_congr fun registers => and_congr_right fun _ =>
      exists_congr fun shared => and_congr_right fun _ => ?_
    simp only [leads_bind (x := claimConstants info Slot.value 1),
      leads_bind (x := sheetPhaseCode sheet info), leads_scratch, leads_pure]
    constructor
    · rintro ⟨constants, c₁, hconstants, phase, c', hphase, temp, rest, hfree, rfl, rfl⟩
      exact ⟨constants, c₁, hconstants, phase, hphase, temp, rest, hfree, rfl⟩
    · rintro ⟨constants, c₁, hconstants, phase, hphase, temp, rest, hfree, rfl⟩
      exact ⟨constants, c₁, hconstants, phase, _, hphase, temp, rest, hfree, rfl, rfl⟩

end Behavior

end ParticleShader
