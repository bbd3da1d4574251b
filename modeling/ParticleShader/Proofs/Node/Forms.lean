import ParticleShader.Proofs.Node.Lockstep

/-!
# The two forms of a node

A behavior has one value for all particles, in a constant, or one for every particle, in a stream.
`Behavior.Forms` pairs the behaviors that differ in nothing else. Every generator is in lockstep
with itself, so the code of one form is a twin of the code of the other: **`Node.matches_code`**.
-/

namespace ParticleShader

variable {α : Type}

namespace Behavior

open Compile Compilation Program

/-! ### The code of both forms -/

section

variable {e : Exchange} {windows : List Window} {info info' : NodeInfo} {buffer : Buffer}
  (hmode : info.mode = .global) (hmode' : info'.mode = .perParticle buffer)
  (hcount : e.count = windows.length)
include hmode hmode' hcount

theorem lockstep_positionCode (hw : windows[0]? = some ⟨Slot.value, 0, 3⟩) :
    Lockstep e (0, 0) (0, 1) (Twins e windows) (positionCode info : Compile α Program)
      (positionCode info') :=
  (lockstep_parameter hmode hmode' hcount hw).bind fun _ _ hvalue =>
    lockstep_shared.bind_same fun _ hs => lockstep_pure (twins_positionProgram hs hvalue)

theorem lockstep_velocityCode (hw : windows[0]? = some ⟨Slot.value, 0, 3⟩) :
    Lockstep e (0, 0) (0, 1) (Twins e windows) (velocityCode info : Compile α Program)
      (velocityCode info') :=
  (lockstep_parameter hmode hmode' hcount hw).bind fun _ _ hvalue =>
    lockstep_shared.bind_same fun _ hs => lockstep_acquire.bind_same fun way hway =>
      (lockstep_release way).bind fun _ _ _ => lockstep_pure (twins_velocityProgram hs hway hvalue)

omit hmode hmode' hcount in
theorem lockstep_speedCode {start : Nat × Nat} {shared : SharedRegisters} {way : Register}
    (hs : e.SparesAll shared) (hway : e.Spares way) :
    Lockstep e start start (Twins e windows) (speedCode shared way : Compile α Program)
      (speedCode shared way) := by
  unfold speedCode
  cases hvelocity : shared.velocity with
  | none => exact lockstep_pure twins_nil
  | some total =>
    have htotal : e.Spares total := hs.velocity total (by simp [hvelocity])
    exact lockstep_acquire.bind_same fun doubled hdoubled =>
      (lockstep_release doubled).bind fun _ _ _ =>
        lockstep_pure (twins_speedProgram hs htotal hway hdoubled)

theorem lockstep_accelerationCode (hw : windows[0]? = some ⟨Slot.value, 0, 3⟩) :
    Lockstep e (0, 0) (0, 1) (Twins e windows) (accelerationCode info : Compile α Program)
      (accelerationCode info') :=
  (lockstep_parameter hmode hmode' hcount hw).bind fun _ _ hvalue =>
    lockstep_shared.bind_same fun _ hs => lockstep_acquire.bind_same fun way hway =>
      (lockstep_speedCode hs hway).bind fun _ _ hspeed => (lockstep_release way).bind fun _ _ _ =>
        lockstep_pure (twins_accelerationProgram hs hway hvalue hspeed)

theorem lockstep_scaleCode {curve : ScaleCurve}
    (hw : windows[0]? = some ⟨Slot.value, 0, curve.length⟩) :
    Lockstep e (0, 0) (0, 1) (Twins e windows) (scaleCode curve info : Compile α Program)
      (scaleCode curve info') :=
  (lockstep_parameter hmode hmode' hcount hw).bind fun _ _ hvalue =>
    lockstep_shared.bind_same fun _ hs => lockstep_acquireScalar.bind_same fun factor hfactor =>
      (lockstep_release factor).bind fun _ _ _ =>
        lockstep_pure (twins_scaleProgram hs hfactor hvalue)

theorem lockstep_rotationalVelocityCode (hw : windows[0]? = some ⟨Slot.value, 0, 4⟩) :
    Lockstep e (0, 0) (0, 1) (Twins e windows) (rotationalVelocityCode info : Compile α Program)
      (rotationalVelocityCode info') :=
  (lockstep_parameter hmode hmode' hcount hw).bind fun _ _ hvalue =>
    lockstep_shared.bind_same fun _ hs => lockstep_acquire.bind_same fun angle hangle =>
      lockstep_acquire.bind_same fun cross hcross =>
        lockstep_acquire.bind_same fun parallel hparallel =>
          (lockstep_release parallel).bind fun _ _ _ => (lockstep_release cross).bind fun _ _ _ =>
            (lockstep_release angle).bind fun _ _ _ => lockstep_pure
              (twins_rotationalVelocityProgram hs hangle hcross hparallel hvalue)

/-- A part of a color takes two parameters where it is wanted. -/
theorem lockstep_colorPart {wanted : Bool} {accumulator : ColorRegisters → Option Register}
    {startSlot deltaSlot first taken : Nat} {temp blend : Register} {operation : Operation}
    (hoperation : operation ≠ .m33)
    (haccumulator : ∀ (c : Compilation α) (r : Register),
      accumulator c.color = some r → r ∈ c.given)
    (htemp : e.Spares temp) (hblend : e.Spares blend)
    (hw : wanted = true → ∃ w w', windows[taken]? = some w ∧ w.components = 4 ∧
      windows[taken + 1]? = some w' ∧ w'.components = 4) :
    Lockstep e (0, taken) (0, if wanted then taken + 2 else taken) (Twins e windows)
      (codeIf wanted (colorPartCode info accumulator startSlot deltaSlot first temp blend
        (Statement.binary operation)) : Compile α Program)
      (codeIf wanted (colorPartCode info' accumulator startSlot deltaSlot first temp blend
        (Statement.binary operation))) := by
  cases wanted with
  | false => exact lockstep_pure twins_nil
  | true =>
    obtain ⟨w, w', hfirst, hfour, hsecond, hfour'⟩ := hw rfl
    refine lockstep_get_bind fun c c' hstates => ?_
    rw [hstates.color]
    cases htarget : accumulator c.color with
    | none => exact lockstep_throw _
    | some target =>
      have hspares := hstates.spares target (haccumulator c target htarget)
      refine (lockstep_parameter hmode hmode' hcount hfirst).bind fun r r' hr => ?_
      refine (lockstep_parameter hmode hmode' hcount hsecond).bind fun s s' hs => ?_
      exact lockstep_pure (twins_colorPartProgram hoperation hspares htemp hblend (hfour ▸ hr)
        (hfour' ▸ hs))

omit hmode hmode' hcount in
theorem lockstep_blendCode (windows : List Window) {cycle : Option (Cycle α)}
    {shared : SharedRegisters} (hs : e.SparesAll shared) :
    Lockstep e (cycle.isSome.toNat, 0) (0, 0)
      (fun b b' => b'.1 = b.1 ∧ e.Spares b.1 ∧ Twins e windows b.2 b'.2)
      (blendCode cycle info shared) (blendCode cycle info' shared) := by
  cases cycle with
  | none => exact lockstep_pure ⟨rfl, hs.life, twins_nil⟩
  | some cycle =>
    exact lockstep_claimConstants.bind_same fun speed hspeed =>
      lockstep_acquireScalar.bind_same fun wave hwave =>
        lockstep_pure ⟨rfl, hwave, twins_waveProgram hs hspeed hwave⟩

omit hmode hmode' hcount in
theorem lockstep_releaseBlend {start : Nat × Nat} (cycle : Option (Cycle α)) (blend : Register) :
    Lockstep e start start (fun _ _ => True) (releaseBlend cycle blend : Compile α Unit)
      (releaseBlend cycle blend) := by
  unfold releaseBlend
  split
  · exact lockstep_release blend
  · exact lockstep_pure trivial

/-- The parts of a color take their parameters one behind the other. -/
theorem lockstep_colorPartsCode {animation : ColorAnimation α}
    {colors : Parameter (ColorTransform α × ColorTransform α)}
    (hwindows : windows = (color animation).windows) : ∃ stop, ∀ {temp blend : Register},
      e.Spares temp → e.Spares blend → Lockstep e (0, 0) stop (Twins e windows)
        (colorPartsCode animation info temp blend)
        (colorPartsCode { animation with colors } info' temp blend) := by
  obtain ⟨usesMultiplier, usesOffset, cycle, _⟩ := animation
  have hmultiplier : ∀ (c : Compilation α) r, c.color.multiplier = some r → r ∈ c.given := by
    intro c r hr
    simp [given, hr]
  have hoffset : ∀ (c : Compilation α) r, c.color.offset = some r → r ∈ c.given := by
    intro c r hr
    simp [given, hr]
  have hmul : Operation.mul ≠ .m33 := by decide
  have hadd : Operation.add ≠ .m33 := by decide
  subst hwindows
  refine ⟨_, fun htemp hblend => Lockstep.bind
    (lockstep_colorPart hmode hmode' hcount hmul hmultiplier htemp hblend fun hwanted => ?_)
    fun _ _ hfirst => Lockstep.bind
      (lockstep_colorPart hmode hmode' hcount hadd hoffset htemp hblend fun hwanted => ?_)
      fun _ _ hsecond => lockstep_pure (hfirst.append hsecond)⟩
  · subst hwanted
    exact ⟨_, _, rfl, rfl, rfl, rfl⟩
  · subst hwanted
    cases usesMultiplier <;> exact ⟨_, _, rfl, rfl, rfl, rfl⟩

theorem matches_colorCode {animation : ColorAnimation α}
    {colors : Parameter (ColorTransform α × ColorTransform α)} {c c' : Compilation α}
    (hwindows : windows = (color animation).windows)
    (hstates : c.Abreast e animation.cycle.isSome.toNat 0 c') :
    ∃ stop : Nat × Nat, Matches e stop.1 stop.2 (Twins e windows) ((colorCode animation info).run c)
      ((colorCode { animation with colors } info').run c') := by
  obtain ⟨stop, hparts⟩ := lockstep_colorPartsCode hmode hmode' hcount hwindows
  show ∃ stop : Nat × Nat, Matches e stop.1 stop.2 (Twins e windows)
    ((if !c.features.fragmentAnimation then pure [] else _ : Compile α Program).run c)
    ((if !c'.features.fragmentAnimation then pure [] else _ : Compile α Program).run c')
  rw [hstates.features]
  cases c.features.fragmentAnimation with
  | false => exact ⟨(animation.cycle.isSome.toNat, 0), .ok twins_nil hstates⟩
  | true =>
    refine ⟨stop, (?_ : Lockstep e (animation.cycle.isSome.toNat, 0) stop _ _ _) hstates⟩
    refine lockstep_shared.bind_same fun shared hs => ?_
    refine lockstep_acquire.bind_same fun temp htemp => ?_
    refine (lockstep_blendCode windows hs).bind fun b b' hb => ?_
    obtain ⟨_, wave⟩ := b
    obtain ⟨blend, wave'⟩ := b'
    obtain ⟨rfl, hblend, hwave⟩ := hb
    exact (hparts htemp hblend).bind fun _ _ hcode =>
      (lockstep_releaseBlend animation.cycle blend).bind fun _ _ _ =>
        (lockstep_release temp).bind fun _ _ _ => lockstep_pure (hwave.append hcode)

omit hmode hmode' hcount in
theorem lockstep_uvRegisters : Lockstep e (0, 0) (0, 0)
    (fun uv uv' => uv' = uv ∧ e.Spares uv.working) (uvRegisters : Compile α UvRegisters)
    uvRegisters := by
  refine lockstep_get_bind fun c c' hstates => ?_
  rw [hstates.uv]
  cases huv : c.uv with
  | none => exact lockstep_throw _
  | some uv => exact lockstep_pure ⟨rfl, hstates.spares _ (by simp [given, huv])⟩

omit hmode hmode' hcount in
theorem spares_of {axis : UvAxis} {r : Register} (h : e.Spares r) : e.Spares (axis.of r) := by
  cases axis <;> exact h

theorem matches_uvScrollCode [Scalar α] {axis : UvAxis} {value value' : Parameter (Vec2 α)}
    {c c' : Compilation α} (hw : windows[0]? = some ⟨Slot.value, 0, 2⟩)
    (hvalue : needsUvScale value = true) (hvalue' : needsUvScale value' = true)
    (hstates : c.Abreast e 0 0 c') :
    ∃ stop : Nat × Nat, Matches e stop.1 stop.2 (Twins e windows)
      ((uvScrollCode axis value info).run c) ((uvScrollCode axis value' info').run c') := by
  show ∃ stop : Nat × Nat, Matches e stop.1 stop.2 (Twins e windows)
    ((if !c.features.uvAnimation then pure [] else _ : Compile α Program).run c)
    ((if !c'.features.uvAnimation then pure [] else _ : Compile α Program).run c')
  rw [hstates.features]
  cases c.features.uvAnimation with
  | false => exact ⟨(0, 0), .ok twins_nil hstates⟩
  | true =>
    refine ⟨(0, 1), (?_ : Lockstep e (0, 0) (0, 1) _ _ _) hstates⟩
    exact lockstep_uvRegisters.bind_same fun uv huv =>
      (lockstep_parameter hmode hmode' hcount hw).bind fun _ _ hconstants =>
        lockstep_shared.bind_same fun shared hs =>
          lockstep_acquireScalar.bind_same fun wave hwave =>
            (lockstep_release wave).bind fun _ _ _ => lockstep_pure
              (twins_uvScrollProgram hs (spares_of huv) hwave hvalue hvalue' hconstants)

end

/-! ### Forms -/

/-- A behavior with one value for all particles, and the same behavior with a value for every
particle in the buffer that is filled once; it is the value that the particle `p` has. A scroll
has a scale that is worth applying. -/
inductive Forms [Scalar α] (p : Particle α) : Behavior α → Behavior α → Prop
  | position {v : Vec3 α} (hp : p.position = some v) :
    Forms p (.position (.global v)) (.position (.perParticle .baked))
  | velocity {v : Vec3 α} (hp : p.velocity = some v) :
    Forms p (.velocity (.global v)) (.velocity (.perParticle .baked))
  | acceleration {v : Vec3 α} (hp : p.acceleration = some v) :
    Forms p (.acceleration (.global v)) (.acceleration (.perParticle .baked))
  | scale (curve : ScaleCurve) {v : Vec4 α} (hp : p.scale = some v) :
    Forms p (.scale curve (.global v)) (.scale curve (.perParticle .baked))
  | rotationalVelocity {v : Vec4 α} (hp : p.rotationalVelocity = some v) :
    Forms p (.rotationalVelocity (.global v)) (.rotationalVelocity (.perParticle .baked))
  | color (usesMultiplier usesOffset : Bool) (cycle : Option (Cycle α))
    {first last : ColorTransform α} (hfirst : p.colorStart = some first)
    (hlast : p.colorEnd = some last) :
    Forms p (.color ⟨usesMultiplier, usesOffset, cycle, .global (first, last)⟩)
      (.color ⟨usesMultiplier, usesOffset, cycle, .perParticle .baked⟩)
  | uv (axis : UvAxis) {v : Vec2 α} (hp : p.uv = some v)
    (hscale : Scalar.epsilon < Scalar.abs (v.y - Scalar.one)) :
    Forms p (.uv axis (.global v)) (.uv axis (.perParticle .baked))

/-- The constants that a behavior takes in both of its forms: that of the cycle of a color. -/
def common : Behavior α → Nat
  | .color animation => animation.cycle.isSome.toNat
  | _ => 0

end Behavior

namespace Node

open Behavior Compile Compilation Program

/-- All code of a node: that of the vertex and that of the texture. -/
def code [Scalar α] (n : Node α) : Compile α Program := do
  let vertex ← n.vertexCode
  let texture ← n.uvCode
  return vertex ++ texture

/-- The constants and attributes that the next two forms of a node are exchanged by. -/
def exchange (g l : Node α) (c : Compilation α) : Exchange where
  firstConstant := c.used.vertexConstants + g.behavior.common
  firstStream := c.used.vertexAttributes
  count := l.behavior.windows.length

variable [Scalar α] {p : Particle α} {g l : Node α} {c : Compilation α}

omit [Scalar α] in
/-- Before the two forms of a node are written, their states are the same. -/
theorem abreast_self (hconstants : (g.exchange l c).firstConstant + (g.exchange l c).count ≤
      c.limit .vertexConstant)
    (hstreams : (g.exchange l c).firstStream + (g.exchange l c).count ≤ c.limit .vertexAttribute)
    (hspares : ∀ r ∈ c.given, (g.exchange l c).Spares r) :
    c.Abreast (g.exchange l c) g.behavior.common 0 c :=
  ⟨rfl, rfl, rfl, rfl, rfl, hconstants, hstreams, hspares⟩

variable {e : Exchange} {windows : List Window}

/-- Code of nodes without texture code. -/
theorem matches_of_vertexCode (hg : g.uvCode = pure []) (hl : l.uvCode = pure [])
    (h : ∃ stop : Nat × Nat, Matches e stop.1 stop.2 (Twins e windows) (g.vertexCode.run c)
      (l.vertexCode.run c)) :
    ∃ stop : Nat × Nat, Matches e stop.1 stop.2 (Twins e windows) (g.code.run c)
      (l.code.run c) := by
  obtain ⟨stop, hvertex⟩ := h
  refine ⟨stop, hvertex.bind fun _ _ hv => ?_⟩
  rw [hg, hl]
  exact lockstep_pure (hv.append twins_nil)

/-- Code of nodes without vertex code. -/
theorem matches_of_uvCode (hg : g.vertexCode = pure []) (hl : l.vertexCode = pure [])
    (h : ∃ stop : Nat × Nat, Matches e stop.1 stop.2 (Twins e windows) (g.uvCode.run c)
      (l.uvCode.run c)) :
    ∃ stop : Nat × Nat, Matches e stop.1 stop.2 (Twins e windows) (g.code.run c)
      (l.code.run c) := by
  obtain ⟨stop, huv⟩ := h
  unfold Node.code
  rw [hg, hl]
  exact ⟨stop, huv.bind fun _ _ => lockstep_pure⟩

/-- **The two forms of a node are twins**: their code comes out with the constants of the one
exchanged for the streams of the other, or with the same fault. -/
theorem matches_code (h : Forms p g.behavior l.behavior)
    (hstates : c.Abreast (g.exchange l c) g.behavior.common 0 c) :
    ∃ stop : Nat × Nat, Matches (g.exchange l c) stop.1 stop.2
      (Twins (g.exchange l c) l.behavior.windows) (g.code.run c) (l.code.run c) := by
  have hcount : (g.exchange l c).count = l.behavior.windows.length := rfl
  generalize g.exchange l c = e at *
  obtain ⟨b, id, offset, dynamicOffset⟩ := g
  obtain ⟨b', id', offset', dynamicOffset'⟩ := l
  cases h with
  | position =>
    exact matches_of_vertexCode rfl rfl ⟨_, lockstep_positionCode rfl rfl hcount rfl hstates⟩
  | velocity =>
    exact matches_of_vertexCode rfl rfl ⟨_, lockstep_velocityCode rfl rfl hcount rfl hstates⟩
  | acceleration =>
    exact matches_of_vertexCode rfl rfl ⟨_, lockstep_accelerationCode rfl rfl hcount rfl hstates⟩
  | scale curve =>
    exact matches_of_vertexCode rfl rfl ⟨_, lockstep_scaleCode rfl rfl hcount rfl hstates⟩
  | rotationalVelocity =>
    exact matches_of_vertexCode rfl rfl
      ⟨_, lockstep_rotationalVelocityCode rfl rfl hcount rfl hstates⟩
  | color usesMultiplier usesOffset cycle =>
    exact matches_of_vertexCode rfl rfl (matches_colorCode rfl rfl hcount rfl hstates)
  | uv axis hp hscale =>
    exact matches_of_uvCode rfl rfl
      (matches_uvScrollCode rfl rfl hcount rfl (decide_eq_true hscale) rfl hstates)

end Node

end ParticleShader
