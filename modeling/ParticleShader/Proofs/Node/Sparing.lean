import ParticleShader.Proofs.Node.Computation

/-!
# What the code of nodes leaves alone

Whatever registers are named as the vertex and the directions, the code of the nodes writes into
those and into temporaries, and nowhere else. So constants and attributes hold what they held
before, unless they are named: **`Node.spares_vertexCode`**.
-/

namespace ParticleShader

open Compile Compilation Statement

variable {α : Type} {reached : Register.Kind} {index : Nat}

/-- A register that is no temporary and is not named as the vertex or a direction, where the
accumulators are temporaries. -/
structure SharedRegisters.Avoids (shared : SharedRegisters) (reached : Register.Kind)
    (index : Nat) : Prop where
  /-- It is no temporary. -/
  kind : reached ≠ .vertexTemporary
  /-- It is neither the vertex nor a direction. -/
  oriented : ∀ r ∈ shared.oriented, ¬ (r.kind = reached ∧ r.index = index)
  /-- The displacement is a temporary. -/
  displacement : shared.displacement.kind = .vertexTemporary
  /-- The velocity is one. -/
  velocity : ∀ r, shared.velocity = some r → r.kind = .vertexTemporary
  /-- The time is in one. -/
  time : shared.time.kind = .vertexTemporary
  /-- The life is in one. -/
  life : shared.life.kind = .vertexTemporary

@[simp] theorem Register.kind_operand (r : Register) : r.operand.kind = r.kind := rfl

@[simp] theorem Register.index_operand (r : Register) : r.operand.index = r.index := rfl

namespace Behavior

variable {shared : SharedRegisters} {stream now value matrix total : Register}
  {started factor way doubled angle cross parallel heading side up sum temp : Nat}
  {speed : Program}

section

variable (h : shared.Avoids reached index)
include h

theorem spares_startProgram : Program.Spares
    (startProgram shared stream now (Register.temporary started).x) reached index := by
  have hvertex := h.oriented _ List.mem_cons_self
  simp [startProgram, h.time, h.kind.symm, hvertex]

theorem spares_endingProgram (lifecycle : Lifecycle) : Program.Spares
    (endingProgram lifecycle shared stream (Register.temporary factor).x) reached index := by
  have hvertex := h.oriented _ List.mem_cons_self
  unfold endingProgram
  split
  · simp [h.kind.symm, hvertex]
  · split <;> simp [h.time, h.kind.symm, hvertex]

theorem spares_lifeProgram : Program.Spares (lifeProgram shared stream) reached index := by
  simp [lifeProgram, h.life, h.kind.symm]

theorem spares_positionProgram : Program.Spares (positionProgram shared value) reached index := by
  simp [positionProgram, h.displacement, h.kind.symm]

theorem spares_velocityProgram :
    Program.Spares (velocityProgram shared value (.temporary way)) reached index := by
  cases hvelocity : shared.velocity with
  | none => simp [velocityProgram, hvelocity, h.displacement, h.kind.symm]
  | some total =>
    simp [velocityProgram, hvelocity, h.velocity total hvelocity, h.displacement, h.kind.symm]

theorem spares_speedProgram (htotal : total.kind = .vertexTemporary) : Program.Spares
    (speedProgram shared total (.temporary way) (.temporary doubled)) reached index := by
  simp [speedProgram, htotal, h.kind.symm]

theorem spares_accelerationProgram (hspeed : speed.Spares reached index) : Program.Spares
    (accelerationProgram shared value (.temporary way) speed) reached index := by
  simp [accelerationProgram, hspeed, h.displacement, h.kind.symm]

theorem spares_scaleProgram (curve : ScaleCurve) : Program.Spares
    (scaleProgram curve shared value (Register.temporary factor).x) reached index := by
  have hvertex := h.oriented _ List.mem_cons_self
  cases curve <;> simp [scaleProgram, h.kind.symm, hvertex]

theorem spares_rotationalVelocityProgram : Program.Spares (rotationalVelocityProgram shared value
    (.temporary angle) (.temporary cross) (.temporary parallel)) reached index := by
  refine Program.spares_append.mpr ⟨by simp [h.kind.symm], Program.spares_flatMap fun r hr => ?_⟩
  simp [spinProgram, h.kind.symm, h.oriented r hr]

theorem spares_screenHeadingProgram : Program.Spares (screenHeadingProgram shared total matrix
    (.temporary heading) (.temporary temp)) reached index := by
  refine Program.spares_append.mpr ⟨by simp [h.kind.symm], Program.spares_flatMap fun r hr => ?_⟩
  simp [planeTurnProgram, h.kind.symm, h.oriented r hr]

theorem spares_spaceHeadingProgram : Program.Spares (spaceHeadingProgram shared total
    (.temporary heading) (.temporary side) (.temporary up) (.temporary sum) (.temporary temp))
    reached index := by
  refine Program.spares_append.mpr ⟨by simp [h.kind.symm], Program.spares_flatMap fun r hr => ?_⟩
  simp [basisProgram, h.kind.symm, h.oriented r hr]

theorem spares_billboardProgram :
    Program.Spares (billboardProgram shared matrix (.temporary temp)) reached index := by
  refine Program.spares_flatMap fun r hr => ?_
  simp [h.kind.symm, h.oriented r hr]

theorem spares_followProgram : Program.Spares (followProgram shared value) reached index := by
  have hvertex := h.oriented _ List.mem_cons_self
  simp [followProgram, hvertex]

/-! ### The code of the nodes -/

variable {c c' : Compilation α} {info : NodeInfo} {p : Program}

theorem spares_timeCode {lifecycle : Lifecycle} (hcode : Leads (timeCode lifecycle info) c p c')
    (hshared : c'.shared? = .ok shared) : p.Spares reached index := by
  obtain ⟨stream, _, now, -, -, shared', started, _, ending, hshared', -, hending, rfl⟩ :=
    leads_timeCode.mp hcode
  obtain rfl := Except.ok.inj (hshared.symm.trans hshared')
  obtain ⟨-, hending⟩ := leads_endingCode.mp hending
  have hspares : ending.Spares reached index := by
    split at hending
    · obtain ⟨factor, _, -, rfl⟩ := hending
      exact spares_endingProgram h lifecycle
    · subst hending
      exact Program.spares_nil
  exact Program.spares_append.mpr ⟨Program.spares_append.mpr ⟨spares_startProgram h, hspares⟩,
    spares_lifeProgram h⟩

theorem spares_accelerationCode (hcode : Leads (accelerationCode info) c p c')
    (hshared : c'.shared? = .ok shared) : p.Spares reached index := by
  obtain ⟨value, -, shared', way, _, speed, hshared', -, hspeed, rfl⟩ :=
    leads_accelerationCode.mp hcode
  obtain rfl := Except.ok.inj (hshared.symm.trans hshared')
  obtain ⟨-, hspeed⟩ := leads_speedCode.mp hspeed
  refine spares_accelerationProgram h ?_
  cases hvelocity : shared.velocity with
  | none =>
    simp only [hvelocity] at hspeed
    subst hspeed
    exact Program.spares_nil
  | some total =>
    simp only [hvelocity] at hspeed
    obtain ⟨doubled, _, -, rfl⟩ := hspeed
    exact spares_speedProgram h (h.velocity total hvelocity)

theorem spares_headingCode (hcode : Leads (headingCode info) c p c')
    (hshared : c.shared? = .ok shared) : p.Spares reached index := by
  obtain ⟨shared', total, hshared', -, hheading⟩ := leads_headingCode.mp hcode
  obtain rfl := Except.ok.inj (hshared.symm.trans hshared')
  split at hheading
  · obtain ⟨matrix, -, heading, temp, _, -, rfl⟩ := hheading
    exact spares_screenHeadingProgram h
  · obtain ⟨heading, side, up, sum, temp, _, -, -, rfl⟩ := hheading
    exact spares_spaceHeadingProgram h

end

end Behavior

open Behavior

/-- **What code leaves alone**: before the colors, a catalogue node writes into the vertex, the
directions and temporaries alone. -/
theorem Node.spares_vertexCode {n : Node α} {c c' : Compilation α} {p : Program} {d : Demand}
    {shared : SharedRegisters} (h : shared.Avoids reached index)
    (hcatalogue : n.behavior.IsCatalogue) (hblock : n.info.block ≠ .color)
    (hcode : Leads n.vertexCode c p c') (hgrows : c.Grows c' d)
    (hshared : c.shared? = .ok shared) : p.Spares reached index := by
  have hshared' : c'.shared? = .ok shared := hgrows.shared?.trans hshared
  have hsame : ∀ {other}, c'.shared? = .ok other → shared = other := fun hother =>
    Except.ok.inj (hshared'.symm.trans hother)
  unfold Node.vertexCode at hcode
  cases hbehavior : n.behavior <;> rw [hbehavior] at hcode
  case time lifecycle => exact spares_timeCode h hcode hshared'
  case position value =>
    obtain ⟨r, -, _, hother, rfl⟩ := leads_positionCode.mp hcode
    obtain rfl := hsame hother
    exact spares_positionProgram h
  case velocity value =>
    obtain ⟨r, -, _, way, _, hother, -, rfl⟩ := leads_velocityCode.mp hcode
    obtain rfl := hsame hother
    exact spares_velocityProgram h
  case acceleration value => exact spares_accelerationCode h hcode hshared'
  case scale curve value =>
    obtain ⟨r, -, _, factor, _, hother, -, rfl⟩ := leads_scaleCode.mp hcode
    obtain rfl := hsame hother
    exact spares_scaleProgram h curve
  case rotationalVelocity value =>
    obtain ⟨r, -, _, angle, cross, parallel, _, hother, -, rfl⟩ :=
      leads_rotationalVelocityCode.mp hcode
    obtain rfl := hsame hother
    exact spares_rotationalVelocityProgram h
  case rotateToHeading => exact spares_headingCode h hcode hshared
  case billboard axis =>
    obtain ⟨matrix, -, _, temp, _, hother, -, rfl⟩ := leads_billboardCode.mp hcode
    obtain rfl := hsame hother
    exact spares_billboardProgram h
  case follow =>
    obtain ⟨r, -, _, hother, rfl⟩ := leads_followCode.mp hcode
    obtain rfl := hsame hother
    exact spares_followProgram h
  case uv | spriteSheet =>
    obtain ⟨rfl, -⟩ := leads_result.mp hcode
    exact Program.spares_nil
  case color animation =>
    refine absurd ?_ hblock
    show Block.ofPriority n.behavior.priority = .color
    rw [hbehavior]
    rfl
  case custom =>
    rw [hbehavior] at hcatalogue
    exact hcatalogue.elim

end ParticleShader
