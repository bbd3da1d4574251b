import ParticleShader.Proofs.Compilation.Fragments
import ParticleShader.Proofs.Instruction.Within
import ParticleShader.Proofs.Node.Needs
import ParticleShader.Proofs.Node.Sparing

/-!
# Scratch temporaries of nodes

While the code of a node is written, temporaries are claimed and given back. Every node of the
catalogue gives back all that it claimed, and of the temporaries in use its code writes those alone
that it is meant to write (`Node.borrows_vertexCode`, `Node.borrows_uvCode`). All other temporaries
in its code were free.
-/

namespace ParticleShader

open Compile Compilation

variable {α : Type}

namespace Behavior

/-- What the vertex code of a behavior is meant to write. -/
def vertexOutputs (shared : SharedRegisters) (color : ColorRegisters) :
    Behavior α → List Register
  | .time _ => [shared.time, shared.life, shared.vertex]
  | .position _ => [shared.displacement]
  | .velocity _ | .acceleration _ => shared.displacement :: shared.velocity.toList
  | .scale _ _ | .follow => [shared.vertex]
  | .rotationalVelocity _ | .rotateToHeading | .billboard _ => shared.oriented
  | .color animation =>
    (if animation.usesMultiplier then color.multiplier.toList else []) ++
      if animation.usesOffset then color.offset.toList else []
  | .uv _ _ | .spriteSheet _ | .custom _ => []

/-- What the texture code of a behavior is meant to write. -/
def uvOutputs (uv : UvRegisters) : Behavior α → List Register
  | .uv _ _ | .spriteSheet _ => [uv.working]
  | _ => []

end Behavior

namespace Compilation

variable {c c' : Compilation α} {needs : List (Node α × Need)}

/-- Code that was written between two states gives back all temporaries that it claimed, and
writes none that was in use but its outputs. -/
structure Borrows (c c' : Compilation α) (p : Program) (outputs : List Register) : Prop where
  /-- Every temporary is claimed as often as before. -/
  temporaries : c'.temporaries = c.temporaries
  /-- What is written was free or is an output. -/
  within : p.Within (c.free ++ Register.temporaryIndices outputs)

theorem free_eq_of_temporaries (h : c'.temporaries = c.temporaries) : c'.free = c.free := by
  unfold free
  rw [h]

theorem Records.temporaries (h : c.Records c' needs) : c'.temporaries = c.temporaries := by
  rw [h.frame]

theorem Records.shared (h : c.Records c' needs) : c'.shared = c.shared := by rw [h.frame]

theorem Records.color (h : c.Records c' needs) : c'.color = c.color := by rw [h.frame]

end Compilation

/-- If it is a temporary, it is one of these. -/
@[simp] def Register.Among (r : Register) (lent : List Nat) : Prop :=
  r.kind = .vertexTemporary → r.index ∈ lent

namespace Behavior

variable {c c' : Compilation α} {info : NodeInfo} {p : Program} {lent : List Nat}

/-- The outputs of a behavior are temporaries that may be written, or no temporaries. -/
def Grants (b : Behavior α) (c : Compilation α) (lent : List Nat) : Prop :=
  ∀ s, c.shared = some s → ∀ r ∈ b.vertexOutputs s c.color, r.Among lent

theorem Grants.outputs {b : Behavior α} (h : b.Grants c lent) {s : SharedRegisters}
    (hshared : c.shared? = .ok s) : ∀ r ∈ b.vertexOutputs s c.color, r.Among lent :=
  h s (shared_of_shared? hshared)

/-! ### Vertex code -/

theorem within_positionCode {value : Parameter (Vec3 α)} (h : Leads (positionCode info) c p c')
    (hout : (Behavior.position value).Grants c' lent) : p.Within lent := by
  obtain ⟨_, -, s, hshared, rfl⟩ := leads_positionCode.mp h
  have hdisplacement := List.forall_mem_singleton.mp (hout.outputs hshared)
  simpa [positionProgram] using hdisplacement

theorem within_followCode (h : Leads (followCode info) c p c')
    (hout : (Behavior.follow : Behavior α).Grants c' lent) : p.Within lent := by
  obtain ⟨_, -, s, hshared, rfl⟩ := leads_followCode.mp h
  have hvertex := List.forall_mem_singleton.mp (hout.outputs hshared)
  simpa [followProgram] using hvertex

section

variable (hfree : ∀ i ∈ c'.free, i ∈ lent)
include hfree

theorem within_timeCode {lifecycle : Lifecycle} (h : Leads (timeCode lifecycle info) c p c')
    (hout : (Behavior.time lifecycle : Behavior α).Grants c' lent) : p.Within lent := by
  obtain ⟨stream, _, now, -, -, s, started, rest, ending, hshared, hstarted, hending, rfl⟩ :=
    leads_timeCode.mp h
  obtain ⟨htime, hlife, hvertex⟩ : s.time.Among lent ∧ s.life.Among lent ∧ s.vertex.Among lent := by
    simpa [vertexOutputs] using hout.outputs hshared
  have hlent := hfree started (by simp [hstarted])
  have hwithin : ending.Within lent := by
    obtain ⟨-, hending⟩ := leads_endingCode.mp hending
    split at hending
    · obtain ⟨factor, others, hfactor, rfl⟩ := hending
      rw [free_claiming_head hstarted] at hfactor
      have hlent' := hfree factor (by simp [hstarted, hfactor])
      unfold endingProgram
      split
      · simpa [hlent'] using hvertex
      · split
        · simpa [hlent'] using And.intro htime hvertex
        · simpa [hlent'] using htime
    · rw [hending]
      exact Program.within_nil
  simpa [startProgram, lifeProgram, hlent, hwithin] using And.intro htime ⟨hvertex, hlife⟩

theorem within_velocityCode {value : Parameter (Vec3 α)} (h : Leads (velocityCode info) c p c')
    (hout : (Behavior.velocity value).Grants c' lent) : p.Within lent := by
  obtain ⟨_, -, s, way, rest, hshared, hway, rfl⟩ := leads_velocityCode.mp h
  obtain ⟨hdisplacement, hvelocity⟩ := List.forall_mem_cons.mp (hout.outputs hshared)
  have hlent := hfree way (by simp [hway])
  cases htotal : s.velocity with
  | none => simpa [velocityProgram, htotal, hlent] using hdisplacement
  | some total =>
    have htarget := hvelocity total (by simp [htotal])
    simpa [velocityProgram, htotal, hlent] using And.intro hdisplacement htarget

theorem within_accelerationCode {value : Parameter (Vec3 α)}
    (h : Leads (accelerationCode info) c p c')
    (hout : (Behavior.acceleration value).Grants c' lent) : p.Within lent := by
  obtain ⟨_, -, s, way, rest, speed, hshared, hway, hspeed, rfl⟩ := leads_accelerationCode.mp h
  obtain ⟨hdisplacement, hvelocity⟩ := List.forall_mem_cons.mp (hout.outputs hshared)
  have hlent := hfree way (by simp [hway])
  have hwithin : speed.Within lent := by
    obtain ⟨-, hspeed⟩ := leads_speedCode.mp hspeed
    cases htotal : s.velocity with
    | none =>
      simp only [htotal] at hspeed
      rw [hspeed]
      exact Program.within_nil
    | some total =>
      simp only [htotal] at hspeed
      obtain ⟨doubled, others, hdoubled, rfl⟩ := hspeed
      rw [free_claiming_head hway] at hdoubled
      have hlent' := hfree doubled (by simp [hway, hdoubled])
      simpa [speedProgram, hlent'] using hvelocity total (by simp [htotal])
  simpa [accelerationProgram, hlent, hwithin] using hdisplacement

theorem within_scaleCode {curve : ScaleCurve} {value : Parameter (Vec4 α)}
    (h : Leads (scaleCode curve info) c p c')
    (hout : (Behavior.scale curve value).Grants c' lent) : p.Within lent := by
  obtain ⟨_, -, s, factor, rest, hshared, hfactor, rfl⟩ := leads_scaleCode.mp h
  have hvertex := List.forall_mem_singleton.mp (hout.outputs hshared)
  have hlent := hfree factor (by simp [hfactor])
  cases curve <;> simpa [scaleProgram, hlent] using hvertex

theorem within_rotationalVelocityCode {value : Parameter (Vec4 α)}
    (h : Leads (rotationalVelocityCode info) c p c')
    (hout : (Behavior.rotationalVelocity value).Grants c' lent) : p.Within lent := by
  obtain ⟨_, -, s, angle, cross, parallel, rest, hshared, hscratch, rfl⟩ :=
    leads_rotationalVelocityCode.mp h
  simp only [hscratch, List.forall_mem_cons] at hfree
  refine Program.within_append.mpr ⟨by simp [hfree], Program.within_flatMap fun r hr => ?_⟩
  simpa [spinProgram, hfree] using hout.outputs hshared r hr

theorem within_headingCode (h : Leads (headingCode info) c p c') (hsame : c'.shared = c.shared)
    (hout : (Behavior.rotateToHeading : Behavior α).Grants c' lent) : p.Within lent := by
  obtain ⟨s, total, hshared, -, h⟩ := leads_headingCode.mp h
  have houtputs := hout s (hsame.trans (shared_of_shared? hshared))
  split at h
  · obtain ⟨matrix, -, heading, temp, rest, hscratch, rfl⟩ := h
    simp only [hscratch, List.forall_mem_cons] at hfree
    refine Program.within_append.mpr ⟨by simp [hfree], Program.within_flatMap fun r hr => ?_⟩
    simpa [planeTurnProgram, hfree] using houtputs r hr
  · obtain ⟨heading, side, up, sum, temp, rest, rfl, hscratch, rfl⟩ := h
    simp only [hscratch, List.forall_mem_cons] at hfree
    refine Program.within_append.mpr ⟨by simp [hfree], Program.within_flatMap fun r hr => ?_⟩
    simpa [basisProgram, hfree] using houtputs r hr

theorem within_billboardCode {axis : Option (Vec3 α)} (h : Leads (billboardCode info) c p c')
    (hout : (Behavior.billboard axis : Behavior α).Grants c' lent) : p.Within lent := by
  obtain ⟨matrix, -, s, temp, rest, hshared, hscratch, rfl⟩ := leads_billboardCode.mp h
  simp only [hscratch, List.forall_mem_cons] at hfree
  refine Program.within_flatMap fun r hr => ?_
  simpa [hfree] using hout.outputs hshared r hr

end

/-- The code of a part of a color writes its accumulator and a temporary, if it is wanted. -/
theorem within_colorPart {wanted : Bool} {accumulator : ColorRegisters → Option Register}
    {startSlot deltaSlot start temp : Nat} {blend : Register}
    {join : Operand → Operand → Operand → Statement}
    (hjoin : ∀ t a b p, Program.Within (join t a b :: p) lent ↔
      (t.kind = .vertexTemporary → t.index ∈ lent) ∧ Program.Within p lent)
    (h : Leads (codeIf wanted
      (colorPartCode info accumulator startSlot deltaSlot start (.temporary temp) blend join))
      c p c')
    (htemp : temp ∈ lent)
    (htarget : ∀ r ∈ if wanted then (accumulator c.color).toList else [], r.Among lent) :
    p.Within lent := by
  rw [leads_codeIf] at h
  split at h <;> rename_i hwanted
  · obtain ⟨target, first, _, delta, haccumulator, -, -, rfl⟩ := leads_colorPartCode.mp h
    have hamong := htarget target (by simp [hwanted, haccumulator])
    simpa [colorPartProgram, hjoin, htemp] using hamong
  · rw [h.1]
    exact Program.within_nil

/-- The register that blends the colors is worked out in a free temporary, if it is not the
life. -/
theorem within_blends {cycle : Option (Cycle α)} {s : SharedRegisters} {temp : Nat}
    {blend : Register} {wave : Program} (h : Blends cycle info s c temp blend wave c')
    (hfree : ∀ i ∈ c.free, i ∈ lent) : temp ∈ lent ∧ wave.Within lent := by
  cases cycle with
  | none =>
    obtain ⟨-, ⟨rest, htemp⟩, -, rfl⟩ := h
    exact ⟨hfree temp (by simp [htemp]), Program.within_nil⟩
  | some cycle =>
    obtain ⟨speed, index, rest, -, hscratch, rfl, rfl⟩ := h
    simp only [hscratch, List.forall_mem_cons] at hfree
    refine ⟨hfree.1, ?_⟩
    unfold waveProgram
    split <;> simp [hfree]

theorem within_colorCode {n : Node α} {animation : ColorAnimation α}
    (h : Leads (colorCode animation n.info) c p c') (hfree : ∀ i ∈ c.free, i ∈ lent)
    (hout : (Behavior.color animation).Grants c lent) : p.Within lent := by
  rw [leads_colorCode] at h
  split at h
  · obtain ⟨s, temp, blend, wave, c₁, parts, hshared, hblends, hparts, rfl⟩ := h
    obtain ⟨first, c₂, second, hfirst, hsecond, rfl⟩ := leads_colorPartsCode.mp hparts
    obtain ⟨htemp, hwave⟩ := within_blends hblends hfree
    have hcolor₁ : c₁.color = c.color := (records_blends hblends).color
    have hcolor₂ : c₂.color = c.color := (records_colorPart hfirst).color.trans hcolor₁
    obtain ⟨hmultiplier, hoffset⟩ := List.forall_mem_append.mp (hout.outputs hshared)
    rw [← hcolor₁] at hmultiplier
    rw [← hcolor₂] at hoffset
    rw [Program.within_append, Program.within_append]
    exact ⟨hwave, within_colorPart (fun _ _ _ _ => Program.within_binary) hfirst htemp hmultiplier,
      within_colorPart (fun _ _ _ _ => Program.within_binary) hsecond htemp hoffset⟩
  · rw [h.1]
    exact Program.within_nil

/-! ### Texture code -/

variable [Scalar α]

theorem within_uvScrollCode {axis : UvAxis} {value : Parameter (Vec2 α)}
    (h : Leads (uvScrollCode axis value info) c p c') (hfree : ∀ i ∈ c'.free, i ∈ lent)
    (hworking : ∀ uv, c.uv = some uv → uv.working.Among lent) : p.Within lent := by
  rw [leads_uvScrollCode] at h
  split at h
  · obtain ⟨uv, huv, constants, -, _, wave, rest, -, hwave, rfl⟩ := h
    have hlent := hfree wave (by simp [hwave])
    have hcoordinate : (axis.of uv.working).Among lent := by
      cases axis <;> exact hworking uv huv
    unfold uvScrollProgram
    split <;> simpa [hlent] using hcoordinate
  · rw [h.1]
    exact Program.within_nil

theorem within_spriteSheetCode {sheet : SpriteSheet α}
    (h : Leads (spriteSheetCode sheet info) c p c') (hfree : ∀ i ∈ c'.free, i ∈ lent)
    (hworking : ∀ uv, c.uv = some uv → uv.working.Among lent) : p.Within lent := by
  rw [leads_spriteSheetCode] at h
  split at h
  · obtain ⟨uv, huv, shared, -, constants, _, -, phase, -, temp, rest, htemp, rfl⟩ := h
    have hlent := hfree temp (by simp [htemp])
    have hcoordinate := hworking uv huv
    unfold spriteSheetProgram
    cases sheet.cycle <;> cases phase <;> by_cases hrows : 1 < sheet.rows <;>
      simpa [hrows, hlent] using hcoordinate
  · rw [h.1]
    exact Program.within_nil

end Behavior

namespace Node

open Behavior

variable {c c' : Compilation α} {n : Node α} {p : Program}

/-- What the vertex code of a node is meant to write. -/
def vertexOutputs (n : Node α) (c : Compilation α) : List Register :=
  c.shared.elim [] fun s => n.behavior.vertexOutputs s c.color

/-- What the texture code of a node is meant to write. -/
def uvOutputs (n : Node α) (c : Compilation α) : List Register :=
  c.uv.elim [] n.behavior.uvOutputs

/-- The vertex code of a node writes into temporaries that were free and into its outputs. -/
theorem within_vertexCode {lent : List Nat} (hcatalogue : n.behavior.IsCatalogue)
    (h : Leads n.vertexCode c p c') (hfree : ∀ i ∈ c.free, i ∈ lent)
    (hout : n.behavior.Grants c lent) : p.Within lent := by
  have hrecords := records_vertexCode hcatalogue h
  -- what a node takes for its parameters are no temporaries
  have hfree' : ∀ i ∈ c'.free, i ∈ lent := by
    rwa [free_eq_of_temporaries hrecords.temporaries]
  have hout' : n.behavior.Grants c' lent := by
    unfold Behavior.Grants
    rwa [hrecords.shared, hrecords.color]
  unfold Node.vertexCode at h
  cases hbehavior : n.behavior <;> rw [hbehavior] at h hout hout'
  case time lifecycle => exact within_timeCode hfree' h hout'
  case position value => exact within_positionCode h hout'
  case velocity value => exact within_velocityCode hfree' h hout'
  case acceleration value => exact within_accelerationCode hfree' h hout'
  case scale curve value => exact within_scaleCode hfree' h hout'
  case rotationalVelocity value => exact within_rotationalVelocityCode hfree' h hout'
  case rotateToHeading => exact within_headingCode hfree' h hrecords.shared hout'
  case billboard axis => exact within_billboardCode hfree' h hout'
  case follow => exact within_followCode h hout'
  case color animation => exact within_colorCode h hfree hout
  case custom node =>
    rw [hbehavior] at hcatalogue
    exact hcatalogue.elim
  case uv | spriteSheet =>
    rw [(leads_result.mp h).1]
    exact Program.within_nil

/-- The texture code of a node writes into temporaries that were free and into the register that it
works on. -/
theorem within_uvCode [Scalar α] {lent : List Nat} (hcatalogue : n.behavior.IsCatalogue)
    (h : Leads n.uvCode c p c') (hfree : ∀ i ∈ c.free, i ∈ lent)
    (hout : ∀ uv, c.uv = some uv → ∀ r ∈ n.behavior.uvOutputs uv, r.Among lent) :
    p.Within lent := by
  have hfree' : ∀ i ∈ c'.free, i ∈ lent := by
    rwa [free_eq_of_temporaries (records_uvCode hcatalogue h).temporaries]
  unfold Node.uvCode at h
  cases hbehavior : n.behavior <;> rw [hbehavior] at h hout
  case uv axis value =>
    exact within_uvScrollCode h hfree' fun uv huv => hout uv huv _ List.mem_cons_self
  case spriteSheet sheet =>
    exact within_spriteSheetCode h hfree' fun uv huv => hout uv huv _ List.mem_cons_self
  case custom node =>
    rw [hbehavior] at hcatalogue
    exact hcatalogue.elim
  all_goals
    rw [(leads_result.mp h).1]
    exact Program.within_nil

theorem among_of_output {r : Register} {outputs : List Register} (free : List Nat)
    (hr : r ∈ outputs) : r.Among (free ++ Register.temporaryIndices outputs) :=
  fun hkind => List.mem_append_right _ (Register.mem_temporaryIndices.mpr ⟨r, hr, hkind, rfl⟩)

/-- **Vertex code gives back what it claims**, and writes into free temporaries and its outputs
alone. -/
theorem borrows_vertexCode (hcatalogue : n.behavior.IsCatalogue)
    (h : Leads n.vertexCode c p c') : c.Borrows c' p (n.vertexOutputs c) where
  temporaries := (records_vertexCode hcatalogue h).temporaries
  within := within_vertexCode hcatalogue h (fun _ hi => List.mem_append_left _ hi)
    fun s hs r hr => among_of_output c.free (by rwa [Node.vertexOutputs, hs])

/-- **Texture code gives back what it claims**, and writes into free temporaries and the register
that it works on alone. -/
theorem borrows_uvCode [Scalar α] (hcatalogue : n.behavior.IsCatalogue)
    (h : Leads n.uvCode c p c') : c.Borrows c' p (n.uvOutputs c) where
  temporaries := (records_uvCode hcatalogue h).temporaries
  within := within_uvCode hcatalogue h (fun _ hi => List.mem_append_left _ hi)
    fun uv huv r hr => among_of_output c.free (by rwa [Node.uvOutputs, huv])

end Node

end ParticleShader
