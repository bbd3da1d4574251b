import ParticleShader.Proofs.Compilation.Staging
import ParticleShader.Proofs.Node.Needs

/-!
# The constants of a node

Which rows a node stages for a frame, by the parameters that they belong to, and that this
agrees with what its code has taken: code and constants are two traversals of the nodes,
and **`staged_needs`** says that a node stages exactly the constants that its code needs,
in the same order. **`run_writeConstants`** says that staging does that and nothing else,
unless the values of the node are refused, in which case it does nothing.
-/

namespace ParticleShader

variable {α : Type}

/-- The slot and the number of constants of a need that takes constants. -/
def Need.constants? : Need → Option (Nat × Nat)
  | constants slot count => some (slot, count)
  | stream _ _ _ => none

namespace Behavior

open Compile Compilation

/-- Rows with the parameters that they belong to. -/
abbrev Rows (α : Type) : Type := List (Nat × List (Vec4 α))

variable [Scalar α]

/-- The row of a parameter if it is global. -/
def globalRows {β : Type} (parameter : Parameter β) (values : β → Except Fault (Vec4 α)) :
    Except Fault (Rows α) :=
  match parameter with
  | .perParticle _ => .ok []
  | .global value => do return [(Slot.value, [← values value])]

/-- The row of a vector if it is global. -/
def vectorRows (parameter : Parameter (Vec3 α)) (factor : Vec3 α → Vec3 α) :
    Except Fault (Rows α) :=
  globalRows parameter fun value => .ok ((factor value).extend Scalar.zero)

/-- The rows of a matrix. -/
def matrixRows (m : Mat3 α) : Rows α := [(Slot.value, m.rows.map (·.extend Scalar.zero))]

/-- The rows of a part of a color. -/
def partRows (wanted : Bool) (startSlot deltaSlot : Nat) (values : Vec4 α × Vec4 α) : Rows α :=
  if wanted then [(startSlot, [values.1]), (deltaSlot, [values.2])] else []

/-- The rows of the cycle of a color. -/
def cycleRows (cycle : Option (Cycle α)) : Rows α :=
  cycle.toList.map fun cycle => (Slot.cycle, [colorCycleConstants cycle])

/-- The rows of a color animation. -/
def colorRows (animation : ColorAnimation α) : Rows α :=
  cycleRows animation.cycle ++
    match animation.colors with
    | .perParticle _ => []
    | .global (first, last) =>
      partRows animation.usesMultiplier Slot.startMultiplier Slot.deltaMultiplier
        (blend animation.cycle first.multiplier last.multiplier) ++
      partRows animation.usesOffset Slot.startOffset Slot.deltaOffset
        (blend animation.cycle first.offset last.offset)

/-- The rows of a sprite sheet. -/
def sheetRows (sheet : SpriteSheet α) : Rows α :=
  (Slot.value, [sheetConstants sheet]) :: (sheetPhaseTime sheet).toList.map fun shift =>
    (Slot.phase, [⟨shift, Scalar.zero, Scalar.zero, Scalar.zero⟩])

/-- The row of a scroll. -/
def scrollRow (uv : Vec2 α) : Except Fault (Vec4 α) := do
  let values ← uvValues uv
  return ⟨values.x, values.y, Scalar.zero, Scalar.zero⟩

/-- The rows that a behavior stages for a frame, or why its values are refused. -/
def staged (features : Features) (frame : Frame α) : Behavior α → Except Fault (Rows α)
  | .time _ => .ok [(Slot.frameTime, [Vec4.splat frame.time])]
  | .position value | .velocity value => vectorRows value fun vector => vector
  | .acceleration value => vectorRows value (·.scale Scalar.half)
  | .scale curve value => globalRows value (scaleValues curve)
  | .rotationalVelocity value => globalRows value spinValues
  | .rotateToHeading => if features.billboard then .ok (matrixRows frame.camera) else .ok []
  | .billboard axis => .ok (matrixRows (billboardRotation axis frame.camera))
  | .uv _ value => if features.uvAnimation then globalRows value scrollRow else .ok []
  | .spriteSheet sheet => if features.uvAnimation then .ok (sheetRows sheet) else .ok []
  | .color animation => if features.fragmentAnimation then .ok (colorRows animation) else .ok []
  | .follow | .custom _ => .ok []

/-! ### Code and constants agree -/

/-- The parameters that rows belong to, with the numbers of the rows. -/
def Rows.shape (rows : Rows α) : List (Nat × Nat) :=
  rows.map fun row => (row.1, row.2.length)

omit [Scalar α] in
theorem shape_globalRows {β : Type} {parameter : Parameter β}
    {values : β → Except Fault (Vec4 α)} {rows : Rows α} {start components : Nat}
    (h : globalRows parameter values = .ok rows) : rows.shape =
      [Need.parameter parameter.mode Slot.value start components].filterMap
        Need.constants? := by
  cases parameter with
  | perParticle buffer =>
    cases h
    rfl
  | global value =>
    simp only [globalRows, Outcome.bind_eq_ok, Outcome.pure_eq_ok] at h
    obtain ⟨row, -, rfl⟩ := h
    rfl

theorem shape_colorRows (animation : ColorAnimation α) :
    (colorRows animation).shape = (colorNeeds animation).filterMap Need.constants? := by
  obtain ⟨usesMultiplier, usesOffset, cycle, colors⟩ := animation
  cases colors with
  | perParticle buffer => cases cycle <;> cases usesMultiplier <;> cases usesOffset <;> rfl
  | global colors => cases cycle <;> cases usesMultiplier <;> cases usesOffset <;> rfl

theorem shape_sheetRows (sheet : SpriteSheet α) : (sheetRows sheet).shape =
    (Need.constants Slot.value 1 ::
      if (sheetPhaseTime sheet).isSome then [.constants Slot.phase 1] else []).filterMap
        Need.constants? := by
  unfold sheetRows
  cases sheetPhaseTime sheet <;> rfl

/-- **Code and constants agree**: a behavior stages exactly the constants that its code
takes. -/
theorem staged_needs {b : Behavior α} {features : Features} {frame : Frame α} {rows : Rows α}
    (h : b.staged features frame = .ok rows) :
    rows.shape = (b.needs features).filterMap Need.constants? := by
  unfold needs
  cases b
  case time lifecycle =>
    cases h
    rfl
  case position value | velocity value | acceleration value => exact shape_globalRows h
  case scale curve value => exact shape_globalRows h
  case rotationalVelocity value => exact shape_globalRows h
  case rotateToHeading =>
    simp only [staged, vertexNeeds, uvNeeds, List.append_nil] at h ⊢
    cases hbillboard : features.billboard <;> rw [hbillboard] at h <;> cases h <;> rfl
  case billboard axis =>
    cases h
    rfl
  case follow | custom =>
    cases h
    rfl
  case uv axis value =>
    simp only [staged, vertexNeeds, uvNeeds, List.nil_append] at h ⊢
    split at h <;> rename_i hanimation
    · rw [if_pos hanimation]
      exact shape_globalRows h
    · rw [if_neg hanimation]
      cases h
      rfl
  case spriteSheet sheet =>
    simp only [staged, vertexNeeds, uvNeeds, List.nil_append] at h ⊢
    split at h <;> rename_i hanimation <;> cases h
    · rw [if_pos hanimation]
      exact shape_sheetRows sheet
    · rw [if_neg hanimation]
      rfl
  case color animation =>
    simp only [staged, vertexNeeds, uvNeeds, List.append_nil] at h ⊢
    split at h <;> rename_i hanimation <;> cases h
    · rw [if_pos hanimation]
      exact shape_colorRows animation
    · rw [if_neg hanimation]
      rfl

end Behavior

/-! ### What is staged -/

namespace Compilation

open Compile

variable {c : Compilation α}

/-- A parameter of a node is known, and its constants can be staged. -/
def Locates (c : Compilation α) (node : NodeId) (slot count : Nat) : Prop :=
  ∃ index, c.index? node slot = some index ∧ c.Stageable index count

/-- The writes that rows of a node are. -/
def writes (c : Compilation α) (node : NodeId) (rows : Behavior.Rows α) : List (Nat × Vec4 α) :=
  rows.flatMap fun row =>
    match c.index? node row.1 with
    | some index => consecutive index row.2
    | none => []

theorem writes_append (c : Compilation α) (node : NodeId) (rows rows' : Behavior.Rows α) :
    c.writes node (rows ++ rows') = c.writes node rows ++ c.writes node rows' :=
  List.flatMap_append

theorem writes_singleton {node : NodeId} {slot index : Nat} {values : List (Vec4 α)}
    (h : c.index? node slot = some index) :
    c.writes node [(slot, values)] = consecutive index values := by
  simp [writes, h]

end Compilation

namespace Behavior

open Compile Compilation

variable {c c' : Compilation α} {node : NodeId} {slot : Nat}

/-- A step stages some rows of a node, unless their values are refused. -/
def StagesRows (x : Compile α Unit) (c : Compilation α) (node : NodeId)
    (rows : Except Fault (Rows α)) : Prop :=
  x.run c =
    match rows with
    | .ok rows => .ok () (c.staging (c.writes node rows))
    | .error fault => .error fault c

theorem stagesRows_ok {x : Compile α Unit} {rows : Rows α} :
    StagesRows x c node (.ok rows) ↔ Leads x c () (c.staging (c.writes node rows)) := Iff.rfl

theorem stagesRows_nil : StagesRows (pure ()) c node (.ok []) := rfl

/-- A step that is taken only where a switch is on. -/
theorem stagesRows_has {feature : Features → Bool} {x : Compile α Unit}
    {rows : Except Fault (Rows α)}
    (h : feature c.features = true → StagesRows x c node rows) :
    StagesRows (do if ← has feature then x) c node
      (if feature c.features then rows else .ok []) := by
  show (if feature c.features then x else pure ()).run c = _
  cases hon : feature c.features with
  | true => exact h hon
  | false => exact stagesRows_nil

theorem leads_claimed {index : Nat} (h : c.index? node slot = some index) :
    Leads (claimed node slot) c index c := by
  unfold claimed
  rw [leads_get_bind, h]
  exact leads_pure.mpr ⟨rfl, rfl⟩

theorem stagesRows_stage (hsized : c.Sized) (h : c.Locates node slot 1) (value : Vec4 α) :
    StagesRows (stage node slot value) c node (.ok [(slot, [value])]) := by
  obtain ⟨index, hindex, hstageable⟩ := h
  rw [stagesRows_ok, writes_singleton hindex]
  exact leads_bind.mpr ⟨index, c, leads_claimed hindex,
    leads_setVertexConstant hsized hstageable value⟩

/-- Rows that are staged after others are added to them. -/
theorem stagesRows_append {x y : Compile α Unit} {rows rows' : Rows α}
    (hx : StagesRows x c node (.ok rows))
    (hy : StagesRows y (c.staging (c.writes node rows)) node (.ok rows')) :
    StagesRows (do x; y) c node (.ok (rows ++ rows')) := by
  rw [stagesRows_ok, writes_append, staging_append]
  exact leads_bind.mpr ⟨(), _, hx, hy⟩

/-- Other staged constants do not hide the place of a parameter. -/
theorem locates_staging {writes : List (Nat × Vec4 α)} {count : Nat} :
    (c.staging writes).Locates node slot count ↔ c.Locates node slot count :=
  exists_congr fun _ => and_congr_right fun _ => stageable_staging

variable [Scalar α]

theorem stagesRows_matrix (hsized : c.Sized) (h : c.Locates node Slot.value 3) (m : Mat3 α) :
    StagesRows (do setVertexMatrix (← claimed node Slot.value) m) c node
      (.ok (matrixRows m)) := by
  obtain ⟨index, hindex, hstageable⟩ := h
  rw [stagesRows_ok, matrixRows, writes_singleton hindex]
  exact leads_bind.mpr ⟨index, c, leads_claimed hindex,
    leads_setVertexMatrix hsized hstageable m⟩

omit [Scalar α] in
/-- The constants that a shape asks for can be staged. -/
def Places (c : Compilation α) (node : NodeId) (shape : List (Nat × Nat)) : Prop :=
  ∀ part ∈ shape, c.Locates node part.1 part.2

omit [Scalar α] in
theorem places_staging {shape : List (Nat × Nat)} (writes : List (Nat × Vec4 α))
    (h : Places c node shape) : Places (c.staging writes) node shape :=
  fun part hpart => locates_staging.mpr (h part hpart)

omit [Scalar α] in
theorem stagesRows_global {β : Type} {parameter : Parameter β}
    {values : β → Except Fault (Vec4 α)} {start components : Nat} (hsized : c.Sized)
    (h : Places c node ([Need.parameter parameter.mode Slot.value start components].filterMap
      Need.constants?)) :
    StagesRows (stageGlobal node parameter values) c node (globalRows parameter values) := by
  cases parameter with
  | perParticle buffer => exact stagesRows_nil
  | global value =>
    obtain ⟨index, hindex, hstageable⟩ := h (Slot.value, 1) List.mem_cons_self
    have hclaimed : (claimed node Slot.value).run c = .ok index c := leads_claimed hindex
    simp only [StagesRows, stageGlobal, globalRows, EStateM.run_bind, hclaimed]
    cases values value with
    | error fault => rfl
    | ok row =>
      show Leads (setVertexConstant index row) c () (c.staging (c.writes node [(_, [row])]))
      rw [writes_singleton hindex]
      exact leads_setVertexConstant hsized hstageable row

omit [Scalar α] in
theorem stagesRows_part {wanted : Bool} {startSlot deltaSlot : Nat} {values : Vec4 α × Vec4 α}
    (hsized : c.Sized) (h : Places c node (partRows wanted startSlot deltaSlot values).shape) :
    StagesRows (stagePart node wanted startSlot deltaSlot values) c node
      (.ok (partRows wanted startSlot deltaSlot values)) := by
  cases wanted with
  | false => exact stagesRows_nil
  | true =>
    have hstart := h (startSlot, 1) List.mem_cons_self
    have hdelta := h (deltaSlot, 1) (List.mem_cons_of_mem _ List.mem_cons_self)
    have hfirst := stagesRows_stage hsized hstart values.1
    exact stagesRows_append hfirst
      (stagesRows_stage (hsized.staging _) (locates_staging.mpr hdelta) _)

theorem stagesRows_cycle {cycle : Option (Cycle α)} (hsized : c.Sized)
    (h : Places c node (cycleRows cycle).shape) :
    StagesRows (stageCycle node cycle) c node (.ok (cycleRows cycle)) := by
  cases cycle with
  | none => exact stagesRows_nil
  | some cycle => exact stagesRows_stage hsized (h (Slot.cycle, 1) List.mem_cons_self) _

theorem stagesRows_color {animation : ColorAnimation α} (hsized : c.Sized)
    (h : Places c node (colorRows animation).shape) :
    StagesRows (stageColor node animation) c node (.ok (colorRows animation)) := by
  obtain ⟨usesMultiplier, usesOffset, cycle, colors⟩ := animation
  unfold colorRows Rows.shape at h
  rw [List.map_append] at h
  obtain ⟨hcycle, hcolors⟩ := List.forall_mem_append.mp h
  refine stagesRows_append (stagesRows_cycle hsized hcycle) ?_
  have hsized := hsized.staging (c.writes node (cycleRows cycle))
  replace hcolors := places_staging (c.writes node (cycleRows cycle)) hcolors
  cases colors with
  | perParticle buffer => exact stagesRows_nil
  | global colors =>
    simp only [List.map_append] at hcolors
    obtain ⟨hmultiplier, hoffset⟩ := List.forall_mem_append.mp hcolors
    exact stagesRows_append (stagesRows_part hsized hmultiplier)
      (stagesRows_part (hsized.staging _) (places_staging _ hoffset))

theorem stagesRows_sheet {sheet : SpriteSheet α} (hsized : c.Sized)
    (h : Places c node (sheetRows sheet).shape) :
    StagesRows (stageSheet node sheet) c node (.ok (sheetRows sheet)) := by
  unfold stageSheet sheetRows at *
  obtain ⟨hvalue, hphase⟩ := List.forall_mem_cons.mp h
  have hfirst := stagesRows_stage hsized hvalue (sheetConstants sheet)
  cases hshift : sheetPhaseTime sheet with
  | none => exact stagesRows_append hfirst stagesRows_nil
  | some shift =>
    rw [hshift] at hphase
    exact stagesRows_append hfirst (stagesRows_stage (hsized.staging _)
      (locates_staging.mpr (hphase (Slot.phase, 1) List.mem_cons_self)) _)

end Behavior

namespace Node

open Behavior Compile Compilation

variable [Scalar α] {c : Compilation α} {n : Node α}

/-- The constants that the code of a node has taken can be staged. -/
def Placed (n : Node α) (c : Compilation α) : Prop :=
  Places c n.id ((n.behavior.needs c.features).filterMap Need.constants?)

/-- **What a node stages**: where its constants can be staged it stages all of them, and
nothing else, unless its values are refused; then it stages nothing. -/
theorem run_writeConstants (hcatalogue : n.behavior.IsCatalogue) (hsized : c.Sized)
    (h : n.Placed c) (frame : Frame α) :
    StagesRows (n.writeConstants frame) c n.id (n.behavior.staged c.features frame) := by
  unfold Node.Placed Behavior.needs at h
  unfold Node.writeConstants
  cases hbehavior : n.behavior <;> rw [hbehavior] at h
  case time lifecycle => exact stagesRows_stage hsized (h _ List.mem_cons_self) _
  case position value | velocity value | acceleration value =>
    exact stagesRows_global hsized h
  case scale curve value => exact stagesRows_global hsized h
  case rotationalVelocity value => exact stagesRows_global hsized h
  case follow => exact stagesRows_nil
  case custom node =>
    rw [hbehavior] at hcatalogue
    exact hcatalogue.elim
  case billboard axis => exact stagesRows_matrix hsized (h _ List.mem_cons_self) _
  case rotateToHeading =>
    refine stagesRows_has fun hbillboard => ?_
    simp only [Behavior.vertexNeeds, Behavior.uvNeeds, List.append_nil, if_pos hbillboard] at h
    exact stagesRows_matrix hsized (h _ List.mem_cons_self) _
  case uv axis value =>
    refine stagesRows_has fun hanimation => ?_
    simp only [Behavior.vertexNeeds, Behavior.uvNeeds, List.nil_append, if_pos hanimation] at h
    exact stagesRows_global hsized h
  case spriteSheet sheet =>
    refine stagesRows_has fun hanimation => ?_
    simp only [Behavior.vertexNeeds, Behavior.uvNeeds, List.nil_append, if_pos hanimation] at h
    rw [← shape_sheetRows] at h
    exact stagesRows_sheet hsized h
  case color animation =>
    refine stagesRows_has fun hanimation => ?_
    simp only [Behavior.vertexNeeds, Behavior.uvNeeds, List.append_nil, if_pos hanimation] at h
    rw [← shape_colorRows] at h
    exact stagesRows_color hsized h

end Node

end ParticleShader
