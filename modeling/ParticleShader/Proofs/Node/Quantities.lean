import ParticleShader.Proofs.Node.Computation
import ParticleShader.Proofs.NodeSet.Constants
import ParticleShader.Proofs.Records.Slices

/-!
# The quantities of a particle

What a node keeps for a particle is laid out twice. The formulas write one value behind
the other, and the code reads streams that begin where the code says; neither asks the
other. A quantity is a name that both have to agree on. `Behavior.kept` says what is
written, quantity by quantity (`values_eq_kept`), `Behavior.ReadsBy` is the code in which
every quantity is read by an operand of its own (`finds_vertexCode`, `finds_uvCode`), and
**`shown_kept`** says that the stream of a quantity covers the values written for it.
-/

namespace ParticleShader

variable {α : Type}

/-- What a node reads of a particle. -/
inductive Quantity where
  /-- When the particle starts. -/
  | start
  /-- How long it lives. -/
  | duration
  /-- How long it takes until it starts again. -/
  | period
  /-- The inverse of the duration. -/
  | inverse
  /-- A vector in space. -/
  | vector
  /-- The scale in the beginning, in a cycle that in the middle. -/
  | scale
  /-- How far the scale goes from there. -/
  | range
  /-- The angular speed of the cycle of a scale. -/
  | cycleSpeed
  /-- The phase of that cycle. -/
  | cyclePhase
  /-- The axis of a spin. -/
  | axis
  /-- The angular speed of a spin. -/
  | spinSpeed
  /-- The angular speed of a scroll. -/
  | scrollSpeed
  /-- The scale of the texture. -/
  | scrollScale
  /-- The multiplier of the color where it starts. -/
  | multiplier
  /-- The change of the multiplier. -/
  | multiplierDelta
  /-- The offset of the color where it starts. -/
  | offset
  /-- The change of the offset. -/
  | offsetDelta
deriving DecidableEq, Repr

namespace Quantity

/-- The parameter that a quantity belongs to. -/
def slot : Quantity → Nat
  | multiplier => Slot.startMultiplier
  | multiplierDelta => Slot.deltaMultiplier
  | offset => Slot.startOffset
  | offsetDelta => Slot.deltaOffset
  | _ => Slot.value

/-- The components of the register of the parameter, all of them when the list is empty. -/
def selection : Quantity → List Register.Component
  | start | scale | scrollSpeed => [.x]
  | duration | range | scrollScale => [.y]
  | period | cycleSpeed => [.z]
  | inverse | cyclePhase | spinSpeed => [.w]
  | vector | axis => [.x, .y, .z]
  | multiplier | multiplierDelta | offset | offsetDelta => []

/-- The components that a quantity is read by. -/
def components (q : Quantity) : List Register.Component :=
  if q.selection.isEmpty then [.x, .y, .z, .w] else q.selection

end Quantity

namespace Behavior

/-! ### What is written -/

section

variable [Scalar α]

/-- What is kept of a vector. -/
def vectorKept (v : Vec3 α) : List (Quantity × List α) := [(.vector, v.toList)]

/-- What is kept of a scale. -/
def scaleKept (curve : ScaleCurve) (v : Vec4 α) : List (Quantity × List α) :=
  let middle := (v.x + v.y) / Scalar.two
  let half := (v.y - v.x) / Scalar.two
  match curve with
  | .linear => [(.scale, [v.x]), (.range, [v.y - v.x])]
  | .cycle =>
    [(.scale, [middle]), (.range, [half]), (.cycleSpeed, [Scalar.angularSpeed v.z])]
  | .phasedCycle =>
    [(.scale, [middle]), (.range, [half]), (.cycleSpeed, [Scalar.angularSpeed v.z]),
     (.cyclePhase, [Scalar.radians v.w])]

/-- What is kept of a spin. -/
def spinKept (spin : Vec4 α) : List (Quantity × List α) :=
  spin.xyz.normalize?.toList.flatMap fun axis =>
    [(.axis, axis.toList), (.spinSpeed, [Scalar.angularSpeed spin.w])]

/-- What is kept of a color: the start and the change of each animated part. -/
def colorKept (animation : ColorAnimation α) (first last : ColorTransform α) :
    List (Quantity × List α) :=
  let multiplier := blend animation.cycle first.multiplier last.multiplier
  let offset := blend animation.cycle first.offset last.offset
  (if animation.usesMultiplier then
    [(.multiplier, multiplier.1.toList), (.multiplierDelta, multiplier.2.toList)] else []) ++
  (if animation.usesOffset then
    [(.offset, offset.1.toList), (.offsetDelta, offset.2.toList)] else [])

/-- The quantities that a behavior keeps for a particle, in their order, with their values. -/
def kept (b : Behavior α) (p : Particle α) : List (Quantity × List α) :=
  match b with
  | time _ =>
    [(.start, [p.startTime]), (.duration, [p.duration]), (.period, [p.delay + p.duration]),
     (.inverse, [Scalar.one / p.duration])]
  | position _ => p.position.toList.flatMap vectorKept
  | velocity _ => p.velocity.toList.flatMap vectorKept
  | acceleration _ => p.acceleration.toList.flatMap fun v => vectorKept (v.scale Scalar.half)
  | scale curve _ => p.scale.toList.flatMap (scaleKept curve)
  | rotationalVelocity _ => p.rotationalVelocity.toList.flatMap spinKept
  | uv _ _ => p.uv.toList.flatMap fun v =>
    [(.scrollSpeed, [Scalar.angularSpeed v.x]), (.scrollScale, [v.y])]
  | color animation =>
    match animation.colors with
    | .global _ => []
    | .perParticle _ => p.colorStart.toList.flatMap fun first =>
      p.colorEnd.toList.flatMap (colorKept animation first)
  | rotateToHeading | billboard _ | follow | spriteSheet _ | custom _ => []

theorem required_eq_ok {β : Type} {node property : String} {value : Option β} {b : β} :
    required node property value = .ok b ↔ value = some b := by
  cases value <;> simp [required]

theorem positive_bind_eq_ok {β : Type} {value : α} {fault : String → PropertyFault} {node : String}
    {f : Unit → Except Fault β} {b : β} (h : (positive value fault node >>= f) = .ok b) :
    f () = .ok b := by
  obtain ⟨_, -, hf⟩ := Outcome.bind_eq_ok.mp h
  exact hf

theorem toList_scaleValues {curve : ScaleCurve} {v values : Vec4 α}
    (h : scaleValues curve v = .ok values) :
    values.toList.take curve.length = (scaleKept curve v).flatMap Prod.snd := by
  cases curve with
  | linear =>
    cases h
    rfl
  | cycle | phasedCycle =>
    cases positive_bind_eq_ok h
    rfl

theorem toList_spinValues {spin values : Vec4 α} (h : spinValues spin = .ok values) :
    values.toList = (spinKept spin).flatMap Prod.snd := by
  have h := positive_bind_eq_ok h
  unfold spinKept
  cases haxis : spin.xyz.normalize? with
  | none =>
    simp only [haxis] at h
    cases h
  | some axis =>
    simp only [haxis] at h
    cases h
    rfl

theorem toList_colorParts (animation : ColorAnimation α) (first last : ColorTransform α) :
    ((colorParts animation first last).flatMap fun (start, delta) =>
      start.toList ++ delta.toList) = (colorKept animation first last).flatMap Prod.snd := by
  unfold colorParts colorKept
  cases animation.usesMultiplier <;> cases animation.usesOffset <;> rfl

/-- **What the formulas write**: the values of the quantities, one behind the other. -/
theorem values_eq_kept {b : Behavior α} {p : Particle α} {values : List α}
    (hcatalogue : b.IsCatalogue) (h : b.values p = .ok values) : values = (b.kept p).flatMap Prod.snd := by
  unfold Behavior.values at h
  unfold kept
  cases b with
  | time lifecycle =>
    obtain ⟨life, hlife, h⟩ := Outcome.bind_eq_ok.mp h
    cases positive_bind_eq_ok hlife
    cases h
    rfl
  | position | velocity | acceleration =>
    obtain ⟨v, hv, h⟩ := Outcome.bind_eq_ok.mp h
    rw [required_eq_ok.mp hv]
    cases h
    rfl
  | scale curve =>
    obtain ⟨v, hv, h⟩ := Outcome.bind_eq_ok.mp h
    obtain ⟨values, hvalues, h⟩ := Outcome.bind_eq_ok.mp h
    rw [required_eq_ok.mp hv]
    cases h
    simpa using toList_scaleValues hvalues
  | rotationalVelocity =>
    obtain ⟨v, hv, h⟩ := Outcome.bind_eq_ok.mp h
    obtain ⟨values, hvalues, h⟩ := Outcome.bind_eq_ok.mp h
    rw [required_eq_ok.mp hv]
    cases h
    simpa using toList_spinValues hvalues
  | uv =>
    obtain ⟨v, hv, h⟩ := Outcome.bind_eq_ok.mp h
    obtain ⟨values, hvalues, h⟩ := Outcome.bind_eq_ok.mp h
    rw [required_eq_ok.mp hv]
    cases positive_bind_eq_ok hvalues
    cases h
    rfl
  | color animation =>
    obtain ⟨first, hfirst, h⟩ := Outcome.bind_eq_ok.mp h
    obtain ⟨last, hlast, h⟩ := Outcome.bind_eq_ok.mp h
    rw [required_eq_ok.mp hfirst, required_eq_ok.mp hlast]
    cases hcolors : animation.colors <;> simp only [hcolors] at h <;> cases h
    · simp [hcolors]
    · simp [hcolors, toList_colorParts]
  | rotateToHeading | billboard | follow | spriteSheet => cases h
  | custom => exact hcatalogue.elim

end

end Behavior

/-! ### Where it is read -/

/-- The number of a component. -/
def Register.Component.number : Register.Component → Nat
  | x => 0
  | y => 1
  | z => 2
  | w => 3

/-- What a register shows in a component that reads `components` of the values, from `start`
on. -/
def component? (values : List α) (start components : Nat) (k : Register.Component) : Option α :=
  if k.number < components then values[start + k.number]? else none

/-- A stream of a node: the parameter, and the values of the node that it reads. -/
structure Window where
  /-- The number of the parameter. -/
  slot : Nat
  /-- Where the values begin. -/
  start : Nat
  /-- How many they are. -/
  components : Nat
deriving DecidableEq, Repr

/-- The window of a need that is a stream. -/
def Need.window? : Need → Option Window
  | .constants _ _ => none
  | .stream slot start components => some ⟨slot, start, components⟩

namespace Behavior

/-- The windows of a behavior that keeps its parameters for every particle. -/
def windows : Behavior α → List Window
  | time _ | rotationalVelocity _ => [⟨Slot.value, 0, 4⟩]
  | position _ | velocity _ | acceleration _ | follow => [⟨Slot.value, 0, 3⟩]
  | scale curve _ => [⟨Slot.value, 0, curve.length⟩]
  | uv _ _ => [⟨Slot.value, 0, 2⟩]
  | color animation =>
    let start := if animation.usesMultiplier then 8 else 0
    (if animation.usesMultiplier then
      [⟨Slot.startMultiplier, 0, 4⟩, ⟨Slot.deltaMultiplier, 4, 4⟩] else []) ++
    (if animation.usesOffset then
      [⟨Slot.startOffset, start, 4⟩, ⟨Slot.deltaOffset, start + 4, 4⟩] else [])
  | rotateToHeading | billboard _ | spriteSheet _ | custom _ => []

variable {b : Behavior α} {buffer : Buffer} {f : Features}

/-- **No gap and no overlap**: the windows of a behavior are all of its values, one behind
the other. -/
theorem flatMap_windows (hb : b.IsCatalogue) (hmode : b.mode = .perParticle buffer) (base : Nat) :
    b.windows.flatMap (fun w => List.range' (base + w.start) w.components) =
      List.range' base b.length := by
  cases b with
  | time | position | velocity | acceleration | scale | rotationalVelocity | follow | uv =>
    exact List.flatMap_singleton _ _
  | color animation =>
    obtain ⟨usesMultiplier, usesOffset, _, colors⟩ := animation
    cases colors with
    | global => cases hmode
    | perParticle => cases usesMultiplier <;> cases usesOffset <;> rfl
  | rotateToHeading | billboard | spriteSheet => cases hmode
  | custom => exact hb.elim

/-- The code that reads the parameters of a behavior is written: colors and textures only
where the pass animates them, and texture code only if it is asked for. -/
def IsWritten (f : Features) (asked : Bool) : Behavior α → Prop
  | color _ => f.fragmentAnimation = true
  | uv _ _ => f.uvAnimation = true ∧ asked = true
  | _ => True

/-- The needs of a behavior in vertex code, and in texture code if it is asked for. -/
def taken [Scalar α] (f : Features) (asked : Bool) (b : Behavior α) : List Need :=
  b.vertexNeeds f ++ if asked then b.uvNeeds f else []

theorem serves_taken [Scalar α] {asked : Bool} {need : Need} (h : need ∈ b.taken f asked) :
    b.Serves need := by
  rcases List.mem_append.mp h with h | h
  · exact serves_vertexNeeds f b need h
  · cases asked with
    | true => exact serves_uvNeeds f b need h
    | false => exact absurd h List.not_mem_nil

/-- Where the code of a behavior is written it takes the windows of the behavior. -/
theorem windows_taken [Scalar α] {asked : Bool} (hmode : b.mode = .perParticle buffer)
    (hwritten : b.IsWritten f asked) : (b.taken f asked).filterMap Need.window? = b.windows := by
  unfold taken
  cases b with
  | time => cases asked <;> rfl
  | position value | velocity value | acceleration value | scale _ value
  | rotationalVelocity value =>
    cases value with
    | global => cases hmode
    | perParticle => cases asked <;> rfl
  | follow => cases asked <;> rfl
  | uv axis value =>
    obtain ⟨hanimation, rfl⟩ := hwritten
    cases value with
    | global => cases hmode
    | perParticle => simp only [vertexNeeds, uvNeeds, hanimation]; rfl
  | color animation =>
    obtain ⟨usesMultiplier, usesOffset, cycle, colors⟩ := animation
    cases colors with
    | global => cases hmode
    | perParticle =>
      have hanimation : f.fragmentAnimation = true := hwritten
      simp only [vertexNeeds, uvNeeds, hanimation]
      cases asked <;> cases usesMultiplier <;> cases usesOffset <;> cases cycle <;> rfl
  | rotateToHeading | billboard | spriteSheet => cases hmode
  | custom => cases asked <;> rfl

/-- A quantity is shown by windows onto values: that of its parameter shows the values written
for it in the components that it is read by. -/
def Shown (windows : List Window) (values : List α) (entry : Quantity × List α) : Prop :=
  ∃ w ∈ windows, w.slot = entry.1.slot ∧
    entry.1.components.mapM (component? values w.start w.components) = some entry.2

theorem shown_flatMap {β : Type} {value : Option β} {keep : β → List (Quantity × List α)}
    {windows : List Window}
    (h : ∀ v, ∀ entry ∈ keep v, Shown windows ((keep v).flatMap Prod.snd) entry) :
    ∀ entry ∈ value.toList.flatMap keep,
      Shown windows ((value.toList.flatMap keep).flatMap Prod.snd) entry := by
  cases value with
  | none => nofun
  | some v => simpa using h v

theorem shown_vectorKept (v : Vec3 α) : ∀ entry ∈ vectorKept v,
    Shown [⟨Slot.value, 0, 3⟩] ((vectorKept v).flatMap Prod.snd) entry :=
  List.forall_mem_singleton.mpr ⟨_, List.mem_singleton_self _, rfl, rfl⟩

variable [Scalar α]

theorem shown_scaleKept (curve : ScaleCurve) (v : Vec4 α) : ∀ entry ∈ scaleKept curve v,
    Shown [⟨Slot.value, 0, curve.length⟩] ((scaleKept curve v).flatMap Prod.snd) entry := by
  intro entry h
  cases curve <;> simp only [scaleKept, List.mem_cons, List.not_mem_nil, or_false] at h
  case linear => rcases h with rfl | rfl <;> exact ⟨_, List.mem_singleton_self _, rfl, rfl⟩
  case cycle => rcases h with rfl | rfl | rfl <;> exact ⟨_, List.mem_singleton_self _, rfl, rfl⟩
  case phasedCycle =>
    rcases h with rfl | rfl | rfl | rfl <;> exact ⟨_, List.mem_singleton_self _, rfl, rfl⟩

theorem shown_spinKept (spin : Vec4 α) : ∀ entry ∈ spinKept spin,
    Shown [⟨Slot.value, 0, 4⟩] ((spinKept spin).flatMap Prod.snd) entry := by
  refine shown_flatMap fun axis entry h => ?_
  simp only [List.mem_cons, List.not_mem_nil, or_false] at h
  rcases h with rfl | rfl <;> exact ⟨_, List.mem_singleton_self _, rfl, rfl⟩

theorem shown_colorKept (animation : ColorAnimation α) (first last : ColorTransform α) :
    ∀ entry ∈ colorKept animation first last, Shown (color animation).windows
      ((colorKept animation first last).flatMap Prod.snd) entry := by
  obtain ⟨usesMultiplier, usesOffset, _, _⟩ := animation
  cases usesMultiplier <;> cases usesOffset
  · exact nofun
  · exact List.forall_mem_cons.mpr ⟨⟨_, .head _, rfl, rfl⟩,
      List.forall_mem_singleton.mpr ⟨_, .tail _ (.head _), rfl, rfl⟩⟩
  · exact List.forall_mem_cons.mpr ⟨⟨_, .head _, rfl, rfl⟩,
      List.forall_mem_singleton.mpr ⟨_, .tail _ (.head _), rfl, rfl⟩⟩
  · exact List.forall_mem_cons.mpr ⟨⟨_, .head _, rfl, rfl⟩,
      List.forall_mem_cons.mpr ⟨⟨_, .tail _ (.head _), rfl, rfl⟩,
        List.forall_mem_cons.mpr ⟨⟨_, .tail _ (.tail _ (.head _)), rfl, rfl⟩,
          List.forall_mem_singleton.mpr ⟨_, .tail _ (.tail _ (.tail _ (.head _))), rfl, rfl⟩⟩⟩⟩

/-- **What is written is read**: every quantity that is kept for a particle is shown by the
window of its parameter. -/
theorem shown_kept (b : Behavior α) (p : Particle α) :
    ∀ entry ∈ b.kept p, Shown b.windows ((b.kept p).flatMap Prod.snd) entry := by
  unfold kept
  cases b with
  | time =>
    intro entry h
    simp only [List.mem_cons, List.not_mem_nil, or_false] at h
    rcases h with rfl | rfl | rfl | rfl <;> exact ⟨_, List.mem_singleton_self _, rfl, rfl⟩
  | position | velocity => exact shown_flatMap shown_vectorKept
  | acceleration => exact shown_flatMap fun v => shown_vectorKept _
  | scale curve => exact shown_flatMap (shown_scaleKept curve)
  | rotationalVelocity => exact shown_flatMap shown_spinKept
  | uv =>
    refine shown_flatMap fun v entry h => ?_
    simp only [List.mem_cons, List.not_mem_nil, or_false] at h
    rcases h with rfl | rfl <;> exact ⟨_, List.mem_singleton_self _, rfl, rfl⟩
  | color animation =>
    cases hcolors : animation.colors <;> simp only [hcolors]
    · exact nofun
    · exact shown_flatMap fun first => shown_flatMap (shown_colorKept animation first)
  | rotateToHeading | billboard | follow | spriteSheet | custom => exact nofun

end Behavior

/-! ### The code that reads -/

/-- The operand by which the code of a node reads a quantity. -/
def Compilation.operand (c : Compilation α) (n : Node α) (q : Quantity) : Operand where
  kind := .vertexAttribute
  index := (c.index? n.id q.slot).getD 0
  selection := q.selection

namespace Behavior

open Statement

/-- The code that ends a life, by the operands of its quantities. -/
def endingBy (lifecycle : Lifecycle) (shared : SharedRegisters) (value : Quantity → Operand)
    (factor : Register) : Program :=
  if !lifecycle.usesLooping then
    [sge factor (value .duration) shared.time,
     mul shared.vertex.xyz shared.vertex.xyz factor]
  else if lifecycle.usesDelay then
    [div factor shared.time (value .period),
     frc factor factor,
     mul shared.time factor (value .period),
     slt factor shared.time (value .duration),
     mul shared.vertex.xyz shared.vertex.xyz factor]
  else
    [mul factor shared.time (value .inverse),
     frc factor factor,
     mul shared.time factor (value .duration)]

/-- The code that moves a scale, by the operands of its quantities. -/
def changeBy (curve : ScaleCurve) (shared : SharedRegisters) (value : Quantity → Operand)
    (factor : Register) : Program :=
  match curve with
  | .linear => [mul factor (value .range) shared.life]
  | .cycle =>
    [mul factor shared.time (value .cycleSpeed),
     sin factor factor,
     mul factor (value .range) factor]
  | .phasedCycle =>
    [mul factor shared.time (value .cycleSpeed),
     add factor factor (value .cyclePhase),
     sin factor factor,
     mul factor (value .range) factor]

/-- The code that turns a register around an axis. -/
def turnBy (axis : Operand) (angle one cross parallel target : Register) : Program :=
  [crs cross.xyz axis target.xyz,
   mul cross.xyz cross.xyz angle.y,
   dp3 parallel.w axis target.xyz,
   sub parallel.x one angle.z,
   mul parallel.w parallel.w parallel.x,
   mul parallel.xyz axis parallel.w,
   add cross.xyz cross.xyz parallel.xyz,
   mul parallel.xyz target.xyz angle.z,
   add target.xyz cross.xyz parallel.xyz]

/-- The code of a part of a color. -/
def partBy (join : Operand → Operand → Operand → Statement) (first delta : Operand)
    (target temp blend : Register) : Program :=
  [mul temp delta blend,
   add temp temp first,
   join target temp target]

/-- Code of a behavior that reads every quantity of the particle by its operand. The other
registers are those that all nodes share, constants and temporaries. -/
inductive ReadsBy (shared : SharedRegisters) (value : Quantity → Operand) :
    Behavior α → Program → Prop where
  | time (lifecycle : Lifecycle) (now started factor : Register) :
    ReadsBy shared value (.time lifecycle)
      ([sub shared.time now (value .start),
        sge started shared.time shared.zero,
        mul shared.vertex.xyz shared.vertex.xyz started] ++
        (if lifecycle.usesDuration then endingBy lifecycle shared value factor else []) ++
        [mul shared.life shared.time (value .inverse)])
  | position (parameter : Parameter (Vec3 α)) :
    ReadsBy shared value (.position parameter)
      [add shared.displacement.xyz (value .vector) shared.displacement.xyz]
  | velocity (parameter : Parameter (Vec3 α)) (way : Register) :
    ReadsBy shared value (.velocity parameter)
      ([mul way.xyz shared.time (value .vector),
        add shared.displacement.xyz way.xyz shared.displacement.xyz] ++
        shared.velocity.toList.map fun (total : Register) =>
          add total.xyz (value .vector) total.xyz)
  | acceleration (parameter : Parameter (Vec3 α)) (way doubled : Register) :
    ReadsBy shared value (.acceleration parameter)
      (mul way.xyz shared.time (value .vector) ::
        (shared.velocity.toList.flatMap fun (total : Register) =>
          speedProgram shared total way doubled) ++
        [mul way.xyz way.xyz shared.time,
         add shared.displacement.xyz way.xyz shared.displacement.xyz])
  | scale (curve : ScaleCurve) (parameter : Parameter (Vec4 α)) (factor : Register) :
    ReadsBy shared value (.scale curve parameter)
      (changeBy curve shared value factor ++
        [add factor (value .scale) factor,
         mul shared.vertex.xyz shared.vertex.xyz factor])
  | rotationalVelocity (parameter : Parameter (Vec4 α)) (angle cross parallel : Register) :
    ReadsBy shared value (.rotationalVelocity parameter)
      ([mul angle.x shared.time (value .spinSpeed),
        sin angle.y angle.x,
        cos angle.z angle.x] ++
        shared.oriented.flatMap (turnBy (value .axis) angle shared.one cross parallel))
  | follow :
    ReadsBy shared value .follow [add shared.vertex.xyz (value .vector) shared.vertex.xyz]
  | uv (axis : UvAxis) (buffer : Buffer) (coordinate wave : Register) :
    ReadsBy shared value (.uv axis (.perParticle buffer))
      [mul coordinate coordinate (value .scrollScale),
       mul wave shared.time (value .scrollSpeed),
       sin wave wave,
       add coordinate coordinate wave]
  | color (animation : ColorAnimation α) (multiplier offset temp blend : Register)
    (wave : Program) (hlife : animation.cycle = none → blend = shared.life ∧ wave = [])
    (hcycle : ∀ cycle, animation.cycle = some cycle →
      ∃ speed, wave = waveProgram cycle shared speed blend) :
    ReadsBy shared value (.color animation)
      (wave ++
        ((if animation.usesMultiplier then
          partBy mul (value .multiplier) (value .multiplierDelta) multiplier temp blend else []) ++
        (if animation.usesOffset then
          partBy add (value .offset) (value .offsetDelta) offset temp blend else [])))

end Behavior

open Compile Compilation

namespace Compilation

variable {c c' : Compilation α} {n : Node α} {r : Register} {slot : Nat} {q : Quantity}
  {needs : List (Node α × Need)}

theorem operand_takeAll (hledger : c'.ledger = c.ledger.takeAll needs)
    (h : (n.id, q.slot) ∉ needs.map Need.key) : c'.operand n q = c.operand n q := by
  unfold operand
  rw [Ledger.index?_takeAll hledger h]

/-- A quantity is read by the register that is remembered for its parameter. -/
theorem Remembers.operand (h : c.Remembers n slot r) (hkind : r.kind = .vertexAttribute)
    (hq : q.slot = slot) : c.operand n q = r.select q.selection := by
  unfold Compilation.operand Register.select
  rw [hq, h.index, hkind]
  rfl

end Compilation

namespace Behavior

variable {c c' : Compilation α} {n : Node α} {p : Program} {buffer : Buffer}

/-- The quantities of the first parameter are read from one register. -/
def ReadFrom (r : Register) (value : Quantity → Operand) : Prop :=
  ∀ q : Quantity, q.slot = Slot.value → value q = r.select q.selection

section

variable {shared : SharedRegisters} {value : Quantity → Operand} {r : Register}

theorem ReadFrom.time (h : ReadFrom r value) (lifecycle : Lifecycle)
    (now started factor : Register) : ReadsBy shared value (.time lifecycle : Behavior α)
      (startProgram shared r now started ++
        (if lifecycle.usesDuration then endingProgram lifecycle shared r factor else []) ++
        lifeProgram shared r) := by
  have hreads : ReadsBy shared value (.time lifecycle : Behavior α) _ :=
    .time lifecycle now started factor
  simp only [endingBy, h .start rfl, h .duration rfl, h .period rfl, h .inverse rfl] at hreads
  exact hreads

theorem ReadFrom.velocity (h : ReadFrom r value) (parameter : Parameter (Vec3 α)) (way : Register) :
    ReadsBy shared value (.velocity parameter) (velocityProgram shared r way) := by
  have hreads : ReadsBy shared value (.velocity parameter) _ := .velocity parameter way
  rw [h .vector rfl] at hreads
  exact hreads

theorem ReadFrom.scale (h : ReadFrom r value) (curve : ScaleCurve) (parameter : Parameter (Vec4 α))
    (factor : Register) :
    ReadsBy shared value (.scale curve parameter) (scaleProgram curve shared r factor) := by
  have hreads : ReadsBy shared value (.scale curve parameter) _ := .scale curve parameter factor
  cases curve <;> simp only [changeBy, h .scale rfl, h .range rfl, h .cycleSpeed rfl,
    h .cyclePhase rfl] at hreads <;> exact hreads

theorem ReadFrom.rotationalVelocity (h : ReadFrom r value) (parameter : Parameter (Vec4 α))
    (angle cross parallel : Register) :
    ReadsBy shared value (.rotationalVelocity parameter)
      (rotationalVelocityProgram shared r angle cross parallel) := by
  have hreads : ReadsBy shared value (.rotationalVelocity parameter) _ :=
    .rotationalVelocity parameter angle cross parallel
  rw [h .spinSpeed rfl, h .axis rfl] at hreads
  exact hreads

theorem ReadFrom.position (h : ReadFrom r value) (parameter : Parameter (Vec3 α)) :
    ReadsBy shared value (.position parameter) (positionProgram shared r) := by
  have hreads : ReadsBy shared value (.position parameter) _ := .position parameter
  rw [h .vector rfl] at hreads
  exact hreads

theorem ReadFrom.acceleration (h : ReadFrom r value) (parameter : Parameter (Vec3 α))
    (way doubled : Register) :
    ReadsBy shared value (.acceleration parameter) (accelerationProgram shared r way
      (shared.velocity.toList.flatMap fun (total : Register) =>
        speedProgram shared total way doubled)) := by
  have hreads : ReadsBy shared value (.acceleration parameter) _ :=
    .acceleration parameter way doubled
  rw [h .vector rfl] at hreads
  exact hreads

theorem ReadFrom.follow (h : ReadFrom r value) :
    ReadsBy shared value (.follow : Behavior α) (followProgram shared r) := by
  have hreads : ReadsBy shared value (.follow : Behavior α) _ := .follow
  rw [h .vector rfl] at hreads
  exact hreads

theorem ReadFrom.uv [Scalar α] (h : ReadFrom r value) (axis : UvAxis) (buffer : Buffer)
    (coordinate wave : Register) :
    ReadsBy shared value (.uv axis (.perParticle buffer) : Behavior α)
      (uvScrollProgram (.perParticle buffer : Parameter (Vec2 α)) shared coordinate r wave) := by
  have hreads : ReadsBy shared value (.uv axis (.perParticle buffer) : Behavior α) _ :=
    .uv axis buffer coordinate wave
  rw [h .scrollScale rfl, h .scrollSpeed rfl] at hreads
  exact hreads

end

/-- Code of a node that reads its quantities by the operands that are remembered for it. -/
def Finds (c : Compilation α) (n : Node α) (p : Program) : Prop :=
  ∃ shared, c.shared? = .ok shared ∧ n.behavior.ReadsBy shared (c.operand n) p

variable {c c' : Compilation α} {n : Node α} {p : Program} {buffer : Buffer}
  {slot start components : Nat} {r : Register}

/-- A parameter of a node that keeps it for every particle is read from an attribute. -/
theorem remembers_attribute (hmode : n.behavior.mode = .perParticle buffer)
    (hcode : Leads (parameter n.info slot start components) c r c') :
    c'.Remembers n slot r ∧ r.kind = .vertexAttribute := by
  obtain ⟨hvalue, hkind⟩ := remembers_parameter hcode
  rw [Node.parameterKind, hmode] at hkind
  exact ⟨hvalue, hkind⟩

theorem readFrom_parameter (hmode : n.behavior.mode = .perParticle buffer)
    (hcode : Leads (parameter n.info Slot.value start components) c r c') :
    ReadFrom r (c'.operand n) := fun _ =>
  (remembers_attribute hmode hcode).1.operand (remembers_attribute hmode hcode).2

theorem readFrom_bindStream (hcode : Leads (bindStream n.info Slot.value start components) c r c') :
    ReadFrom r (c'.operand n) := fun _ =>
  (remembers_bindStream hcode).1.operand (remembers_bindStream hcode).2

theorem finds_timeCode {lifecycle : Lifecycle} (hbehavior : n.behavior = .time lifecycle)
    (hcode : Leads (timeCode lifecycle n.info) c p c') : Finds c' n p := by
  obtain ⟨stream, c₁, now, hstream, hnow, shared, started, rest, ending, hshared, -, hending,
    rfl⟩ := leads_timeCode.mp hcode
  obtain ⟨hvalue, hkind⟩ := remembers_bindStream hstream
  have hread : ReadFrom stream (c'.operand n) := fun _ =>
    (hvalue.claimConstants hnow (by decide)).operand hkind
  obtain ⟨-, hending⟩ := leads_endingCode.mp hending
  refine ⟨shared, hshared, ?_⟩
  rw [hbehavior]
  have hreads : ∀ factor, ReadsBy shared (c'.operand n) (.time lifecycle : Behavior α) _ :=
    hread.time lifecycle now (Register.temporary started).x
  split at hending <;> rename_i hduration
  · obtain ⟨factor, _, -, rfl⟩ := hending
    simp only [if_pos hduration] at hreads
    exact hreads (Register.temporary factor).x
  · subst hending
    simp only [if_neg hduration] at hreads
    exact hreads now

theorem finds_accelerationCode {value : Parameter (Vec3 α)}
    (hbehavior : n.behavior = .acceleration value) (hmode : n.behavior.mode = .perParticle buffer)
    (hcode : Leads (accelerationCode n.info) c p c') : Finds c' n p := by
  obtain ⟨r, hr, shared, way, rest, speed, hshared, -, hspeed, rfl⟩ :=
    leads_accelerationCode.mp hcode
  have hread : ∀ doubled, ReadsBy shared (c'.operand n) (.acceleration value) _ :=
    (readFrom_parameter hmode hr).acceleration value (.temporary way)
  obtain ⟨-, hspeed⟩ := leads_speedCode.mp hspeed
  refine ⟨shared, hshared, ?_⟩
  rw [hbehavior]
  cases hvelocity : shared.velocity with
  | none =>
    simp only [hvelocity] at hspeed hread
    subst hspeed
    exact hread (.temporary way)
  | some total =>
    simp only [hvelocity] at hspeed hread
    obtain ⟨doubled, _, -, rfl⟩ := hspeed
    exact hread (.temporary doubled)

/-- A part of a color is read from the registers of its two parameters, if it is wanted. -/
theorem partBy_of_colorPart {wanted : Bool} {accumulator : ColorRegisters → Option Register}
    {temp blend : Register} {join : Operand → Operand → Operand → Statement}
    (first delta : Quantity) (hmode : n.behavior.mode = .perParticle buffer)
    (hfirst : first.selection = []) (hdelta : delta.selection = []) (hne : first.slot ≠ delta.slot)
    (hcode : Leads (codeIf wanted (colorPartCode n.info accumulator first.slot delta.slot start
      temp blend join)) c p c') :
    ∃ target, p = if wanted then
      partBy join (c'.operand n first) (c'.operand n delta) target temp blend else [] := by
  rw [leads_codeIf] at hcode
  split at hcode <;> rename_i hwanted
  · obtain ⟨target, r, c₁, r', -, hr, hr', rfl⟩ := leads_colorPartCode.mp hcode
    obtain ⟨hvalue, hkind⟩ := remembers_attribute hmode hr
    obtain ⟨hvalue', hkind'⟩ := remembers_attribute hmode hr'
    have hkept : c'.operand n first = c₁.operand n first :=
      operand_takeAll (records_parameter hr').ledger (by simpa [Need.key] using hne)
    refine ⟨target, ?_⟩
    rw [if_pos hwanted, hkept, hvalue.operand hkind rfl, hvalue'.operand hkind' rfl, hfirst, hdelta,
      ← Register.operand_of_whole hvalue.whole, ← Register.operand_of_whole hvalue'.whole]
    rfl
  · obtain ⟨rfl, -⟩ := hcode
    exact ⟨temp, (if_neg hwanted).symm⟩

/-- The code of a color reads what its two parts read. -/
theorem finds_colorCode {animation : ColorAnimation α} (hbehavior : n.behavior = .color animation)
    (hmode : n.behavior.mode = .perParticle buffer)
    (hcode : Leads (colorCode animation n.info) c p c') (hp : p ≠ []) : Finds c' n p := by
  rw [leads_colorCode] at hcode
  split at hcode
  · obtain ⟨shared, temp, blend, wave, c₁, parts, hshared, hblends, hparts, rfl⟩ := hcode
    obtain ⟨_, hbefore⟩ := grows_blends hblends
    obtain ⟨_, hbehind⟩ := grows_colorPartsCode hparts
    obtain ⟨_, c₂, _, hmultiplier, hoffset, rfl⟩ := leads_colorPartsCode.mp hparts
    obtain ⟨multiplier, rfl⟩ := partBy_of_colorPart .multiplier .multiplierDelta hmode
      rfl rfl (by decide) hmultiplier
    obtain ⟨offset, rfl⟩ := partBy_of_colorPart .offset .offsetDelta hmode
      rfl rfl (by decide) hoffset
    have hkept : ∀ q : Quantity, q.slot < Slot.startOffset →
        c'.operand n q = c₂.operand n q := by
      intro q hq
      refine operand_takeAll (records_colorPart hoffset).ledger fun hmem => ?_
      split at hmem
      · simp only [partNeeds, List.map_cons, List.map_nil, Need.key, Need.slot_parameter,
          List.mem_cons, List.not_mem_nil, Prod.mk.injEq, true_and, or_false] at hmem
        rcases hmem with hslot | hslot <;> rw [hslot] at hq <;> exact absurd hq (by decide)
      · exact absurd hmem List.not_mem_nil
    refine ⟨shared, (hbehind.shared?.trans hbefore.shared?).trans hshared, ?_⟩
    rw [hbehavior, ← hkept .multiplier (by decide), ← hkept .multiplierDelta (by decide)]
    refine .color animation multiplier offset _ blend wave (fun hnone => ?_) fun cycle hcycle => ?_
    · rw [hnone] at hblends
      obtain ⟨-, -, rfl, rfl⟩ := hblends
      exact ⟨rfl, rfl⟩
    · rw [hcycle] at hblends
      obtain ⟨speed, _, _, -, -, -, rfl⟩ := hblends
      exact ⟨speed, rfl⟩
  · exact absurd hcode.1 hp

/-- **Vertex code reads what is kept**: the code of a catalogue node that keeps its parameters
for every particle reads every quantity by the register that is remembered for it. -/
theorem finds_vertexCode (hcatalogue : n.behavior.IsCatalogue)
    (hmode : n.behavior.mode = .perParticle buffer) (hcode : Leads n.vertexCode c p c')
    (hp : p ≠ []) : Finds c' n p := by
  unfold Node.vertexCode at hcode
  cases hbehavior : n.behavior <;> rw [hbehavior] at hcode
  case time lifecycle => exact finds_timeCode hbehavior hcode
  case position value =>
    obtain ⟨r, hr, shared, hshared, rfl⟩ := leads_positionCode.mp hcode
    exact ⟨shared, hshared, hbehavior ▸ (readFrom_parameter hmode hr).position value⟩
  case velocity value =>
    obtain ⟨r, hr, shared, way, rest, hshared, -, rfl⟩ := leads_velocityCode.mp hcode
    exact ⟨shared, hshared, hbehavior ▸ (readFrom_parameter hmode hr).velocity value _⟩
  case acceleration value => exact finds_accelerationCode hbehavior hmode hcode
  case scale curve value =>
    obtain ⟨r, hr, shared, factor, rest, hshared, -, rfl⟩ := leads_scaleCode.mp hcode
    exact ⟨shared, hshared, hbehavior ▸ (readFrom_parameter hmode hr).scale curve value _⟩
  case rotationalVelocity value =>
    obtain ⟨r, hr, shared, angle, cross, parallel, rest, hshared, -, rfl⟩ :=
      leads_rotationalVelocityCode.mp hcode
    exact ⟨shared, hshared,
      hbehavior ▸ (readFrom_parameter hmode hr).rotationalVelocity value _ _ _⟩
  case follow =>
    obtain ⟨r, hr, shared, hshared, rfl⟩ := leads_followCode.mp hcode
    exact ⟨shared, hshared, hbehavior ▸ (readFrom_bindStream hr).follow⟩
  case color animation => exact finds_colorCode hbehavior hmode hcode hp
  case rotateToHeading | billboard =>
    rw [hbehavior] at hmode
    cases hmode
  case custom =>
    rw [hbehavior] at hcatalogue
    exact hcatalogue.elim
  case uv | spriteSheet => exact absurd (leads_result.mp hcode).1 hp

/-- Vertex code that is not empty was written where its windows are taken, and no texture code
takes anything for its node. -/
theorem isWritten_vertexCode [Scalar α] (hcatalogue : n.behavior.IsCatalogue)
    (hcode : Leads n.vertexCode c p c') (hp : p ≠ []) (asked : Bool) :
    n.behavior.IsWritten c.features asked ∧ n.behavior.uvNeeds c.features = [] := by
  unfold Node.vertexCode at hcode
  cases hbehavior : n.behavior <;> rw [hbehavior] at hcode
  case color animation =>
    rw [leads_colorCode] at hcode
    split at hcode <;> rename_i hanimation
    · exact ⟨hanimation, rfl⟩
    · exact absurd hcode.1 hp
  case custom =>
    rw [hbehavior] at hcatalogue
    exact hcatalogue.elim
  case uv | spriteSheet => exact absurd (leads_result.mp hcode).1 hp
  all_goals exact ⟨trivial, rfl⟩

/-- **Texture code reads what is kept.** -/
theorem finds_uvCode [Scalar α] (hcatalogue : n.behavior.IsCatalogue) (hmode : n.behavior.mode = .perParticle buffer)
    (hcode : Leads n.uvCode c p c') (hp : p ≠ []) : Finds c' n p := by
  unfold Node.uvCode at hcode
  cases hbehavior : n.behavior <;> rw [hbehavior] at hcode
  case uv axis value =>
    have hvalue : value = .perParticle buffer := by
      rw [hbehavior] at hmode
      cases value with
      | global => cases hmode
      | perParticle =>
        cases hmode
        rfl
    subst hvalue
    rw [leads_uvScrollCode] at hcode
    split at hcode
    · obtain ⟨registers, -, r, hr, shared, wave, rest, hshared, -, rfl⟩ := hcode
      exact ⟨shared, hshared, hbehavior ▸ (readFrom_parameter hmode hr).uv axis buffer _ _⟩
    · exact absurd hcode.1 hp
  case spriteSheet =>
    rw [hbehavior] at hmode
    cases hmode
  case custom =>
    rw [hbehavior] at hcatalogue
    exact hcatalogue.elim
  all_goals exact absurd (leads_result.mp hcode).1 hp

/-- Texture code that is not empty was written where its windows are taken. -/
theorem isWritten_uvCode [Scalar α] (hcatalogue : n.behavior.IsCatalogue)
    (hcode : Leads n.uvCode c p c') (hp : p ≠ []) : n.behavior.IsWritten c.features true := by
  unfold Node.uvCode at hcode
  cases hbehavior : n.behavior <;> rw [hbehavior] at hcode
  case uv axis value =>
    rw [leads_uvScrollCode] at hcode
    split at hcode <;> rename_i hanimation
    · exact ⟨hanimation, rfl⟩
    · exact absurd hcode.1 hp
  case color => exact absurd (leads_result.mp hcode).1 hp
  case custom =>
    rw [hbehavior] at hcatalogue
    exact hcatalogue.elim
  all_goals trivial

end Behavior

end ParticleShader
