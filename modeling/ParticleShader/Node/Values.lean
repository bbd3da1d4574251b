import ParticleShader.Node.UvCode

/-!
# Values of nodes

The values that a node reads from its constants or from its place in a record.
Both come from the same formulas: a global node applies them to its own
parameter, a node with parameters for each particle to the properties of the
particle.
-/

namespace ParticleShader

namespace Behavior

variable {α : Type} [Scalar α]

/-- A duration that has to be positive. -/
def positive (value : α) (fault : String → PropertyFault) (node : String) : Except Fault Unit :=
  if value ≤ Scalar.zero then .error (.invalidProperty node (fault (Scalar.text value)))
  else .ok ()

/-- The values of a scale: where it starts and how far it goes over the life, or
the middle, half the range, the angular speed and the phase. -/
def scaleValues (curve : ScaleCurve) (scale : Vec4 α) : Except Fault (Vec4 α) := do
  match curve with
  | .linear => return ⟨scale.x, scale.y - scale.x, Scalar.zero, Scalar.zero⟩
  | _ =>
    positive scale.z .cycle "scale"
    return ⟨(scale.x + scale.y) / Scalar.two, (scale.y - scale.x) / Scalar.two,
      Scalar.angularSpeed scale.z, Scalar.radians scale.w⟩

/-- The values of a spin: the axis as a unit vector and the angular speed. -/
def spinValues (spin : Vec4 α) : Except Fault (Vec4 α) := do
  positive spin.w .period "rotational_velocity"
  match spin.xyz.normalize? with
  | none => throw (.invalidProperty "rotational_velocity" .axis)
  | some axis => return axis.extend (Scalar.angularSpeed spin.w)

/-- The values of a scroll: the angular speed and the scale. -/
def uvValues (uv : Vec2 α) : Except Fault (Vec2 α) := do
  positive uv.x .cycle "uv"
  return ⟨Scalar.angularSpeed uv.x, uv.y⟩

/-- A start and a difference between two values: over the life from the first to
the second, in a cycle from the middle by half the difference. -/
def blend (cycle : Option (Cycle α)) (first last : Vec4 α) : Vec4 α × Vec4 α :=
  match cycle with
  | none => (first, last - first)
  | some _ => ((first + last).divBy Scalar.two, (first - last).divBy Scalar.two)

/-- The starts and differences of the animated parts of a color, the multiplier
first. -/
def colorParts (animation : ColorAnimation α) (first last : ColorTransform α) :
    List (Vec4 α × Vec4 α) :=
  (if animation.usesMultiplier then [blend animation.cycle first.multiplier last.multiplier]
    else []) ++
  (if animation.usesOffset then [blend animation.cycle first.offset last.offset] else [])

/-- The values of the life of a particle: start, duration, period of the loop and
the inverse of the duration. -/
def lifeValues (p : Particle α) : Except Fault (Vec4 α) := do
  positive p.duration (.duration p.index) "time"
  return ⟨p.startTime, p.duration, p.delay + p.duration, Scalar.one / p.duration⟩

/-- The constants of a sprite sheet: the columns played per life or per unit of
time, the steps of a column and of a row, and the duration of the cycle. -/
def sheetConstants (sheet : SpriteSheet α) : Vec4 α :=
  let uStep := Scalar.one / Scalar.nat sheet.columns
  let vStep := Scalar.one / Scalar.nat sheet.rows
  let total := Scalar.nat sheet.frames / Scalar.nat sheet.columns
  match sheet.cycle with
  | some cycle => ⟨total / cycle.duration, uStep, vStep, cycle.duration⟩
  | none => ⟨total, uStep, vStep, Scalar.zero⟩

/-- The constants of the cycle of a color: angular speed and phase. -/
def colorCycleConstants (cycle : Cycle α) : Vec4 α :=
  ⟨Scalar.angularSpeed cycle.duration, Scalar.radians (cycle.phase.getD Scalar.zero),
   Scalar.zero, Scalar.zero⟩

/-- A property that a node cannot do without. -/
def required {β : Type} (node property : String) : Option β → Except Fault β
  | some value => .ok value
  | none => .error (.missingProperty node property)

/-- The values that a node keeps for a particle. -/
def values (b : Behavior α) (p : Particle α) : Except Fault (List α) := do
  match b with
  | time _ => return (← lifeValues p).toList
  | position _ => return (← required "position" "position" p.position).toList
  | velocity _ => return (← required "velocity" "velocity" p.velocity).toList
  | acceleration _ =>
    return ((← required "acceleration" "acceleration" p.acceleration).scale Scalar.half).toList
  | scale curve _ =>
    let scale ← required "scale" "scale" p.scale
    return (← scaleValues curve scale).toList.take curve.length
  | rotationalVelocity _ =>
    let spin ← required "rotational_velocity" "rotational_velocity" p.rotationalVelocity
    return (← spinValues spin).toList
  | uv _ _ =>
    let uv ← required "uv" "uv" p.uv
    return (← uvValues uv).toList
  | color animation =>
    let first ← required "color" "color_start" p.colorStart
    let last ← required "color" "color_end" p.colorEnd
    match animation.colors with
    | .global _ => return []
    | .perParticle _ =>
      return (colorParts animation first last).flatMap fun (start, delta) =>
        start.toList ++ delta.toList
  | rotateToHeading | billboard _ | follow | spriteSheet _ =>
    throw (.unimplemented b.name "generate_one_particle_property")
  | custom node => return (← node.values p).toList

end Behavior

end ParticleShader
