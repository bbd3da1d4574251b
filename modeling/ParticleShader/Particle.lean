import ParticleShader.Vector

/-!
# Particles

The properties that one particle brings to the nodes. The life of a particle
always has values; every other property is present only when it was set.
-/

namespace ParticleShader

/-- A color is multiplied and then offset, channel by channel. -/
structure ColorTransform (α : Type) where
  /-- The factors of red, green, blue and alpha. -/
  multiplier : Vec4 α
  /-- The offsets of red, green, blue and alpha. -/
  offset : Vec4 α
deriving DecidableEq

/-- The color transform that changes nothing. -/
def ColorTransform.identity {α : Type} [Scalar α] : ColorTransform α := ⟨Vec4.one, Vec4.zero⟩

/-- The properties of a particle. -/
structure Particle (α : Type) where
  /-- Which particle of its geometry it is. -/
  index : Nat
  /-- How many particles the geometry has. -/
  total : Nat
  /-- When it starts, in seconds. -/
  startTime : α
  /-- How long it lives, in seconds. -/
  duration : α
  /-- The pause between two lives, in seconds. -/
  delay : α
  /-- Its displacement. -/
  position : Option (Vec3 α) := none
  /-- Its velocity at the start. -/
  velocity : Option (Vec3 α) := none
  /-- Its constant acceleration. -/
  acceleration : Option (Vec3 α) := none
  /-- Its least and greatest scale, the duration of the cycle between them and
  the phase in degrees. -/
  scale : Option (Vec4 α) := none
  /-- The axis it spins around and the seconds for one turn. -/
  rotationalVelocity : Option (Vec4 α) := none
  /-- Its color at the start. -/
  colorStart : Option (ColorTransform α) := none
  /-- Its color at the end. -/
  colorEnd : Option (ColorTransform α) := none
  /-- The duration of the cycle of its texture and the scale of it. -/
  uv : Option (Vec2 α) := none
deriving DecidableEq

/-- A particle before anything is set. -/
def Particle.default {α : Type} [Scalar α] (index total : Nat) : Particle α where
  index := index
  total := total
  startTime := Scalar.zero
  duration := Scalar.nat 1000
  delay := Scalar.one / Scalar.nat 10

end ParticleShader
