/-!
# Scalars

Particle values are computed in one arithmetic, which is a parameter of the
whole library: binary32 when programs are compiled and buffers are filled, an
exact field when the formulas are reasoned about. `Scalar` lists what the
formulas use, in the order of operations they are written in.
-/

namespace ParticleShader

/-- The arithmetic of particle values. -/
class Scalar (α : Type) extends Add α, Sub α, Mul α, Div α, LT α, LE α where
  /-- The value of a count. -/
  nat : Nat → α
  /-- The opposite value. -/
  neg : α → α
  /-- The magnitude. -/
  abs : α → α
  /-- The largest whole value that is not above. -/
  floor : α → α
  /-- The square root. -/
  sqrt : α → α
  /-- Half of a full turn, in radians. -/
  pi : α
  /-- Whether a value is neither infinite nor undefined. -/
  isFinite : α → Bool
  /-- The decimal text of a value, as messages and listings show it. -/
  text : α → String
  /-- The strict order can be decided. -/
  decidableLT : DecidableLT α
  /-- The order can be decided. -/
  decidableLE : DecidableLE α

namespace Scalar

variable {α : Type} [Scalar α]

instance : DecidableLT α := decidableLT

instance : DecidableLE α := decidableLE

/-- The value `0`. -/
def zero : α := nat 0

/-- The value `1`. -/
def one : α := nat 1

/-- The value `2`. -/
def two : α := nat 2

/-- The value `1/2`. -/
def half : α := (one : α) / two

/-- A full turn, in radians. -/
def tau : α := two * pi

/-- The distance between `1` and the next binary32 value, `2⁻²³`. -/
def epsilon : α := (one : α) / nat 8388608

/-- An angle of `degrees`, in radians. -/
def radians (degrees : α) : α := degrees * pi / nat 180

/-- The angle per unit of time that makes one turn in `period`. -/
def angularSpeed (period : α) : α := two * pi / period

/-- The text of a list of values. -/
def listText (values : List α) : String := "[" ++ ", ".intercalate (values.map text) ++ "]"

end Scalar

end ParticleShader
