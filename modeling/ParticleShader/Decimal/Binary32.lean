import ParticleShader.Decimal.Shortest
import ParticleShader.Scalar

/-!
# Binary32 values

The text of a binary32 value and the arithmetic of binary32 as a scalar.

A finite value is written with the fewest digits that read back, always in
positional notation; the sign of a zero is kept.
-/

namespace ParticleShader.Decimal

/-- The interval of a finite positive binary32 value, given by its bits without
the sign. The ends belong to it when the significand is even; the lower end is
nearer when the significand is the least of its binade. -/
def binary32Interval (bits : Nat) : Interval :=
  let exponent : Nat := bits / Nat.pow 2 23
  let fraction : Nat := bits % Nat.pow 2 23
  let (m, q) : Nat × Int :=
    if exponent = 0 then (fraction, -149)
    else (Nat.pow 2 23 + fraction, (exponent : Int) - 150)
  { value := 4 * m
    low := if fraction = 0 ∧ 1 < exponent then 4 * m - 1 else 4 * m - 2
    high := 4 * m + 2
    unit := q - 2
    closed := m % 2 = 0 }

/-- The text of a binary32 value. -/
def binary32Text (a : Float32) : String :=
  let bits := a.toBits.toNat
  let magnitude := bits % Nat.pow 2 31
  let sign := if Nat.pow 2 31 ≤ bits then "-" else ""
  if 255 * Nat.pow 2 23 < magnitude then "NaN"
  else if magnitude = 255 * Nat.pow 2 23 then sign ++ "inf"
  else if magnitude = 0 then sign ++ "0"
  else sign ++ ((binary32Interval magnitude).shortest 39 90 9).positional

end ParticleShader.Decimal

namespace ParticleShader

/-- Binary32, rounding to nearest after every operation. -/
instance : Scalar Float32 where
  nat := Float32.ofNat
  neg := Float32.neg
  abs := Float32.abs
  floor := Float32.floor
  sqrt := Float32.sqrt
  pi := Float32.ofBits 0x40490FDB
  isFinite := Float32.isFinite
  text := Decimal.binary32Text
  decidableLT := inferInstance
  decidableLE := inferInstance

end ParticleShader
