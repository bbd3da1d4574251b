/-!
# Shortest decimals

A binary value `m · 2^q` is written with the fewest decimal digits that read
back to it: of all decimals inside the interval of numbers that round to the
value, the one with the fewest digits, and of those the nearest, the larger one
when two are equally near. Everything is computed in natural numbers.
-/

namespace ParticleShader.Decimal

/-- A decimal number `digits · 10^exponent`. -/
structure Scaled where
  /-- The decimal digits as one number. -/
  digits : Nat
  /-- The power of ten. -/
  exponent : Int
deriving DecidableEq, Repr

/-- The numbers that round to a binary value: `value`, `low` and `high` are in
units of `2^unit`. -/
structure Interval where
  /-- The value itself. -/
  value : Nat
  /-- The lower end. -/
  low : Nat
  /-- The upper end. -/
  high : Nat
  /-- The power of two of the unit. -/
  unit : Int
  /-- Whether the ends round to the value too. -/
  closed : Bool

namespace Interval

/-- `n · 2^unit` in units of `10^x`, as a quotient. -/
def inUnits (n : Nat) (unit x : Int) : Nat × Nat :=
  (n * Nat.pow 2 unit.toNat * Nat.pow 10 (-x).toNat,
   Nat.pow 2 (-unit).toNat * Nat.pow 10 x.toNat)

/-- Whether `c · 10^x` is in the interval. -/
def contains (i : Interval) (c : Nat) (x : Int) : Bool :=
  let (low, den) := inUnits i.low i.unit x
  let (high, _) := inUnits i.high i.unit x
  if i.closed then low ≤ c * den && c * den ≤ high else low < c * den && c * den < high

/-- The neighbour of the value on the grid of step `10^x` that is in the
interval, the nearer one when both are and the upper one when they are equally
near. -/
def onGrid? (i : Interval) (x : Int) : Option Scaled :=
  let (value, den) := inUnits i.value i.unit x
  let below := value / den
  let above := below + 1
  match i.contains below x, i.contains above x with
  | true, true =>
    if value - below * den < above * den - value then some ⟨below, x⟩ else some ⟨above, x⟩
  | true, false => some ⟨below, x⟩
  | false, true => some ⟨above, x⟩
  | false, false => none

/-- The place of the leading decimal digit of the value, searched downwards from
`x` in at most `fuel` steps. -/
def leadingPlace (i : Interval) : Nat → Int → Int
  | 0, x => x
  | fuel + 1, x =>
    let (value, den) := inUnits i.value i.unit x
    if den ≤ value then x else leadingPlace i fuel (x - 1)

/-- The first grid that has a decimal in the interval, from step `10^x` down. -/
def firstGrid (i : Interval) : Nat → Int → Scaled
  | 0, x => (i.onGrid? x).getD ⟨0, 0⟩
  | fuel + 1, x => (i.onGrid? x).getD (firstGrid i fuel (x - 1))

/-- The shortest decimal of the interval; `top` is a place above its leading
digit, `places` the number of places that are searched for that digit and
`size` a number of digits that always suffices. -/
def shortest (i : Interval) (top : Int) (places size : Nat) : Scaled :=
  i.firstGrid size (i.leadingPlace places top)

end Interval

/-- The digits in positional notation, without an exponent and without zeros at
the end of the fraction. -/
def Scaled.positional (d : Scaled) : String :=
  let text := (toString d.digits).toList
  if 0 ≤ d.exponent then
    String.ofList (text ++ List.replicate d.exponent.toNat '0')
  else
    let places := (-d.exponent).toNat
    let padded := List.replicate (places + 1 - text.length) '0' ++ text
    let whole := padded.take (padded.length - places)
    let fraction := (padded.drop (padded.length - places)).reverse.dropWhile (· == '0')
    String.ofList (if fraction.isEmpty then whole else whole ++ '.' :: fraction.reverse)

end ParticleShader.Decimal
