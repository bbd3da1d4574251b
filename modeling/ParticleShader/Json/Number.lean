import ParticleShader.Json

/-!
# Numbers of JSON

A number without point and exponent that fits in a signed or unsigned word of 64
bits is an integer. Every other number is a binary64 value, made from as many
leading digits as fit in a word: they are rounded to binary64 and multiplied or
divided by a power of ten, with a rounding after each step. A number beyond the
range is no value.
-/

namespace ParticleShader.Json.Number

/-- One more than the largest word. -/
def wordBound : Nat := Nat.pow 2 64

/-- One more than the largest exponent that is taken as written. -/
def exponentBound : Nat := Nat.pow 2 31

/-- The integer that a number writes. A zero with a minus sign is none. -/
def integer? (n : Number) : Option Int :=
  if n.fraction.isEmpty && n.exponent.isNone then
    let magnitude : Nat := n.whole.foldl (10 * · + ·) 0
    if n.negative then
      if 0 < magnitude ∧ magnitude ≤ Nat.pow 2 63 then some (-magnitude) else none
    else if magnitude < wordBound then some magnitude else none
  else none

/-- Appends digits to a significand while it fits in a word, and gives the digits
that are left. -/
def absorb (significand : Nat) : List Nat → Nat × List Nat
  | [] => (significand, [])
  | d :: ds =>
    let next := 10 * significand + d
    if next < wordBound then absorb next ds else (significand, d :: ds)

/-- The value of exponent digits, or nothing if they exceed what is taken as
written. -/
def exponentDigits? (digits : List Nat) : Option Nat :=
  let value : Nat := digits.foldl (10 * · + ·) 0
  if value < exponentBound then some value else none

/-- The power of ten. -/
def powerOfTen (n : Nat) : Float := Float.ofScientific 1 false n

/-- `value · 10^exponent`, in steps of at most 308 places. From the third step on a
value that is scaled down is zero, so `fuel` of four suffices. -/
def scaled : Nat → Float → Int → Option Float
  | 0, value, _ => some value
  | fuel + 1, value, exponent =>
    if exponent.natAbs ≤ 308 then
      if 0 ≤ exponent then
        let product := value * powerOfTen exponent.natAbs
        if product.isInf then none else some product
      else some (value / powerOfTen exponent.natAbs)
    else if value == 0 then some value
    else if 0 ≤ exponent then none
    else scaled fuel (value / powerOfTen 308) (exponent + 308)

/-- The magnitude of a number as a binary64 value. -/
def magnitude? (n : Number) : Option Float :=
  let (leading, dropped) := absorb 0 n.whole
  let (significand, ignored) := absorb leading n.fraction
  let place : Int := dropped.length - (n.fraction.length - ignored.length : Nat)
  match n.exponent with
  | none => scaled 4 (Float.ofNat significand) place
  | some (negative, digits) =>
    match exponentDigits? digits with
    | some e =>
      scaled 4 (Float.ofNat significand) (if negative then place - e else place + e)
    | none => if significand = 0 ∨ negative then some 0 else none

/-- The binary64 value of a number. -/
def binary64? (n : Number) : Option Float :=
  n.magnitude?.map fun value => if n.negative then -value else value

/-- The binary32 value of a number: an integer is rounded once, any other number
by way of binary64. -/
def binary32? (n : Number) : Option Float32 :=
  match n.integer? with
  | some i => some (Float32.ofInt i)
  | none => n.binary64?.map Float.toFloat32

/-- Whether a number has a value. -/
def inRange (n : Number) : Bool := n.integer?.isSome || n.binary64?.isSome

end ParticleShader.Json.Number
