import ParticleShader.Text.Numeral

/-!
# Number literals

The numbers that a command line may give: an optional sign before digits with an
optional point and an optional exponent, or before `inf`, `infinity` or `nan` in
any case. A number is rounded to the nearest binary32 value, ties to even, and
becomes infinite beyond the range.
-/

namespace ParticleShader.Decimal

/-- What a literal writes. -/
inductive Literal where
  /-- An undefined value. -/
  | undefined
  /-- An infinite value. -/
  | infinite (negative : Bool)
  /-- The value `± digits · 10^exponent`. -/
  | finite (negative : Bool) (digits : Nat) (exponent : Int)
deriving DecidableEq, Repr

namespace Literal

/-- A sign and the text behind it. -/
def sign (cs : List Char) : Bool × List Char :=
  match cs with
  | '-' :: rest => (true, rest)
  | '+' :: rest => (false, rest)
  | cs => (false, cs)

/-- The exponent that ends a literal: nothing, or `e` and a whole number with an
optional sign. -/
def exponent? (cs : List Char) : Option Int :=
  match cs with
  | [] => some 0
  | c :: rest =>
    if c = 'e' ∨ c = 'E' then
      let (negative, digits) := sign rest
      (Text.digits? digits).map fun n => if negative then -(n : Int) else n
    else none

/-- The digits of a literal without sign: digits before and after an optional
point, at least one in all, and an exponent. -/
def finite? (negative : Bool) (cs : List Char) : Option Literal :=
  let whole := cs.takeWhile Text.isDigit
  let rest := cs.dropWhile Text.isDigit
  let (fraction, rest) := match rest with
    | '.' :: tail => (tail.takeWhile Text.isDigit, tail.dropWhile Text.isDigit)
    | rest => ([], rest)
  (Text.digits? (whole ++ fraction)).bind fun digits =>
    (exponent? rest).map fun exponent => .finite negative digits (exponent - fraction.length)

/-- The literal that a text is. -/
def ofText? (text : String) : Option Literal :=
  let (negative, cs) := sign text.toList
  let word := String.ofList (cs.map Char.toLower)
  if word = "nan" then some .undefined
  else if word = "inf" ∨ word = "infinity" then some (.infinite negative)
  else finite? negative cs

/-- The nearest binary32 value. The magnitude is compared with the range before
any power of ten is formed. -/
def toFloat32 : Literal → Float32
  | undefined => Float32.ofBits 0x7FC00000
  | infinite negative => Float32.ofBits (if negative then 0xFF800000 else 0x7F800000)
  | finite negative digits exponent =>
    let place := ((Nat.toDigits 10 digits).length : Int) + exponent
    let value : Float32 :=
      if digits = 0 ∨ place < -60 then Float32.ofBits 0
      else if 60 < place then Float32.ofBits 0x7F800000
      else OfScientific.ofScientific digits (exponent < 0) exponent.natAbs
    if negative then -value else value

end Literal

/-- The binary32 value that a text writes. -/
def binary32? (text : String) : Option Float32 :=
  (Literal.ofText? text).map Literal.toFloat32

end ParticleShader.Decimal
