/-!
# Byte sizes

The size of a file in words: the count in binary64, divided by 1000 until it is
below 1000, and the unit. A whole number of units has no decimals, any other
size has two, rounded to nearest with ties to even.
-/

namespace ParticleShader.Text

/-- The units of a byte size, each 1000 times the one before. -/
def byteUnits : List String := ["B", "kB", "MB", "GB", "TB", "PB", "EB"]

/-- The quotient rounded to the nearest whole number, ties to even. -/
def roundDiv (num den : Nat) : Nat :=
  let whole := num / den
  let twice := 2 * (num % den)
  if twice < den ∨ (twice = den ∧ whole % 2 = 0) then whole else whole + 1

/-- A finite binary64 value that is not negative, with two decimals. -/
def twoPlaces (a : Float) : String :=
  let bits := a.toBits.toNat
  let exponent : Nat := bits / Nat.pow 2 52
  let fraction : Nat := bits % Nat.pow 2 52
  let (m, q) : Nat × Int :=
    if exponent = 0 then (fraction, -1074)
    else (Nat.pow 2 52 + fraction, (exponent : Int) - 1075)
  let hundredths := roundDiv (m * 100 * Nat.pow 2 q.toNat) (Nat.pow 2 (-q).toNat)
  let rest := hundredths % 100
  s!"{hundredths / 100}." ++ (if rest < 10 then "0" else "") ++ toString rest

/-- A size in the largest of `units` that does not exceed it. -/
def sizeIn (size : Float) : List String → String
  | [] => ""
  | [unit] => render size unit
  | unit :: larger => if size < 1000 then render size unit else sizeIn (size / 1000) larger
where
  /-- The number and the unit. -/
  render (size : Float) (unit : String) : String :=
    let whole := size.floor
    let text :=
      if size - whole ≤ Float.ofBits 0x3CB0000000000000 then toString whole.toUInt64.toNat
      else twoPlaces size
    text ++ " " ++ unit

/-- The text of a size in bytes. -/
def byteSize (bytes : Nat) : String := sizeIn (Float.ofNat bytes) byteUnits

end ParticleShader.Text
