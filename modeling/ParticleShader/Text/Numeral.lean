/-!
# Numerals

Reading and writing counts in decimal. A count is read from an optional `+` and
at least one ASCII digit; leading zeros are allowed and the value has to stay
below a bound.
-/

namespace ParticleShader.Text

/-- The value of an ASCII digit. -/
def digit? (c : Char) : Option Nat :=
  if '0' ≤ c ∧ c ≤ '9' then some (c.toNat - 48) else none

/-- Whether a character is an ASCII digit. -/
def isDigit (c : Char) : Bool := (digit? c).isSome

/-- The value of a run of digits that follows the digits of `n`. -/
def digitsFrom (n : Nat) : List Char → Option Nat
  | [] => some n
  | c :: cs => (digit? c).bind fun d => digitsFrom (10 * n + d) cs

/-- The value of a non-empty run of digits. -/
def digits? : List Char → Option Nat
  | [] => none
  | cs => digitsFrom 0 cs

/-- The count below `bound` that a text writes, a leading `+` allowed. -/
def numeral? (bound : Nat) (cs : List Char) : Option Nat :=
  let digits := match cs with
    | '+' :: rest => rest
    | cs => cs
  (digits? digits).filter (· < bound)

/-- `text` with blanks in front, up to `width` characters. -/
def padLeft (width : Nat) (text : String) : String :=
  String.ofList (List.replicate (width - text.length) ' ') ++ text

/-- `text` with blanks behind, up to `width` characters. -/
def padRight (width : Nat) (text : String) : String :=
  text ++ String.ofList (List.replicate (width - text.length) ' ')

end ParticleShader.Text
