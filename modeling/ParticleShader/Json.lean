import ParticleShader.Text.Numeral

/-!
# JSON values

The values of JSON as they are written: members keep their order and may repeat,
numbers keep their digits, and a string that holds half of a surrogate pair is
kept as unreadable. What is made of such a value is up to its reader.
-/

namespace ParticleShader

namespace Json

/-- A number as it is written. -/
structure Number where
  /-- Whether a minus sign is in front. -/
  negative : Bool
  /-- The digits before the point. -/
  whole : List Nat
  /-- The digits behind the point, if there is one. -/
  fraction : List Nat := []
  /-- Whether the exponent is negative, and its digits. -/
  exponent : Option (Bool × List Nat) := none
deriving DecidableEq, Repr

/-- The text of a string, or nothing if half of a surrogate pair is in it. -/
abbrev Name : Type := Option String

end Json

/-- A JSON value. -/
inductive Json where
  /-- The value `null`. -/
  | null
  /-- A truth value. -/
  | bool (value : Bool)
  /-- A number. -/
  | number (value : Json.Number)
  /-- A string. -/
  | string (value : Json.Name)
  /-- An array. -/
  | array (items : List Json)
  /-- An object. -/
  | object (members : List (Json.Name × Json))

end ParticleShader
