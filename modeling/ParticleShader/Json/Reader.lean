import ParticleShader.Json
import ParticleShader.Text.Numeral

/-!
# Reading JSON

The strict syntax of JSON: no blanks but space, tab and line ends, no leading
zeros, no trailing commas, no control characters in strings, and nothing behind
the value. Values may be nested to any depth.
-/

namespace ParticleShader.Json

/-- The text behind blanks. -/
def skipBlanks (cs : List Char) : List Char :=
  cs.dropWhile fun c => c = ' ' || c = '\t' || c = '\n' || c = '\r'

/-- The digits at the front of a text, and the text behind them. -/
def spanDigits : List Char → List Nat × List Char
  | [] => ([], [])
  | c :: cs =>
    match Text.digit? c with
    | none => ([], c :: cs)
    | some d =>
      let (ds, rest) := spanDigits cs
      (d :: ds, rest)

/-! ### Numbers -/

/-- At least one digit. -/
def digits? (cs : List Char) : Option (List Nat × List Char) :=
  match spanDigits cs with
  | ([], _) => none
  | (ds, rest) => some (ds, rest)

/-- The digits before the point: a zero stands alone. -/
def wholeDigits? (cs : List Char) : Option (List Nat × List Char) :=
  match digits? cs with
  | some (0 :: _ :: _, _) => none
  | result => result

/-- The digits behind a point, or none without a point. -/
def fractionDigits? (cs : List Char) : Option (List Nat × List Char) :=
  match cs with
  | '.' :: rest => digits? rest
  | _ => some ([], cs)

/-- The exponent, if there is one. -/
def exponent? (cs : List Char) : Option (Option (Bool × List Nat) × List Char) :=
  match cs with
  | c :: rest =>
    if c = 'e' || c = 'E' then
      let (negative, rest) := match rest with
        | '-' :: rest => (true, rest)
        | '+' :: rest => (false, rest)
        | rest => (false, rest)
      (digits? rest).map fun (ds, rest) => (some (negative, ds), rest)
    else some (none, cs)
  | [] => some (none, [])

/-- A number. -/
def number? (cs : List Char) : Option (Number × List Char) := do
  let (negative, cs) := match cs with
    | '-' :: rest => (true, rest)
    | cs => (false, cs)
  let (whole, cs) ← wholeDigits? cs
  let (fraction, cs) ← fractionDigits? cs
  let (exponent, cs) ← exponent? cs
  return ({ negative, whole, fraction, exponent }, cs)

/-! ### Strings -/

/-- The value of a hexadecimal digit. -/
def hexDigit? (c : Char) : Option Nat :=
  if '0' ≤ c ∧ c ≤ '9' then some (c.toNat - 48)
  else if 'a' ≤ c ∧ c ≤ 'f' then some (c.toNat - 87)
  else if 'A' ≤ c ∧ c ≤ 'F' then some (c.toNat - 55)
  else none

/-- The unit that four hexadecimal digits write. -/
def hexUnit? : List Char → Option (Nat × List Char)
  | a :: b :: c :: d :: rest => do
    let a ← hexDigit? a
    let b ← hexDigit? b
    let c ← hexDigit? c
    let d ← hexDigit? d
    return (((a * 16 + b) * 16 + c) * 16 + d, rest)
  | _ => none

/-- The character behind a backslash, apart from `u`. -/
def escaped? : Char → Option Char
  | '"' => some '"'
  | '\\' => some '\\'
  | '/' => some '/'
  | 'b' => some '\x08'
  | 'f' => some '\x0c'
  | 'n' => some '\n'
  | 'r' => some '\r'
  | 't' => some '\t'
  | _ => none

/-- A piece of a string: a character, or a unit that an escape writes. -/
inductive Piece where
  /-- A character. -/
  | char (c : Char)
  /-- A unit of UTF-16. -/
  | unit (n : Nat)

/-- The pieces of a string up to its closing quote, and the text behind it. -/
def pieces? : Nat → List Char → Option (List Piece × List Char)
  | 0, _ => none
  | _ + 1, [] => none
  | _ + 1, '"' :: rest => some ([], rest)
  | fuel + 1, '\\' :: 'u' :: rest => do
    let (n, rest) ← hexUnit? rest
    let (ps, rest) ← pieces? fuel rest
    return (.unit n :: ps, rest)
  | fuel + 1, '\\' :: c :: rest => do
    let c ← escaped? c
    let (ps, rest) ← pieces? fuel rest
    return (.char c :: ps, rest)
  | fuel + 1, c :: rest =>
    if c = '\\' || c.toNat < 0x20 then none
    else do
      let (ps, rest) ← pieces? fuel rest
      return (.char c :: ps, rest)

/-- The characters of pieces. Two units that form a surrogate pair are one
character; half of a pair is none. -/
def characters? : List Piece → Option (List Char)
  | [] => some []
  | .char c :: ps => (characters? ps).map (c :: ·)
  | .unit high :: ps =>
    if 0xD800 ≤ high && high < 0xDC00 then
      match ps with
      | .unit low :: ps =>
        if 0xDC00 ≤ low && low < 0xE000 then
          (characters? ps).map
            (Char.ofNat (0x10000 + (high - 0xD800) * 0x400 + (low - 0xDC00)) :: ·)
        else none
      | _ => none
    else if 0xDC00 ≤ high && high < 0xE000 then none
    else (characters? ps).map (Char.ofNat high :: ·)

/-- A string behind its opening quote. -/
def string? (cs : List Char) : Option (Name × List Char) :=
  (pieces? (cs.length + 1) cs).map fun (ps, rest) => ((characters? ps).map String.ofList, rest)

/-! ### Values -/

/-- The text behind a character, blanks before it skipped. -/
def after? (c : Char) (cs : List Char) : Option (List Char) :=
  match skipBlanks cs with
  | d :: rest => if d = c then some rest else none
  | [] => none

mutual

/-- A value. -/
def value? : Nat → List Char → Option (Json × List Char)
  | 0, _ => none
  | fuel + 1, cs =>
    match skipBlanks cs with
    | 'n' :: 'u' :: 'l' :: 'l' :: rest => some (.null, rest)
    | 't' :: 'r' :: 'u' :: 'e' :: rest => some (.bool true, rest)
    | 'f' :: 'a' :: 'l' :: 's' :: 'e' :: rest => some (.bool false, rest)
    | '"' :: rest => (string? rest).map fun (s, rest) => (.string s, rest)
    | '[' :: rest =>
      match after? ']' rest with
      | some rest => some (.array [], rest)
      | none => (items? fuel rest).map fun (items, rest) => (.array items, rest)
    | '{' :: rest =>
      match after? '}' rest with
      | some rest => some (.object [], rest)
      | none => (members? fuel rest).map fun (members, rest) => (.object members, rest)
    | cs => (number? cs).map fun (n, rest) => (.number n, rest)

/-- The items of an array, at least one, up to its bracket. -/
def items? : Nat → List Char → Option (List Json × List Char)
  | 0, _ => none
  | fuel + 1, cs => do
    let (item, rest) ← value? fuel cs
    match skipBlanks rest with
    | ']' :: rest => return ([item], rest)
    | ',' :: rest =>
      let (items, rest) ← items? fuel rest
      return (item :: items, rest)
    | _ => none

/-- The members of an object, at least one, up to its brace. -/
def members? : Nat → List Char → Option (List (Name × Json) × List Char)
  | 0, _ => none
  | fuel + 1, cs => do
    let (name, rest) ← string? (← after? '"' cs)
    let (value, rest) ← value? fuel (← after? ':' rest)
    match skipBlanks rest with
    | '}' :: rest => return ([(name, value)], rest)
    | ',' :: rest =>
      let (members, rest) ← members? fuel rest
      return ((name, value) :: members, rest)
    | _ => none

end

/-- The value that a text writes. Every step of the reader takes a character or
goes from items to an item, so twice the length bounds its depth. -/
def ofText? (text : String) : Option Json :=
  let cs := text.toList
  match value? (2 * cs.length + 2) cs with
  | some (value, rest) => if (skipBlanks rest).isEmpty then some value else none
  | none => none

end ParticleShader.Json
