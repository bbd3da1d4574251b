import ParticleShader.Register
import ParticleShader.Text.Blank
import ParticleShader.Text.Numeral

/-!
# Register names

A register is written as the letters of its kind, its index unless it is an
output, and a point and a letter if it is narrowed to a component: `vt2`,
`vc0.x`, `op`. A name may be read with blanks around it, with a `+` or zeros
before the index, and with the color letters `r`, `g`, `b`, `a` for components.
-/

namespace ParticleShader.Register

/-- One more than the largest index that a name may give. -/
def indexBound : Nat := Nat.pow 2 64

/-- The text of a register. -/
def name (r : Register) : String :=
  r.kind.letters ++ (if r.kind.isOutput then "" else toString r.index) ++
    match r.component with
    | none => ""
    | some c => "." ++ c.letter.toString

/-- The component that a letter names, by position or by color. -/
def Component.ofLetter? : Char → Option Component
  | 'x' | 'r' => some .x
  | 'y' | 'g' => some .y
  | 'z' | 'b' => some .z
  | 'w' | 'a' => some .w
  | _ => none

/-- The kinds in the order in which their letters are tried: `v` comes last, as
it begins three others. -/
def Kind.inReadingOrder : List Kind :=
  [.vertexAttribute, .vertexConstant, .vertexTemporary, .fragmentConstant, .fragmentTemporary,
   .vertexOutput, .fragmentOutput, .varying]

/-- The first kind whose letters begin a text, and the text behind them. -/
def Kind.split? (cs : List Char) : Option (Kind × List Char) :=
  Kind.inReadingOrder.findSome? fun kind =>
    (kind.letters.toList.isPrefixOf? cs).map fun rest => (kind, rest)

/-- The register without component that a text names. -/
def whole? (cs : List Char) : Option Register :=
  match Kind.split? cs with
  | none => none
  | some (kind, digits) =>
    if kind.isOutput then if digits.isEmpty then some { kind, index := 0 } else none
    else (Text.numeral? indexBound digits).map fun index => { kind, index }

/-- The register that a text without blanks around it names: what stands behind
the first point has to be one component letter. -/
def ofChars? (cs : List Char) : Option Register :=
  match cs.dropWhile (· != '.') with
  | [] => whole? cs
  | [_, letter] =>
    (Component.ofLetter? letter).bind fun component =>
      (whole? (cs.takeWhile (· != '.'))).map fun r => r.only component
  | _ => none

/-- The register that a text names. -/
def ofName? (name : String) : Option Register := ofChars? (Text.strip name.toList)

end ParticleShader.Register
