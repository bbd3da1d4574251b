import ParticleShader.Register

/-!
# Profiles

A profile is a version of the shading language and fixes how many registers of
each kind one program may use.
-/

namespace ParticleShader

/-- How many registers of each kind a program may use. -/
structure Limits where
  /-- Vertex attributes. -/
  vertexAttributes : Nat
  /-- Vertex constants. -/
  vertexConstants : Nat
  /-- Vertex temporaries. -/
  vertexTemporaries : Nat
  /-- Varyings. -/
  varyings : Nat
  /-- Fragment constants. -/
  fragmentConstants : Nat
  /-- Fragment temporaries. -/
  fragmentTemporaries : Nat
deriving DecidableEq, Repr

/-- The number of registers of a kind; an output is a single register. -/
def Limits.of (l : Limits) : Register.Kind → Nat
  | .vertexAttribute => l.vertexAttributes
  | .vertexConstant => l.vertexConstants
  | .vertexTemporary => l.vertexTemporaries
  | .varying => l.varyings
  | .fragmentConstant => l.fragmentConstants
  | .fragmentTemporary => l.fragmentTemporaries
  | .vertexOutput | .fragmentOutput => 1

/-- A version of the shading language. -/
inductive Profile where
  /-- The smallest register file. -/
  | baseline
  /-- The smallest number of vertex temporaries with the larger pools otherwise. -/
  | baselineExtended
  /-- The full register file. -/
  | standard
deriving DecidableEq, Repr

namespace Profile

/-- The register budget of a profile. -/
def limits : Profile → Limits
  | baseline =>
    { vertexAttributes := 8, vertexConstants := 128, vertexTemporaries := 8, varyings := 8
      fragmentConstants := 28, fragmentTemporaries := 8 }
  | baselineExtended =>
    { vertexAttributes := 8, vertexConstants := 250, vertexTemporaries := 8, varyings := 10
      fragmentConstants := 64, fragmentTemporaries := 26 }
  | standard =>
    { vertexAttributes := 8, vertexConstants := 250, vertexTemporaries := 26, varyings := 10
      fragmentConstants := 64, fragmentTemporaries := 26 }

/-- The name of a profile. -/
def name : Profile → String
  | baseline => "baseline"
  | baselineExtended => "baseline_extended"
  | standard => "standard"

/-- The profile with exactly this name. -/
def ofName? (text : String) : Option Profile :=
  [baseline, baselineExtended, standard].find? (·.name == text)

/-- The profile that a user names: letters in any case, `-` for `_`, and the
separator may be missing. No letter outside ASCII has one of the letters of the
names as its lower-case form. -/
def ofText? (text : String) : Option Profile :=
  let word := String.ofList (text.toList.map fun c => if c = '-' then '_' else c.toLower)
  if word = "baselineextended" then some baselineExtended else ofName? word

end Profile

end ParticleShader
