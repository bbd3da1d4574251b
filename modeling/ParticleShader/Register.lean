/-!
# Registers

A program addresses a register machine. Every register belongs to a kind, which
is the pool it is numbered in, and has an index in that pool; a reference to it
may be narrowed to one of the four components. The two outputs are single
registers without an index.
-/

namespace ParticleShader

namespace Register

/-- The pool that a register is numbered in. -/
inductive Kind where
  /-- A stream of values that are read per vertex. -/
  | vertexAttribute
  /-- A constant of the vertex program. -/
  | vertexConstant
  /-- A temporary of the vertex program. -/
  | vertexTemporary
  /-- A value that the vertex program hands to the fragment program. -/
  | varying
  /-- A constant of the fragment program. -/
  | fragmentConstant
  /-- A temporary of the fragment program. -/
  | fragmentTemporary
  /-- The position that the vertex program computes. -/
  | vertexOutput
  /-- The color that the fragment program computes. -/
  | fragmentOutput
deriving DecidableEq, Repr

namespace Kind

/-- The letters that begin the name of a register of this kind. -/
def letters : Kind → String
  | vertexAttribute => "va"
  | vertexConstant => "vc"
  | vertexTemporary => "vt"
  | varying => "v"
  | fragmentConstant => "fc"
  | fragmentTemporary => "ft"
  | vertexOutput => "op"
  | fragmentOutput => "oc"

/-- The kind in words. -/
def description : Kind → String
  | vertexAttribute => "vertex attribute"
  | vertexConstant => "vertex constant"
  | vertexTemporary => "vertex temporary"
  | varying => "varying"
  | fragmentConstant => "fragment constant"
  | fragmentTemporary => "fragment temporary"
  | vertexOutput => "vertex output"
  | fragmentOutput => "fragment output"

/-- Whether registers of this kind are outputs. -/
def isOutput : Kind → Bool
  | vertexOutput | fragmentOutput => true
  | _ => false

end Kind

/-- One of the four components of a register. -/
inductive Component where
  /-- The first component. -/
  | x
  /-- The second component. -/
  | y
  /-- The third component. -/
  | z
  /-- The fourth component. -/
  | w
deriving DecidableEq, Repr

/-- The letter of a component. -/
def Component.letter : Component → Char
  | x => 'x'
  | y => 'y'
  | z => 'z'
  | w => 'w'

end Register

/-- A reference to a register, to all of it or to one component. -/
structure Register where
  /-- The pool of the register. -/
  kind : Register.Kind
  /-- The index in the pool. -/
  index : Nat
  /-- The component that is meant, if only one is. -/
  component : Option Register.Component := none
deriving DecidableEq, Repr

namespace Register

/-- The whole register that a reference points into. -/
def base (r : Register) : Register := { r with component := none }

/-- The same register narrowed to a component. -/
def only (r : Register) (c : Component) : Register := { r with component := some c }

/-- The first component of a register. -/
def x (r : Register) : Register := r.only .x

/-- The second component of a register. -/
def y (r : Register) : Register := r.only .y

/-- The third component of a register. -/
def z (r : Register) : Register := r.only .z

/-- The fourth component of a register. -/
def w (r : Register) : Register := r.only .w

end Register

end ParticleShader
