import ParticleShader.Register.Name

/-!
# Instructions

A program is a list of statements. Almost all of them are instructions: an
operation, the register it writes and the registers it reads. A register is
written or read as a whole, by one component or by a selection of components.
A node that is not of the catalogue may also contribute text of its own.
-/

namespace ParticleShader

/-- An operation of the register machine. -/
inductive Operation where
  /-- The value of its source. -/
  | mov
  /-- The sum. -/
  | add
  /-- The difference. -/
  | sub
  /-- The product, component by component. -/
  | mul
  /-- The quotient. -/
  | div
  /-- The fractional part. -/
  | frc
  /-- `1` where the first source is not below the second, `0` elsewhere. -/
  | sge
  /-- `1` where the first source is below the second, `0` elsewhere. -/
  | slt
  /-- The sine. -/
  | sin
  /-- The cosine. -/
  | cos
  /-- The vector of three components made one long. -/
  | nrm
  /-- The vector product. -/
  | crs
  /-- The scalar product of three components. -/
  | dp3
  /-- The product with a matrix of three rows in consecutive registers. -/
  | m33
deriving DecidableEq, Repr

/-- The name of an operation. -/
def Operation.name : Operation → String
  | mov => "mov"
  | add => "add"
  | sub => "sub"
  | mul => "mul"
  | div => "div"
  | frc => "frc"
  | sge => "sge"
  | slt => "slt"
  | sin => "sin"
  | cos => "cos"
  | nrm => "nrm"
  | crs => "crs"
  | dp3 => "dp3"
  | m33 => "m33"

/-- A register as an instruction writes or reads it. -/
structure Operand where
  /-- The pool of the register. -/
  kind : Register.Kind
  /-- The index in the pool. -/
  index : Nat
  /-- The components that are meant, all of them when the list is empty. -/
  selection : List Register.Component := []
deriving DecidableEq, Repr

namespace Operand

/-- The register of an operand. -/
def register (o : Operand) : Register := { kind := o.kind, index := o.index }

/-- The text of an operand. -/
def text (o : Operand) : String :=
  o.register.name ++
    if o.selection.isEmpty then ""
    else "." ++ String.ofList (o.selection.map Register.Component.letter)

end Operand

namespace Register

/-- The operand that a reference to a register is. -/
def operand (r : Register) : Operand :=
  { kind := r.kind, index := r.index, selection := r.component.toList }

instance : Coe Register Operand := ⟨operand⟩

/-- Some components of the whole register. -/
def select (r : Register) (selection : List Component) : Operand :=
  { kind := r.kind, index := r.index, selection }

/-- The first two components of the whole register. -/
def xy (r : Register) : Operand := r.select [.x, .y]

/-- The first three components of the whole register. -/
def xyz (r : Register) : Operand := r.select [.x, .y, .z]

end Register

/-- An operation with its operands. -/
structure Instruction where
  /-- What is computed. -/
  operation : Operation
  /-- Where the result goes. -/
  target : Operand
  /-- What is read, in order. -/
  sources : List Operand
deriving DecidableEq, Repr

/-- The line of an instruction. -/
def Instruction.text (i : Instruction) : String :=
  i.operation.name ++ " " ++ ", ".intercalate ((i.target :: i.sources).map Operand.text) ++ "\n"

/-- A piece of a program. -/
inductive Statement where
  /-- An instruction. -/
  | instruction (i : Instruction)
  /-- Text that is taken as it is. -/
  | verbatim (text : String)
deriving DecidableEq, Repr

namespace Statement

/-- The text of a statement. -/
def text : Statement → String
  | instruction i => i.text
  | verbatim t => t

/-- An operation of one source. -/
def unary (operation : Operation) (target a : Operand) : Statement :=
  instruction ⟨operation, target, [a]⟩

/-- An operation of two sources. -/
def binary (operation : Operation) (target a b : Operand) : Statement :=
  instruction ⟨operation, target, [a, b]⟩

/-- A copy. -/
def mov : Operand → Operand → Statement := unary .mov

/-- A sum. -/
def add : Operand → Operand → Operand → Statement := binary .add

/-- A difference. -/
def sub : Operand → Operand → Operand → Statement := binary .sub

/-- A product. -/
def mul : Operand → Operand → Operand → Statement := binary .mul

/-- A quotient. -/
def div : Operand → Operand → Operand → Statement := binary .div

/-- A fractional part. -/
def frc : Operand → Operand → Statement := unary .frc

/-- A comparison that gives `1` where the first source is not below the second. -/
def sge : Operand → Operand → Operand → Statement := binary .sge

/-- A comparison that gives `1` where the first source is below the second. -/
def slt : Operand → Operand → Operand → Statement := binary .slt

/-- A sine. -/
def sin : Operand → Operand → Statement := unary .sin

/-- A cosine. -/
def cos : Operand → Operand → Statement := unary .cos

/-- A normalization. -/
def nrm : Operand → Operand → Statement := unary .nrm

/-- A vector product. -/
def crs : Operand → Operand → Operand → Statement := binary .crs

/-- A scalar product. -/
def dp3 : Operand → Operand → Operand → Statement := binary .dp3

/-- A product with a matrix. -/
def m33 : Operand → Operand → Operand → Statement := binary .m33

end Statement

/-- A program or a part of one. -/
abbrev Program := List Statement

/-- The text of a program. -/
def Program.text (p : Program) : String := String.join (p.map Statement.text)

end ParticleShader
