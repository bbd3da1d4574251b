import Mathlib.Logic.Function.Basic
import ParticleShader.Proofs.Instruction.Accesses
import ParticleShader.Proofs.Compilation.Temporaries

/-!
# Renamed registers

A program in which other registers are meant: every operand keeps its components, and verbatim
text is left alone. An exchange takes some consecutive constants for as many attributes and the
other way round, so a register is never taken for one of two others
(`Exchange.involutive_swap`), and a program is known from what it is renamed to.
-/

namespace ParticleShader

/-- The registers that are meant instead. -/
abbrev Renaming : Type := Register.Kind × Nat → Register.Kind × Nat

/-- An operand with the same components of the register that is meant instead. -/
def Operand.rename (ρ : Renaming) (o : Operand) : Operand :=
  { o with kind := (ρ (o.kind, o.index)).1, index := (ρ (o.kind, o.index)).2 }

/-- An instruction with renamed operands. -/
def Instruction.rename (ρ : Renaming) (i : Instruction) : Instruction :=
  { i with target := i.target.rename ρ, sources := i.sources.map (Operand.rename ρ) }

/-- A statement with renamed operands. -/
def Statement.rename (ρ : Renaming) : Statement → Statement
  | instruction i => instruction (i.rename ρ)
  | verbatim text => verbatim text

/-- A program with renamed operands. -/
def Program.rename (ρ : Renaming) (p : Program) : Program := p.map (Statement.rename ρ)

namespace Program

variable {ρ : Renaming}

@[simp] theorem rename_nil : Program.rename ρ [] = [] := rfl

@[simp] theorem rename_cons (statement : Statement) (p : Program) :
    Program.rename ρ (statement :: p) = statement.rename ρ :: Program.rename ρ p := rfl

@[simp] theorem rename_append (p q : Program) :
    Program.rename ρ (p ++ q) = Program.rename ρ p ++ Program.rename ρ q := List.map_append

end Program

/-! ### Exchanged registers -/

/-- Consecutive constants and as many consecutive attributes that are taken for each other. -/
structure Exchange where
  /-- The first constant. -/
  firstConstant : Nat
  /-- The first attribute. -/
  firstStream : Nat
  /-- How many there are of each. -/
  count : Nat
deriving DecidableEq, Repr

namespace Exchange

variable {e : Exchange} {i : Nat} {r : Register} {o : Operand}

/-- A constant of the exchange. -/
def parameter (e : Exchange) (i : Nat) : Register :=
  { kind := .vertexConstant, index := e.firstConstant + i }

/-- An attribute of the exchange. -/
def stream (e : Exchange) (i : Nat) : Register :=
  { kind := .vertexAttribute, index := e.firstStream + i }

/-- The constants of an exchange for its attributes, and the other way round. -/
def swap (e : Exchange) : Renaming
  | (.vertexConstant, index) =>
    if e.firstConstant ≤ index ∧ index < e.firstConstant + e.count then
      (.vertexAttribute, e.firstStream + (index - e.firstConstant))
    else (.vertexConstant, index)
  | (.vertexAttribute, index) =>
    if e.firstStream ≤ index ∧ index < e.firstStream + e.count then
      (.vertexConstant, e.firstConstant + (index - e.firstStream))
    else (.vertexAttribute, index)
  | other => other

/-- **One to one**: exchanging registers again takes them back. -/
theorem involutive_swap (e : Exchange) : Function.Involutive e.swap := by
  rintro ⟨kind, index⟩
  cases kind
  case vertexConstant =>
    by_cases hmoved : e.firstConstant ≤ index ∧ index < e.firstConstant + e.count
    · have hback : e.firstStream ≤ e.firstStream + (index - e.firstConstant) ∧
          e.firstStream + (index - e.firstConstant) < e.firstStream + e.count := by omega
      simp only [swap, if_pos hmoved, if_pos hback, Prod.mk.injEq, true_and]
      omega
    · simp only [swap, if_neg hmoved]
  case vertexAttribute =>
    by_cases hmoved : e.firstStream ≤ index ∧ index < e.firstStream + e.count
    · have hback : e.firstConstant ≤ e.firstConstant + (index - e.firstStream) ∧
          e.firstConstant + (index - e.firstStream) < e.firstConstant + e.count := by omega
      simp only [swap, if_pos hmoved, if_pos hback, Prod.mk.injEq, true_and]
      omega
    · simp only [swap, if_neg hmoved]
  all_goals rfl

/-- An operand is one of the constants. -/
def Moves (e : Exchange) (o : Operand) : Prop :=
  o.kind = .vertexConstant ∧ e.firstConstant ≤ o.index ∧ o.index < e.firstConstant + e.count

instance : Decidable (e.Moves o) := inferInstanceAs (Decidable (_ ∧ _))

/-- A register is none of those that are exchanged. -/
def Spares (e : Exchange) (r : Register) : Prop :=
  (r.kind = .vertexConstant → ¬ (e.firstConstant ≤ r.index ∧ r.index < e.firstConstant + e.count)) ∧
    (r.kind = .vertexAttribute → ¬ (e.firstStream ≤ r.index ∧ r.index < e.firstStream + e.count))

instance : Decidable (e.Spares r) := inferInstanceAs (Decidable (_ ∧ _))

@[simp] theorem spares_only {k : Register.Component} : e.Spares (r.only k) ↔ e.Spares r := Iff.rfl

@[simp] theorem spares_temporary (index : Nat) : e.Spares (.temporary index) :=
  ⟨nofun, nofun⟩

theorem Spares.swap (h : e.Spares r) : e.swap (r.kind, r.index) = (r.kind, r.index) := by
  obtain ⟨kind, index, component⟩ := r
  obtain ⟨hconstant, hattribute⟩ := h
  cases kind
  case vertexConstant => exact if_neg (hconstant rfl)
  case vertexAttribute => exact if_neg (hattribute rfl)
  all_goals rfl

theorem Spares.select (h : e.Spares r) (selection : List Register.Component) :
    (r.select selection).rename e.swap = r.select selection := by
  unfold Operand.rename Register.select
  rw [h.swap]

theorem Spares.operand (h : e.Spares r) :
    (r : Operand).rename e.swap = (r : Operand) := h.select r.component.toList

theorem Spares.not_moves (h : e.Spares r) (selection : List Register.Component) :
    ¬ e.Moves (r.select selection) := fun hmoves => h.1 hmoves.1 hmoves.2

theorem parameter_select (hi : i < e.count) (selection : List Register.Component) :
    ((e.parameter i).select selection).rename e.swap = (e.stream i).select selection := by
  have hmoved : e.firstConstant ≤ e.firstConstant + i ∧
      e.firstConstant + i < e.firstConstant + e.count := by omega
  unfold Operand.rename Register.select parameter stream
  simp only [swap, if_pos hmoved, Nat.add_sub_cancel_left]

end Exchange

end ParticleShader
