import Mathlib.Algebra.Order.Floor.Ring
import Mathlib.LinearAlgebra.CrossProduct
import ParticleShader.Proofs.Instruction.Accesses

/-!
# What programs compute

The register machine over exact arithmetic. A register holds four values. A source is
read with its selection, of which the last component goes on into the lanes behind it, so
that a single component is read into all of them; a result is written to the components
that the target means and to no others. Sine, cosine and root are whatever functions the
machine has.

What a program spares it leaves as it is (`Program.run_of_spares`).
-/

namespace ParticleShader

variable {K : Type}

/-- What a register holds, component by component. -/
abbrev Value (K : Type) : Type := Register.Component → K

namespace Value

/-- The first three components. -/
def xyz (v : Value K) : Fin 3 → K := ![v .x, v .y, v .z]

/-- A vector in the first three components and nothing in the fourth. -/
def ofVector [Zero K] (v : Fin 3 → K) : Value K
  | .x => v 0
  | .y => v 1
  | .z => v 2
  | .w => 0

end Value

/-- The functions of a machine that are not arithmetic. -/
structure Functions (K : Type) where
  /-- The sine. -/
  sin : K → K
  /-- The cosine. -/
  cos : K → K
  /-- The square root. -/
  root : K → K

/-! ### Vectors -/

section

open Matrix

variable [Field K]

/-- A vector turned around an axis by an angle with this sine and cosine. -/
def rotate (axis : Fin 3 → K) (sin cos : K) (v : Fin 3 → K) : Fin 3 → K :=
  sin • crossProduct axis v + ((1 - cos) * axis ⬝ᵥ v) • axis + cos • v

/-- A vector turned in the plane of the screen, from the first axis to a heading. -/
def turn (heading v : Fin 3 → K) : Fin 3 → K :=
  ![v 0 * heading 0 - v 1 * heading 1, v 0 * heading 1 + v 1 * heading 0, v 2]

/-- A vector taken to a basis. -/
def carry (heading up side v : Fin 3 → K) : Fin 3 → K := v 0 • heading + v 1 • up + v 2 • side

/-- The vector product of two vectors. -/
def vectorProduct (u v : Fin 3 → K) : Fin 3 → K := crossProduct u v

/-- A vector without what comes out of the plane of the screen. -/
def onScreen (v : Fin 3 → K) : Fin 3 → K := ![v 0, v 1, 0]

/-- The vector of length one in the same direction. -/
def Functions.unit (F : Functions K) (v : Fin 3 → K) : Fin 3 → K :=
  fun i => v i / F.root (v ⬝ᵥ v)

/-- The direction beside a heading. -/
def Functions.side (F : Functions K) (heading : Fin 3 → K) : Fin 3 → K :=
  F.unit (crossProduct heading ![0, 1, 0])

/-- The direction above a heading. -/
def Functions.up (F : Functions K) (heading : Fin 3 → K) : Fin 3 → K :=
  crossProduct (F.side heading) heading

end

/-! ### The machine -/

/-- What the registers hold. -/
abbrev Machine (K : Type) : Type := Register.Kind → Nat → Value K

/-- The component that a selection shows in a lane: the last one goes on. -/
def Operand.lane : List Register.Component → Register.Component → Register.Component
  | [], k => k
  | [a], _ => a
  | a :: _ :: _, .x => a
  | _ :: b :: rest, .y => lane (b :: rest) .x
  | _ :: b :: rest, .z => lane (b :: rest) .y
  | _ :: b :: rest, .w => lane (b :: rest) .z

namespace Machine

variable {m : Machine K} {o : Operand} {v : Value K}

/-- What an operand shows in every lane. -/
def read (m : Machine K) (o : Operand) : Value K := fun k =>
  m o.kind o.index (Operand.lane o.selection k)

/-- The registers with a result in the components that an operand means. -/
def write (m : Machine K) (o : Operand) (v : Value K) : Machine K := fun kind index k =>
  if kind = o.kind ∧ index = o.index ∧ k ∈ o.components then v k else m kind index k

@[simp] theorem read_apply (k : Register.Component) :
    m.read o k = m o.kind o.index (Operand.lane o.selection k) := rfl

@[simp] theorem write_apply (kind : Register.Kind) (index : Nat) (k : Register.Component) :
    m.write o v kind index k =
      if kind = o.kind ∧ index = o.index ∧ k ∈ o.components then v k else m kind index k := rfl

/-- Other registers than that of the target stay as they are. -/
theorem write_of_ne {kind : Register.Kind} {index : Nat}
    (h : ¬ (o.kind = kind ∧ o.index = index)) : m.write o v kind index = m kind index := by
  funext k
  rw [write_apply, if_neg]
  rintro ⟨hkind, hindex, -⟩
  exact h ⟨hkind.symm, hindex.symm⟩

end Machine

namespace Program

/-- No instruction writes into a register. -/
def Spares (p : Program) (kind : Register.Kind) (index : Nat) : Prop :=
  ∀ i, .instruction i ∈ p → ¬ (i.target.kind = kind ∧ i.target.index = index)

/-- Every instruction writes into a temporary of the vertex program. -/
def Local (p : Program) : Prop := ∀ i, .instruction i ∈ p → i.target.kind = .vertexTemporary

end Program

section

variable [Field K] [LinearOrder K] [FloorRing K]

/-- The result of an operation, if it has as many sources as it takes. -/
def Operation.apply (F : Functions K) : Operation → List (Value K) → Option (Value K)
  | .mov, [a] => some a
  | .add, [a, b] => some (a + b)
  | .sub, [a, b] => some (a - b)
  | .mul, [a, b] => some (a * b)
  | .div, [a, b] => some (a / b)
  | .frc, [a] => some fun k => Int.fract (a k)
  | .sge, [a, b] => some fun k => if b k ≤ a k then 1 else 0
  | .slt, [a, b] => some fun k => if a k < b k then 1 else 0
  | .sin, [a] => some fun k => F.sin (a k)
  | .cos, [a] => some fun k => F.cos (a k)
  | .nrm, [a] => some fun k => a k / F.root (a.xyz ⬝ᵥ a.xyz)
  | .crs, [a, b] => some (.ofVector (crossProduct a.xyz b.xyz))
  | .dp3, [a, b] => some fun _ => a.xyz ⬝ᵥ b.xyz
  | .m33, [a, first, second, third] =>
    some (.ofVector ![first.xyz ⬝ᵥ a.xyz, second.xyz ⬝ᵥ a.xyz, third.xyz ⬝ᵥ a.xyz])
  | _, _ => none

/-- The registers after a statement. -/
def Statement.run (F : Functions K) (m : Machine K) : Statement → Machine K
  | .instruction i => ((i.operation.apply F (i.reads.map m.read)).map (m.write i.target)).getD m
  | .verbatim _ => m

/-- The registers after a program. -/
def Program.run (F : Functions K) (p : Program) (m : Machine K) : Machine K :=
  p.foldl (Statement.run F) m

end

namespace Program

/-! ### Instructions one after the other -/

variable {t a b : Operand} {p q : Program} {operation : Operation}

section

variable [Field K] [LinearOrder K] [FloorRing K] {F : Functions K} {m : Machine K}

@[simp] theorem run_nil : run F [] m = m := rfl

@[simp] theorem run_append : run F (p ++ q) m = run F q (run F p m) := List.foldl_append

@[simp] theorem run_unary : run F (.unary operation t a :: p) m =
    run F p (((operation.apply F [m.read a]).map (m.write t)).getD m) := by
  cases operation <;> rfl

@[simp] theorem run_binary (h : operation ≠ .m33) : run F (.binary operation t a b :: p) m =
    run F p (((operation.apply F [m.read a, m.read b]).map (m.write t)).getD m) := by
  cases operation <;> first | rfl | exact absurd rfl h

@[simp] theorem run_m33 : run F (.m33 t a b :: p) m =
    run F p (m.write t (.ofVector
      ![(m.read b).xyz ⬝ᵥ (m.read a).xyz,
        (m.read { b with index := b.index + 1 }).xyz ⬝ᵥ (m.read a).xyz,
        (m.read { b with index := b.index + 2 }).xyz ⬝ᵥ (m.read a).xyz])) := rfl

end

/-! ### What is spared -/

variable {kind : Register.Kind} {index : Nat}

@[simp] theorem spares_nil : Spares [] kind index := fun _ h => absurd h List.not_mem_nil

@[simp] theorem spares_append :
    (p ++ q).Spares kind index ↔ p.Spares kind index ∧ q.Spares kind index := by
  unfold Spares
  simp only [List.mem_append, or_imp, forall_and]

theorem spares_cons {statement : Statement} : Spares (statement :: p) kind index ↔
    (∀ i, statement = .instruction i → ¬ (i.target.kind = kind ∧ i.target.index = index)) ∧
      p.Spares kind index := by
  unfold Spares
  simp only [List.mem_cons, or_imp, forall_and, eq_comm]

@[simp] theorem spares_unary : Spares (.unary operation t a :: p) kind index ↔
    ¬ (t.kind = kind ∧ t.index = index) ∧ p.Spares kind index := by
  rw [spares_cons]
  simp [Statement.unary]

@[simp] theorem spares_binary : Spares (.binary operation t a b :: p) kind index ↔
    ¬ (t.kind = kind ∧ t.index = index) ∧ p.Spares kind index := by
  rw [spares_cons]
  simp [Statement.binary]

@[simp] theorem spares_m33 : Spares (.m33 t a b :: p) kind index ↔
    ¬ (t.kind = kind ∧ t.index = index) ∧ p.Spares kind index := spares_binary

theorem spares_flatMap {β : Type} {f : β → Program} {bs : List β}
    (h : ∀ b ∈ bs, (f b).Spares kind index) : Spares (bs.flatMap f) kind index := by
  intro i hi
  obtain ⟨b, hb, hi⟩ := List.mem_flatMap.mp hi
  exact h b hb i hi

/-! ### What is written -/

@[simp] theorem local_nil : Local [] := fun _ h => absurd h List.not_mem_nil

@[simp] theorem local_append : (p ++ q).Local ↔ p.Local ∧ q.Local := by
  unfold Local
  simp only [List.mem_append, or_imp, forall_and]

@[simp] theorem local_unary :
    Local (.unary operation t a :: p) ↔ t.kind = .vertexTemporary ∧ p.Local := by
  simp [Local, Statement.unary]

@[simp] theorem local_binary :
    Local (.binary operation t a b :: p) ↔ t.kind = .vertexTemporary ∧ p.Local := by
  simp [Local, Statement.binary]

@[simp] theorem local_m33 :
    Local (.m33 t a b :: p) ↔ t.kind = .vertexTemporary ∧ p.Local := local_binary

variable [Field K] [LinearOrder K] [FloorRing K] {F : Functions K} {m : Machine K}

/-- A register that a program spares holds what it held before. -/
theorem run_of_spares (h : p.Spares kind index) : p.run F m kind index = m kind index := by
  induction p generalizing m with
  | nil => rfl
  | cons statement p ih =>
    obtain ⟨hfirst, hrest⟩ := spares_cons.mp h
    show run F p (statement.run F m) kind index = m kind index
    rw [ih hrest]
    cases statement with
    | verbatim text => rfl
    | instruction i =>
      simp only [Statement.run]
      cases i.operation.apply F (i.reads.map m.read) with
      | none => rfl
      | some v => exact Machine.write_of_ne (hfirst i rfl)

/-- Constants and attributes are the same behind a program that writes into temporaries. -/
theorem run_of_local (h : p.Local) (hkind : kind ≠ .vertexTemporary) :
    p.run F m kind = m kind := by
  funext index
  refine run_of_spares fun i hi hsame => hkind ?_
  rw [← hsame.1, h i hi]

end Program

end ParticleShader
