import ParticleShader.Proofs.Instruction.Semantics

/-!
# Machines of which the functions are not known

The register machine with any sine, any cosine and any normalization of vectors. A normalized
vector is written like a vector product, into the first three components. If the vector is divided
by the root of its length this is the machine of before: **`Program.exec_eq_run`**.
-/

namespace ParticleShader

variable {K : Type}

/-- The functions of a machine, of which nothing is known. -/
structure Primitives (K : Type) where
  /-- The sine. -/
  sin : K → K
  /-- The cosine. -/
  cos : K → K
  /-- The normalization of a vector. -/
  nrm : (Fin 3 → K) → Fin 3 → K

namespace Primitives

/-- The functions without the normalization, for which no root is needed. -/
def functions (F : Primitives K) : Functions K := ⟨F.sin, F.cos, id⟩

@[simp] theorem sin_functions (F : Primitives K) : F.functions.sin = F.sin := rfl

@[simp] theorem cos_functions (F : Primitives K) : F.functions.cos = F.cos := rfl

end Primitives

/-- Sine and cosine, and the normalization that the root makes. -/
def Functions.primitives [Field K] (F : Functions K) : Primitives K := ⟨F.sin, F.cos, F.unit⟩

section

variable [Field K] [LinearOrder K] [FloorRing K]

/-- The result of an operation. -/
def Operation.result (F : Primitives K) (operation : Operation) (sources : List (Value K)) :
    Option (Value K) :=
  match operation, sources with
  | .nrm, [a] => some (.ofVector (F.nrm a.xyz))
  | operation, sources => operation.apply F.functions sources

/-- The registers after a statement. -/
def Statement.exec (F : Primitives K) (m : Machine K) : Statement → Machine K
  | .instruction i => ((i.operation.result F (i.reads.map m.read)).map (m.write i.target)).getD m
  | .verbatim _ => m

/-- The registers after a program. -/
def Program.exec (F : Primitives K) (p : Program) (m : Machine K) : Machine K :=
  p.foldl (Statement.exec F) m

variable {F : Primitives K} {m : Machine K} {operation : Operation} {a b t : Operand}
  {p q : Program} {kind : Register.Kind} {index : Nat}

@[simp] theorem Operation.result_nrm (v : Value K) :
    Operation.nrm.result F [v] = some (.ofVector (F.nrm v.xyz)) := rfl

/-- All other operations are those of before. -/
@[simp] theorem Operation.result_of_ne (h : operation ≠ .nrm) (sources : List (Value K)) :
    operation.result F sources = operation.apply F.functions sources := by
  cases operation <;> first | rfl | exact absurd rfl h

namespace Program

@[simp] theorem exec_nil : exec F [] m = m := rfl

@[simp] theorem exec_append : exec F (p ++ q) m = exec F q (exec F p m) := List.foldl_append

@[simp] theorem exec_unary : exec F (.unary operation t a :: p) m =
    exec F p (((operation.result F [m.read a]).map (m.write t)).getD m) := by
  cases operation <;> rfl

@[simp] theorem exec_binary (h : operation ≠ .m33) : exec F (.binary operation t a b :: p) m =
    exec F p (((operation.result F [m.read a, m.read b]).map (m.write t)).getD m) := by
  cases operation <;> first | rfl | exact absurd rfl h

@[simp] theorem exec_m33 : exec F (.m33 t a b :: p) m =
    exec F p (m.write t (.ofVector
      ![(m.read b).xyz ⬝ᵥ (m.read a).xyz,
        (m.read { b with index := b.index + 1 }).xyz ⬝ᵥ (m.read a).xyz,
        (m.read { b with index := b.index + 2 }).xyz ⬝ᵥ (m.read a).xyz])) := rfl

/-- A register that a program spares holds what it held before. -/
theorem exec_of_spares (h : p.Spares kind index) : p.exec F m kind index = m kind index := by
  induction p generalizing m with
  | nil => rfl
  | cons statement p ih =>
    obtain ⟨hfirst, hrest⟩ := spares_cons.mp h
    show exec F p (statement.exec F m) kind index = m kind index
    rw [ih hrest]
    cases statement with
    | verbatim text => rfl
    | instruction i =>
      simp only [Statement.exec]
      cases i.operation.result F (i.reads.map m.read) with
      | none => rfl
      | some v => exact Machine.write_of_ne (hfirst i rfl)

end Program

end

/-! ### The normalization that the root makes -/

/-- Values that agree in the components that are meant write the same. -/
theorem Machine.write_congr {m : Machine K} {o : Operand} {v v' : Value K}
    (h : ∀ k ∈ o.components, v k = v' k) : m.write o v = m.write o v' := by
  funext kind index k
  rw [write_apply, write_apply]
  split
  · rename_i hmeant
    exact h k hmeant.2.2
  · rfl

section

variable [Field K] [LinearOrder K] [FloorRing K] {F : Functions K} {m : Machine K} {o : Operand}

/-- The root is needed for the normalization alone. -/
theorem Operation.apply_functions {operation : Operation} (h : operation ≠ .nrm)
    (sources : List (Value K)) :
    operation.apply F.primitives.functions sources = operation.apply F sources := by
  unfold Operation.apply
  split <;> first | rfl | exact absurd rfl h

/-- A normalization that is written into the first three components is the quotient by the root. -/
theorem Statement.exec_eq_run {s : Statement}
    (h : ∀ i, s = .instruction i → i.operation = .nrm → .w ∉ i.target.components) :
    s.exec F.primitives m = s.run F m := by
  cases s with
  | verbatim text => rfl
  | instruction i =>
    simp only [Statement.exec, Statement.run]
    by_cases hnrm : i.operation = .nrm
    · have hnarrow := h i rfl hnrm
      rw [hnrm]
      rcases i.reads.map m.read with _ | ⟨a, _ | ⟨b, rest⟩⟩
      · rfl
      · refine Machine.write_congr fun k hk => ?_
        cases k with
        | w => exact absurd hk hnarrow
        | x | y | z => rfl
      · rfl
    · rw [Operation.result_of_ne hnrm, Operation.apply_functions hnrm]

/-- **One machine**: where normalized vectors are written into the first three components, a
program computes the same on both machines. -/
theorem Program.exec_eq_run {p : Program}
    (h : ∀ i, .instruction i ∈ p → i.operation = .nrm → .w ∉ i.target.components) :
    p.exec F.primitives m = p.run F m := by
  induction p generalizing m with
  | nil => rfl
  | cons s p ih =>
    show Program.exec _ p (s.exec _ m) = Program.run F p (s.run F m)
    rw [Statement.exec_eq_run fun i hi => h i (hi ▸ List.mem_cons_self),
      ih fun i hi => h i (List.mem_cons_of_mem _ hi)]

end

end ParticleShader
