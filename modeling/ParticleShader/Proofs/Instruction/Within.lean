import ParticleShader.Proofs.Instruction.Semantics

/-!
# Which temporaries a program writes

A program stays within some temporaries if every vertex temporary that it writes is one of them. It
may write other registers as well; a program that writes nothing but temporaries leaves everything
else as it is.
-/

namespace ParticleShader

namespace Program

/-- Every temporary of the vertex program that is written is one of these. -/
def Within (p : Program) (indices : List Nat) : Prop :=
  ∀ i, .instruction i ∈ p → i.target.kind = .vertexTemporary → i.target.index ∈ indices

variable {operation : Operation} {t a b : Operand} {p q : Program} {indices : List Nat}

@[simp] theorem within_nil : Within [] indices := fun _ h => absurd h List.not_mem_nil

@[simp] theorem within_append :
    (p ++ q).Within indices ↔ p.Within indices ∧ q.Within indices := by
  unfold Within
  simp only [List.mem_append, or_imp, forall_and]

@[simp] theorem within_unary : Within (.unary operation t a :: p) indices ↔
    (t.kind = .vertexTemporary → t.index ∈ indices) ∧ p.Within indices := by
  simp [Within, Statement.unary]

@[simp] theorem within_binary : Within (.binary operation t a b :: p) indices ↔
    (t.kind = .vertexTemporary → t.index ∈ indices) ∧ p.Within indices := by
  simp [Within, Statement.binary]

@[simp] theorem within_m33 : Within (.m33 t a b :: p) indices ↔
    (t.kind = .vertexTemporary → t.index ∈ indices) ∧ p.Within indices := within_binary

theorem within_flatMap {β : Type} {f : β → Program} {bs : List β}
    (h : ∀ b ∈ bs, (f b).Within indices) : Within (bs.flatMap f) indices := by
  intro i hi
  obtain ⟨b, hb, hi⟩ := List.mem_flatMap.mp hi
  exact h b hb i hi

/-- A program that writes some temporaries alone spares all other registers. -/
theorem Within.spares {kind : Register.Kind} {index : Nat} (h : p.Within indices) (hlocal : p.Local)
    (hoff : kind = .vertexTemporary → index ∉ indices) : p.Spares kind index := by
  rintro i hi ⟨hkind, rfl⟩
  have htemporary := hlocal i hi
  exact hoff (hkind.symm.trans htemporary) (h i hi htemporary)

end Program

end ParticleShader
