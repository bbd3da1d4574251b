import ParticleShader.Instruction

/-!
# Accesses

Which registers an instruction reads and writes, component by component, and when a
program is well formed: it writes only where it may, reads constants and attributes
only where it may, and reads no component of a vertex temporary that was not written
before. `Rights.Runs` is the same said step by step, for programs that go on from
components that are written already.
-/

namespace ParticleShader

/-- The components that an operand means. -/
def Operand.components (o : Operand) : List Register.Component :=
  if o.selection.isEmpty then [.x, .y, .z, .w] else o.selection

/-- An operand that is written sets a component of a vertex temporary. -/
structure Operand.Sets (o : Operand) (index : Nat) (k : Register.Component) : Prop where
  /-- It is a vertex temporary. -/
  kind : o.kind = .vertexTemporary
  /-- It is this one. -/
  index : o.index = index
  /-- The component is meant. -/
  component : k ∈ o.components

/-- What an instruction reads: its sources, where a matrix is three consecutive
registers. -/
def Instruction.reads (i : Instruction) : List Operand :=
  match i.operation, i.sources with
  | .m33, [vector, matrix] =>
    [vector, matrix, { matrix with index := matrix.index + 1 },
      { matrix with index := matrix.index + 2 }]
  | _, sources => sources

/-- What a program may access. -/
structure Rights where
  /-- The registers other than vertex temporaries that may be read. -/
  readable : Register.Kind → Nat → Prop
  /-- Where results may go. -/
  writable : Operand → Prop

/-- Everything in a program is an instruction that writes where it may and reads what
it may; a component of a vertex temporary may be read if an earlier instruction set it. -/
def Program.WellFormed (R : Rights) (p : Program) : Prop :=
  ∀ before statement after, p = before ++ statement :: after → ∃ i : Instruction,
    statement = .instruction i ∧ R.writable i.target ∧ ∀ o ∈ i.reads,
      if o.kind = .vertexTemporary then
        ∀ k ∈ o.components, ∃ j, .instruction j ∈ before ∧ j.target.Sets o.index k
      else R.readable o.kind o.index

/-! ### Step by step -/

/-- Which components of the vertex temporaries are written. -/
abbrev Written : Type := Nat → Register.Component → Prop

namespace Written

/-- What is written when an operand was written too. -/
def after (W : Written) (o : Operand) : Written := fun index k => W index k ∨ o.Sets index k

/-- What is written when a program has run. -/
def run (W : Written) : Program → Written
  | [] => W
  | .instruction i :: p => (W.after i.target).run p
  | .verbatim _ :: p => W.run p

/-- More is written. -/
def Le (W W' : Written) : Prop := ∀ index k, W index k → W' index k

theorem Le.refl (W : Written) : W.Le W := fun _ _ h => h

theorem Le.trans {W W' W'' : Written} (h : W.Le W') (h' : W'.Le W'') : W.Le W'' :=
  fun index k hk => h' index k (h index k hk)

theorem le_after (W : Written) (o : Operand) : W.Le (W.after o) := fun _ _ h => .inl h

theorem le_run (W : Written) (p : Program) : W.Le (W.run p) := by
  induction p generalizing W with
  | nil => exact .refl W
  | cons statement p ih =>
    cases statement with
    | instruction i => exact (le_after W i.target).trans (ih _)
    | verbatim text => exact ih W

theorem run_append (W : Written) (p q : Program) : W.run (p ++ q) = (W.run p).run q := by
  induction p generalizing W with
  | nil => rfl
  | cons statement p ih =>
    cases statement with
    | instruction i => exact ih _
    | verbatim text => exact ih W

/-- What an instruction of a program sets is written afterwards. -/
theorem run_of_mem {W : Written} {p : Program} {i : Instruction} {index : Nat}
    {k : Register.Component} (hi : .instruction i ∈ p) (h : i.target.Sets index k) :
    W.run p index k := by
  induction p generalizing W with
  | nil => simp at hi
  | cons statement p ih =>
    rcases List.mem_cons.mp hi with rfl | hrest
    · exact le_run (W.after i.target) p index k (.inr h)
    · cases statement with
      | instruction j => exact ih hrest
      | verbatim text => exact ih hrest

/-- What is written afterwards was written before or is set by an instruction. -/
theorem mem_of_run {W : Written} {p : Program} {index : Nat} {k : Register.Component}
    (h : W.run p index k) :
    W index k ∨ ∃ i, .instruction i ∈ p ∧ i.target.Sets index k := by
  induction p generalizing W with
  | nil => exact .inl h
  | cons statement p ih =>
    cases statement with
    | instruction i =>
      rcases ih h with (hW | hi) | ⟨j, hj, hset⟩
      · exact .inl hW
      · exact .inr ⟨i, List.mem_cons_self, hi⟩
      · exact .inr ⟨j, List.mem_cons_of_mem _ hj, hset⟩
    | verbatim text =>
      rcases ih h with hW | ⟨j, hj, hset⟩
      · exact .inl hW
      · exact .inr ⟨j, List.mem_cons_of_mem _ hj, hset⟩

end Written

namespace Rights

/-- An operand may be read when some components are written. -/
def Reads (R : Rights) (W : Written) (o : Operand) : Prop :=
  if o.kind = .vertexTemporary then ∀ k ∈ o.components, W o.index k
  else R.readable o.kind o.index

/-- A program may run when some components are written. -/
def Runs (R : Rights) (W : Written) : Program → Prop
  | [] => True
  | .instruction i :: p =>
    (∀ o ∈ i.reads, R.Reads W o) ∧ R.writable i.target ∧ R.Runs (W.after i.target) p
  | .verbatim _ :: _ => False

variable {R : Rights} {W : Written}

theorem runs_append {p q : Program} :
    R.Runs W (p ++ q) ↔ R.Runs W p ∧ R.Runs (W.run p) q := by
  induction p generalizing W with
  | nil => simp [Runs, Written.run]
  | cons statement p ih =>
    cases statement with
    | instruction i => simp only [List.cons_append, Runs, Written.run, ih, and_assoc]
    | verbatim text => simp [Runs]

/-- A program that is repeated for registers may run if it may run for each of them,
whatever else was written. -/
theorem runs_flatMap {β : Type} {f : β → Program} {bs : List β}
    (h : ∀ b ∈ bs, ∀ W', W.Le W' → R.Runs W' (f b)) : R.Runs W (bs.flatMap f) := by
  induction bs generalizing W with
  | nil => trivial
  | cons b bs ih =>
    rw [List.forall_mem_cons] at h
    rw [List.flatMap_cons, runs_append]
    exact ⟨h.1 W (.refl W), ih fun b' hb' W' hW' => h.2 b' hb' W' ((Written.le_run W _).trans hW')⟩

/-- A program that may run from nothing is well formed. -/
theorem Runs.wellFormed {p : Program} (h : R.Runs (fun _ _ => False) p) : p.WellFormed R := by
  rintro before statement after rfl
  rw [runs_append] at h
  obtain ⟨-, h⟩ := h
  cases statement with
  | instruction i =>
    obtain ⟨hreads, hwritable, -⟩ := h
    refine ⟨i, rfl, hwritable, fun o ho => ?_⟩
    have hread := hreads o ho
    unfold Reads at hread
    split
    · rename_i hkind
      rw [if_pos hkind] at hread
      exact fun k hk => (Written.mem_of_run (hread k hk)).resolve_left id
    · rename_i hkind
      rwa [if_neg hkind] at hread
  | verbatim text => exact h.elim

end Rights

end ParticleShader
