import ParticleShader.Node.Constants
import ParticleShader.Proofs.Compilation.Pools

/-!
# Staged constants

What staging changes: the rows of the vertex constants and nothing else, whether it
succeeds or not. Constants that are staged one after the other are a list of writes; a row
that is written at least once holds what was written last, and the others are left alone.
-/

namespace ParticleShader

variable {α β γ : Type}

/-- The state that a step ends in, with a result or with a fault. -/
def Compilation.after (c : Compilation α) (x : Compile α β) : Compilation α :=
  match x.run c with
  | .ok _ c' => c'
  | .error _ c' => c'

theorem Leads.after_eq {x : Compile α β} {b : β} {c c' : Compilation α} (h : Leads x c b c') :
    c.after x = c' := by
  have hrun : x.run c = .ok b c' := h
  unfold Compilation.after
  rw [hrun]

namespace Compile

open Compilation

variable {c c' : Compilation α}

/-! ### Steps that only stage vertex constants -/

/-- A step that changes nothing but the staged vertex constants. -/
def Stages (x : Compile α β) : Prop := ∀ c : Compilation α,
  c.after x = { c with vertexRows := (c.after x).vertexRows }

theorem stages_pure (b : β) : Stages (pure b : Compile α β) := fun _ => rfl

theorem stages_throw (fault : Fault) : Stages (throw fault : Compile α β) := fun _ => rfl

theorem after_bind (x : Compile α β) (f : β → Compile α γ) (c : Compilation α) :
    c.after (x >>= f) =
      match x.run c with
      | .ok b c' => c'.after (f b)
      | .error _ c' => c' := by
  unfold Compilation.after
  rw [EStateM.run_bind]
  cases x.run c <;> rfl

theorem stages_bind {x : Compile α β} {f : β → Compile α γ} (hx : Stages x)
    (hf : ∀ b, Stages (f b)) : Stages (x >>= f) := by
  intro c
  have hfirst := hx c
  rw [after_bind]
  unfold Compilation.after at hfirst
  cases hrun : x.run c with
  | error fault c' =>
    rw [hrun] at hfirst
    exact hfirst
  | ok b c' =>
    rw [hrun] at hfirst
    have hrest := hf b c'
    simp only at hfirst ⊢
    rw [hfirst] at hrest ⊢
    exact hrest

theorem stages_get_bind {f : Compilation α → Compile α β} (h : ∀ c, Stages (f c)) :
    Stages (get >>= f) := fun c => h c c

theorem stages_ofOutcome (outcome : Except Fault β) :
    Stages (ofOutcome outcome : Compile α β) := by
  cases outcome with
  | ok b => exact stages_pure b
  | error fault => exact stages_throw fault

theorem stages_setVertexConstant (index : Nat) (value : Vec4 α) :
    Stages (setVertexConstant index value) :=
  stages_get_bind fun _ => stages_bind (stages_ofOutcome _) fun _ _ => rfl

/-! ### Writes -/

/-- The rows with some constants staged, where the first row stages the constant `first`. -/
def stageAll (first : Nat) (writes : List (Nat × Vec4 α)) (rows : List (Vec4 α)) :
    List (Vec4 α) :=
  writes.foldl (fun rows write => rows.set (write.1 - first) write.2) rows

theorem stageAll_append (first : Nat) (writes writes' : List (Nat × Vec4 α))
    (rows : List (Vec4 α)) :
    stageAll first (writes ++ writes') rows = stageAll first writes' (stageAll first writes rows) :=
  List.foldl_append

@[simp] theorem length_stageAll (first : Nat) (writes : List (Nat × Vec4 α))
    (rows : List (Vec4 α)) : (stageAll first writes rows).length = rows.length := by
  unfold stageAll
  induction writes generalizing rows with
  | nil => rfl
  | cons write writes ih =>
    rw [List.foldl_cons, ih]
    exact List.length_set

/-- A row that no write goes to is left alone. -/
theorem stageAll_of_notMem {first row : Nat} {writes : List (Nat × Vec4 α)}
    (hbehind : ∀ write ∈ writes, first ≤ write.1) (hrow : first + row ∉ writes.map Prod.fst)
    (rows : List (Vec4 α)) : (stageAll first writes rows)[row]? = rows[row]? := by
  unfold stageAll
  induction writes generalizing rows with
  | nil => rfl
  | cons write writes ih =>
    rw [List.forall_mem_cons] at hbehind
    rw [List.map_cons, List.mem_cons, not_or] at hrow
    rw [List.foldl_cons, ih hbehind.2 hrow.2]
    refine List.getElem?_set_ne ?_
    have hle := hbehind.1
    omega

/-- A row that one write goes to holds what is written, whatever it held. -/
theorem stageAll_of_mem {first row : Nat} {writes : List (Nat × Vec4 α)} {value : Vec4 α}
    (hbehind : ∀ write ∈ writes, first ≤ write.1) (hnodup : (writes.map Prod.fst).Nodup)
    (hwrite : (first + row, value) ∈ writes) {rows : List (Vec4 α)} (hlength : row < rows.length) :
    (stageAll first writes rows)[row]? = some value := by
  induction writes generalizing rows with
  | nil => simp at hwrite
  | cons write writes ih =>
    rw [List.forall_mem_cons] at hbehind
    rw [List.map_cons, List.nodup_cons] at hnodup
    show (stageAll first writes (rows.set (write.1 - first) write.2))[row]? = some value
    rcases List.mem_cons.mp hwrite with rfl | hrest
    · rw [stageAll_of_notMem hbehind.2 hnodup.1]
      have hrow : first + row - first = row := by omega
      rw [hrow, List.getElem?_set_self hlength]
    · refine ih hbehind.2 hnodup.2 hrest ?_
      rwa [List.length_set]

end Compile

namespace Compilation

open Compile

variable {c : Compilation α}

/-! ### Staging where there is room -/

/-- The constants that can be staged are registers of the profile. -/
def Sized (c : Compilation α) : Prop :=
  c.taken.vertexConstants + c.vertexRows.length ≤ c.limit .vertexConstant

/-- Some consecutive constants can be staged. -/
structure Stageable (c : Compilation α) (index count : Nat) : Prop where
  /-- They lie behind those of the material. -/
  low : c.taken.vertexConstants ≤ index
  /-- There are rows for them. -/
  high : index + count ≤ c.taken.vertexConstants + c.vertexRows.length

/-- The state with some constants staged. -/
def staging (c : Compilation α) (writes : List (Nat × Vec4 α)) : Compilation α :=
  { c with vertexRows := stageAll c.taken.vertexConstants writes c.vertexRows }

theorem staging_append (c : Compilation α) (writes writes' : List (Nat × Vec4 α)) :
    c.staging (writes ++ writes') = (c.staging writes).staging writes' := by
  unfold staging
  rw [stageAll_append]

theorem Sized.staging (h : c.Sized) (writes : List (Nat × Vec4 α)) : (c.staging writes).Sized := by
  unfold Sized
  show _ + (stageAll _ writes c.vertexRows).length ≤ _
  rw [length_stageAll]
  exact h

theorem stageable_staging {writes : List (Nat × Vec4 α)} {index count : Nat} :
    (c.staging writes).Stageable index count ↔ c.Stageable index count := by
  have hlength : (c.staging writes).vertexRows.length = c.vertexRows.length :=
    length_stageAll ..
  constructor
  · rintro ⟨hlow, hhigh⟩
    rw [hlength] at hhigh
    exact ⟨hlow, hhigh⟩
  · rintro ⟨hlow, hhigh⟩
    rw [← hlength] at hhigh
    exact ⟨hlow, hhigh⟩

theorem limit_le (c : Compilation α) (pool : Pool) : c.limit pool ≤ 250 := by
  unfold limit
  cases c.profile <;> cases pool <;> decide

end Compilation

namespace Compile

open Compilation

variable {c : Compilation α} {index : Nat}

/-- A constant that can be staged is staged. -/
theorem leads_setVertexConstant (hsized : c.Sized) (h : c.Stageable index 1) (value : Vec4 α) :
    Leads (setVertexConstant index value) c () (c.staging [(index, value)]) := by
  obtain ⟨hlow, hhigh⟩ := h
  have hlimit := c.limit_le .vertexConstant
  unfold Sized at hsized
  have hbound : 1004 < Size.bound := by decide
  have hrow : stagedRow c.taken.vertexConstants index =
      .ok (index - c.taken.vertexConstants) := by
    unfold stagedRow
    rw [if_neg (Nat.not_lt.mpr hlow)]
    have hstart : Size.mul (index - c.taken.vertexConstants) 4 =
        .ok ((index - c.taken.vertexConstants) * 4) := Size.mul_eq_ok.mpr ⟨by omega, rfl⟩
    have hstop : Size.add ((index - c.taken.vertexConstants) * 4) 4 =
        .ok ((index - c.taken.vertexConstants) * 4 + 4) := Size.add_eq_ok.mpr ⟨by omega, rfl⟩
    simp only [hstart, hstop, bind, Except.bind, pure, Except.pure]
  have hwrite : writeRow c.taken.vertexConstants index value c.vertexRows =
      .ok (c.vertexRows.set (index - c.taken.vertexConstants) value) := by
    unfold writeRow
    have hlt : index - c.taken.vertexConstants < c.vertexRows.length := by omega
    rw [hrow]
    simp only [bind, Except.bind, hlt, if_true, pure, Except.pure]
  unfold setVertexConstant
  rw [leads_get_bind]
  simp only [leads_bind, leads_ofOutcome, leads_modify]
  exact ⟨_, c, ⟨hwrite, rfl⟩, rfl⟩

/-- The constant behind those of the material is staged in the first row. -/
theorem first_of_setVertexConstant {c' : Compilation α} {value : Vec4 α} {u : Unit}
    (h : Leads (setVertexConstant c.taken.vertexConstants value) c u c') (hsized : c.Sized)
    (hrows : 0 < c.vertexRows.length) :
    c' = { c with vertexRows := c.vertexRows.set 0 value } := by
  have hstage := leads_setVertexConstant hsized
    ⟨Nat.le_refl _, Nat.add_le_add_left hrows _⟩ value
  rw [← h.after_eq, hstage.after_eq]
  unfold staging stageAll
  simp only [List.foldl_cons, List.foldl_nil, Nat.sub_self]

/-- Values with the consecutive constants that they go to. -/
def consecutive (index : Nat) (values : List (Vec4 α)) : List (Nat × Vec4 α) :=
  (List.range' index values.length).zip values

@[simp] theorem map_fst_consecutive (index : Nat) (values : List (Vec4 α)) :
    (consecutive index values).map Prod.fst = List.range' index values.length := by
  unfold consecutive
  rw [List.map_fst_zip (by simp)]

/-- A matrix is staged as its rows. -/
theorem leads_setVertexMatrix [Scalar α] (hsized : c.Sized) (h : c.Stageable index 3)
    (m : Mat3 α) : Leads (setVertexMatrix index m) c ()
      (c.staging (consecutive index (m.rows.map (·.extend Scalar.zero)))) := by
  obtain ⟨hlow, hhigh⟩ := h
  have hlimit := c.limit_le .vertexConstant
  have hbound : 1004 < Size.bound := by decide
  have hadd : ∀ k < 3, Size.add index k = .ok (index + k) := by
    intro k hk
    unfold Sized at hsized
    exact Size.add_eq_ok.mpr ⟨by omega, rfl⟩
  have hstage : ∀ k < 3, ∀ writes value, Leads (do
      setVertexConstant (← ofOutcome (Size.add index k)) value) (c.staging writes) ()
      (c.staging (writes ++ [(index + k, value)])) := by
    intro k hk writes value
    rw [hadd k hk, staging_append]
    refine leads_setVertexConstant (hsized.staging writes) (stageable_staging.mpr ⟨?_, ?_⟩) value
    · omega
    · omega
  obtain ⟨first, second, third⟩ := m
  unfold setVertexMatrix
  simp only [Mat3.rows, List.zipIdx_cons, List.zipIdx_nil, List.forM_eq_forM, List.forM_cons,
    List.forM_nil]
  refine leads_bind.mpr ⟨(), _, hstage 0 (by omega) [] _, ?_⟩
  refine leads_bind.mpr ⟨(), _, hstage 1 (by omega) _ _, ?_⟩
  exact leads_bind.mpr ⟨(), _, hstage 2 (by omega) _ _, leads_pure.mpr ⟨rfl, rfl⟩⟩

end Compile

end ParticleShader
