import ParticleShader.Proofs.Compilation.Finishing

/-!
# Writing constants

A constant is written to the row that its register stages: the place of its four values is four
times its distance from the first register. This product is a size only up to a distance of
`2⁶² - 2`. There are never more than 250 rows (`fewRows_play`), so the constants for which there is
a row are written and nothing else is changed, and every other one is refused and nothing at all
is changed: **`writing_spec`**. The refusal names the index, up to that distance.
-/

namespace ParticleShader

variable {α : Type}

namespace Compile

open Compilation

variable {c : Compilation α} {index offset row : Nat} {value : Vec4 α} {rows : List (Vec4 α)}

/-! ### Rows and values -/

/-- The first rows hold the first values, four each. -/
theorem take_flatMap_toList (rows : List (Vec4 α)) (n : Nat) :
    (rows.take n).flatMap Vec4.toList = (rows.flatMap Vec4.toList).take (4 * n) := by
  induction rows generalizing n with
  | nil => simp
  | cons row rows ih =>
    cases n with
    | zero => rfl
    | succ n =>
      simp only [List.take_succ_cons, List.flatMap_cons, ih, Nat.mul_succ]
      rfl

theorem drop_flatMap_toList (rows : List (Vec4 α)) (n : Nat) :
    (rows.drop n).flatMap Vec4.toList = (rows.flatMap Vec4.toList).drop (4 * n) := by
  induction rows generalizing n with
  | nil => simp
  | cons row rows ih =>
    cases n with
    | zero => rfl
    | succ n =>
      simp only [List.drop_succ_cons, List.flatMap_cons, ih, Nat.mul_succ]
      rfl

/-- With another row its four values are others, and no more than these. -/
theorem flatMap_toList_set (h : row < rows.length) :
    (rows.set row value).flatMap Vec4.toList =
      (rows.flatMap Vec4.toList).take (4 * row) ++ value.toList ++
        (rows.flatMap Vec4.toList).drop (4 * row + 4) := by
  rw [List.set_eq_take_append_cons_drop, if_pos h, List.flatMap_append, List.flatMap_cons,
    take_flatMap_toList, drop_flatMap_toList, List.append_assoc, Nat.mul_succ]

/-! ### One row -/

theorem stagedRow_of_lt (h : index < offset) :
    stagedRow offset index = .error (.constantOutOfRange index) := by
  unfold stagedRow
  rw [if_pos h]
  rfl

/-- Up to some distance from the first constant the place of the values is a size. -/
theorem stagedRow_of_near (hle : offset ≤ index) (hnear : index < offset + (2 ^ 62 - 1)) :
    stagedRow offset index = .ok (index - offset) := by
  have hbound : Size.bound = 4 * 2 ^ 62 := by decide
  have hstart : Size.mul (index - offset) 4 = .ok ((index - offset) * 4) :=
    Size.mul_eq_ok.mpr ⟨by omega, rfl⟩
  have hstop : Size.add ((index - offset) * 4) 4 = .ok ((index - offset) * 4 + 4) :=
    Size.add_eq_ok.mpr ⟨by omega, rfl⟩
  simp only [stagedRow, Nat.not_lt.mpr hle, if_false, Outcome.bind_eq_ok]
  exact ⟨_, hstart, _, hstop, rfl⟩

/-- From there on it is none, or what stands behind the values is none. -/
theorem stagedRow_of_far (hfar : offset + (2 ^ 62 - 1) ≤ index) :
    stagedRow offset index = .error .sizeOverflow := by
  have hbound : Size.bound = 4 * 2 ^ 62 := by decide
  have hle : ¬ index < offset := by omega
  simp only [stagedRow, hle, if_false, Outcome.bind_eq_error]
  rcases Nat.lt_or_ge ((index - offset) * 4) Size.bound with hlt | hge
  · refine .inr ⟨_, Size.mul_eq_ok.mpr ⟨hlt, rfl⟩, .inl ?_⟩
    exact Size.add_eq_error.mpr ⟨rfl, by omega⟩
  · exact .inl (Size.mul_eq_error.mpr ⟨rfl, hge⟩)

/-- Why a constant that has no row is refused. -/
def writeRefusal (offset index : Nat) : Fault :=
  if offset + (2 ^ 62 - 1) ≤ index then .sizeOverflow else .constantOutOfRange index

/-- What becomes of few rows when a constant is written. -/
theorem writeRow_eq (hrows : rows.length ≤ 250) : writeRow offset index value rows =
    if offset ≤ index ∧ index < offset + rows.length then .ok (rows.set (index - offset) value)
    else .error (writeRefusal offset index) := by
  by_cases hlow : index < offset
  · have hnone : ¬ (offset ≤ index ∧ index < offset + rows.length) := by omega
    have hnear : ¬ offset + (2 ^ 62 - 1) ≤ index := by omega
    rw [if_neg hnone, writeRefusal, if_neg hnear, writeRow, stagedRow_of_lt hlow]
    rfl
  by_cases hfar : offset + (2 ^ 62 - 1) ≤ index
  · have hnone : ¬ (offset ≤ index ∧ index < offset + rows.length) := by omega
    rw [if_neg hnone, writeRefusal, if_pos hfar, writeRow, stagedRow_of_far hfar]
    rfl
  · rw [writeRow, stagedRow_of_near (Nat.le_of_not_lt hlow) (Nat.lt_of_not_le hfar)]
    simp only [bind, Except.bind]
    by_cases hrow : index - offset < rows.length
    · rw [if_pos hrow, if_pos (by omega)]
      rfl
    · rw [if_neg hrow, if_neg (by omega), writeRefusal, if_neg hfar]
      rfl

/-! ### The two kinds of constants -/

/-- A step that puts what it is given somewhere, and what it does if it is given nothing. -/
theorem run_ofOutcome_modify {β : Type} {outcome : Except Fault β}
    {put : β → Compilation α → Compilation α} :
    (do let b ← ofOutcome outcome; modify (put b) : Compile α Unit).run c =
      match outcome with
      | .ok b => .ok () (put b c)
      | .error fault => .error fault c := by
  cases outcome <;> rfl

/-- How the constants of a kind are staged. -/
structure Stage (α : Type) where
  /-- The first of the constants: those of the material are before it. -/
  first : Compilation α → Nat
  /-- The rows, one for each constant from the first one on. -/
  rows : Compilation α → List (Vec4 α)
  /-- The state with other rows. -/
  put : List (Vec4 α) → Compilation α → Compilation α
  /-- How a constant is written. -/
  write : Nat → Vec4 α → Compile α Unit
  /-- The rows are those that were put. -/
  rows_put : ∀ rows' c, rows (put rows' c) = rows'
  /-- A constant is written to its row. -/
  run_write : ∀ index value c, (write index value).run c =
    (do let rows' ← ofOutcome (writeRow (first c) index value (rows c))
        modify (put rows') : Compile α Unit).run c

namespace Stage

/-- The vertex constants. -/
def vertex : Stage α where
  first := (·.taken.vertexConstants)
  rows := (·.vertexRows)
  put rows c := { c with vertexRows := rows }
  write := setVertexConstant
  rows_put _ _ := rfl
  run_write _ _ _ := rfl

/-- The fragment constants. -/
def fragment : Stage α where
  first := (·.taken.fragmentConstants)
  rows := (·.fragmentRows)
  put rows c := { c with fragmentRows := rows }
  write := setFragmentConstant
  rows_put _ _ := rfl
  run_write _ _ _ := rfl

variable {stage : Stage α}

/-- The values of all rows, one behind the other. -/
def floats (stage : Stage α) (c : Compilation α) : List α := (stage.rows c).flatMap Vec4.toList

/-- There is a row for a constant: it is behind those of the material, and not behind the values
that are staged. -/
def Holds (stage : Stage α) (c : Compilation α) (index : Nat) : Prop :=
  stage.first c ≤ index ∧ index < stage.first c + (stage.floats c).length / 4

/-- What becomes of a state when a constant is written: all that there is to be said about a call,
whatever it is given. -/
structure Writes (stage : Stage α) (c : Compilation α) (index : Nat) (value : Vec4 α) : Prop where
  /-- The constant is written if there is a row for it, and not else. -/
  accepted : succeeds (stage.write index value) c = true ↔ stage.Holds c index
  /-- Then its row has the value, and nothing else is changed. -/
  written : stage.Holds c index → Leads (stage.write index value) c ()
    (stage.put ((stage.rows c).set (index - stage.first c) value) c)
  /-- So the four values of the row are changed, and no others. -/
  floats : stage.Holds c index → ∀ c', Leads (stage.write index value) c () c' →
    stage.floats c' = (stage.floats c).take (4 * (index - stage.first c)) ++
      value.toList ++ (stage.floats c).drop (4 * (index - stage.first c) + 4)
  /-- Else nothing at all is changed. -/
  refused : ¬ stage.Holds c index → (stage.write index value).run c =
    .error (writeRefusal (stage.first c) index) c

theorem holds_iff : stage.Holds c index ↔
    stage.first c ≤ index ∧ index < stage.first c + (stage.rows c).length := by
  unfold Holds Stage.floats
  rw [length_flatMap_toList, Nat.mul_div_cancel_left _ (by decide)]

/-- Where there are few rows every constant is written as it should be. -/
theorem writes_of_length_le (hrows : (stage.rows c).length ≤ 250) (index : Nat) (value : Vec4 α) :
    stage.Writes c index value := by
  have hrun := stage.run_write index value c
  rw [run_ofOutcome_modify, writeRow_eq hrows] at hrun
  have hwritten : stage.Holds c index → Leads (stage.write index value) c ()
      (stage.put ((stage.rows c).set (index - stage.first c) value) c) := by
    intro hholds
    rw [if_pos (holds_iff.mp hholds)] at hrun
    exact hrun
  have hrefused : ¬ stage.Holds c index → (stage.write index value).run c =
      .error (writeRefusal (stage.first c) index) c := by
    intro hnot
    rw [if_neg fun h => hnot (holds_iff.mpr h)] at hrun
    exact hrun
  refine ⟨⟨fun hsucceeds => ?_, fun hholds => ?_⟩, hwritten, fun hholds c' hleads => ?_, hrefused⟩
  · by_contra hnot
    unfold succeeds at hsucceeds
    rw [hrefused hnot] at hsucceeds
    exact absurd hsucceeds Bool.false_ne_true
  · have hok : (stage.write index value).run c = .ok () _ := hwritten hholds
    unfold succeeds
    rw [hok]
  · obtain rfl := hleads.after_eq.symm.trans (hwritten hholds).after_eq
    have hrow : index - stage.first c < (stage.rows c).length := by
      have hholds := holds_iff.mp hholds
      omega
    unfold Stage.floats
    rw [stage.rows_put, flatMap_toList_set hrow]

end Stage

end Compile

/-! ### The rows of a compilation -/

namespace Compilation

/-- There are few rows of both kinds. -/
structure FewRows (c : Compilation α) : Prop where
  /-- There are few vertex constants. -/
  vertex : c.vertexRows.length ≤ 250
  /-- There are few fragment constants. -/
  fragment : c.fragmentRows.length ≤ 250

/-- There are as many rows of both kinds. -/
structure RowsKept (c c' : Compilation α) : Prop where
  /-- There are as many vertex constants. -/
  vertex : c'.vertexRows.length = c.vertexRows.length
  /-- There are as many fragment constants. -/
  fragment : c'.fragmentRows.length = c.fragmentRows.length

theorem RowsKept.trans {c c' c'' : Compilation α} (h : c.RowsKept c') (h' : c'.RowsKept c'') :
    c.RowsKept c'' := ⟨h'.vertex.trans h.vertex, h'.fragment.trans h.fragment⟩

theorem Lasts.rowsKept {c c' : Compilation α} (h : c.Lasts c') : c.RowsKept c' :=
  ⟨h.vertexRows, h.fragmentRows⟩

theorem FewRows.of_rowsKept {c c' : Compilation α} (h : c.FewRows) (hkept : c.RowsKept c') :
    c'.FewRows := ⟨hkept.vertex ▸ h.vertex, hkept.fragment ▸ h.fragment⟩

end Compilation

namespace Compile

open Compilation

/-- A beginning makes no room for constants. -/
theorem rowsKept_shareNamed (sources targets : List String) :
    Keeps (α := α) RowsKept (shareNamed sources targets) := by
  have htrans : ∀ c c' c'' : Compilation α, c.RowsKept c' → c'.RowsKept c'' → c.RowsKept c'' :=
    fun _ _ _ => RowsKept.trans
  refine shareNamed_of_quiet quiet_lasting (fun hx hf => keeps_bind htrans ?_ hf) ?_ ?_ _ _
  · exact fun c => (hx c).rowsKept
  · exact fun _ c => ⟨rfl, rfl⟩
  · exact fun _ c => ⟨rfl, rfl⟩

theorem rowsKept_enter (phase : Phase) : Keeps (α := α) RowsKept (enter phase) := by
  intro c
  unfold Compilation.after
  rw [run_enter]
  cases c.phase.next with
  | none => exact ⟨rfl, rfl⟩
  | some expected =>
    by_cases hphase : expected = phase
    · simp only [hphase, if_true]
      exact ⟨rfl, rfl⟩
    · simp only [hphase, if_false]
      exact ⟨rfl, rfl⟩

variable [Scalar α]

/-- Whatever is called, there are never more rows than registers of a pool can be granted. -/
theorem fewRows_play (profile : Profile) (calls : List (Call α)) :
    (play { profile } calls).FewRows := by
  induction calls using List.reverseRecOn with
  | nil => exact ⟨Nat.zero_le _, Nat.zero_le _⟩
  | append_singleton calls k ih =>
    rw [play_concat]
    cases hdecides : k.decides with
    | false => exact ih.of_rowsKept (quiet_lasting.run hdecides _).rowsKept
    | true =>
      cases k with
      | reset profile' pass features sources targets =>
        have hempty : ((play { profile } calls).restart profile' pass features).FewRows :=
          ⟨Nat.zero_le _, Nat.zero_le _⟩
        exact hempty.of_rowsKept (rowsKept_shareNamed sources targets _)
      | enter phase => exact ih.of_rowsKept (rowsKept_enter phase _)
      | abandon => exact ⟨ih.vertex, ih.fragment⟩
      | finish =>
        rcases phase_after_target profile calls (k := .finish) rfl with ⟨hsucceeds, -⟩ | hsame
        · -- there is a row for each register that was granted
          obtain ⟨log, hlog⟩ := exists_recorded profile calls
          have hvertex := hlog.balanced.account.used_le .vertexConstant
          have hfragment := hlog.balanced.account.used_le .fragmentConstant
          simp only [Pool.Counts.get] at hvertex hfragment
          rw [after_finish hsucceeds]
          refine ⟨?_, ?_⟩
          · simp only [finished, List.length_set, List.length_replicate]
            omega
          · simp only [finished, List.length_replicate]
            omega
        · rw [hsame]
          exact ih
      | _ => cases hdecides

/-- **Writing a constant**, in any state that calls lead to. Exactly the constants with a row are
written, and then the four values of the row are changed and nothing else. Every other index is
refused, with its own number unless it is far from the first constant, and nothing is changed. -/
theorem writing_spec (profile : Profile) (calls : List (Call α)) (index : Nat) (value : Vec4 α) :
    let c := play { profile } calls
    Stage.vertex.Writes c index value ∧ Stage.fragment.Writes c index value := by
  intro c
  have hrows : c.FewRows := fewRows_play profile calls
  exact ⟨Stage.writes_of_length_le hrows.vertex index value,
    Stage.writes_of_length_le hrows.fragment index value⟩

/-- Behind three constants of the material the second of three rows is written, and nothing is
written behind the third. -/
theorem orderly_written (value : Vec4 Rat) :
    let c := play { profile := .baseline } orderly
    c.phase = .done ∧
      (∃ c', Leads (setVertexConstant 4 value) c () c' ∧
        Stage.vertex.floats c' = (Stage.vertex.floats c).take 4 ++ value.toList ++
          (Stage.vertex.floats c).drop 8) ∧
      (setVertexConstant 6 value).run c = .error (.constantOutOfRange 6) c := by
  intro c
  have hdone : c.phase = .done := by decide +kernel
  have hfirst : Stage.vertex.first c = 3 := by decide +kernel
  have hlength : (Stage.vertex.rows c).length = 3 := by decide +kernel
  obtain ⟨-, hwritten, hfloats, -⟩ := (writing_spec .baseline orderly 4 value).1
  obtain ⟨-, -, -, hrefused⟩ := (writing_spec .baseline orderly 6 value).1
  have hholds : Stage.vertex.Holds c 4 := by
    rw [Stage.holds_iff, hfirst, hlength]
    decide
  have hnone : ¬ Stage.vertex.Holds c 6 := by
    rw [Stage.holds_iff, hfirst, hlength]
    decide
  have hvalues := hfloats hholds _ (hwritten hholds)
  have hrun := hrefused hnone
  rw [hfirst] at hvalues hrun
  exact ⟨hdone, ⟨_, hwritten hholds, hvalues⟩, hrun⟩

/-- A compilation that was finished, with one vertex constant. -/
def single : Compilation Rat := play { profile := .baseline } (handedOver {} [] ++ [.finish])

/-- There is no row for a constant that is far away, and yet it is not its index that is refused:
four times its distance is no size, and the first row is where a shorter word would place it. -/
theorem distant_constant :
    single.phase = .done ∧ 2 ^ 62 < Size.bound ∧ 2 ^ 62 * 4 % Size.bound = 0 ∧
      ¬ Stage.vertex.Holds single (2 ^ 62) ∧
      ∀ value, (setVertexConstant (2 ^ 62) value).run single = .error .sizeOverflow single := by
  have hdone : single.phase = .done := by decide +kernel
  have hfirst : Stage.vertex.first single = 0 := by decide +kernel
  have hlength : (Stage.vertex.rows single).length = 1 := by decide +kernel
  have hnone : ¬ Stage.vertex.Holds single (2 ^ 62) := by
    rw [Stage.holds_iff, hfirst, hlength]
    decide
  refine ⟨hdone, by decide, by decide, hnone, fun value => ?_⟩
  have hwrites := Stage.writes_of_length_le (hlength.trans_le (by decide)) (2 ^ 62) value
  have hrun := hwrites.refused hnone
  rw [hfirst] at hrun
  exact hrun

end Compile

end ParticleShader
