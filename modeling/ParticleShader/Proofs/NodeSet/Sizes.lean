import ParticleShader.Proofs.NodeSet.Described
import ParticleShader.Proofs.NodeSet.Sheets

/-!
# The sizes of sprite sheets

A sprite sheet is asked for by its columns and rows and a number of frames. The frames are the
smaller of this number and the cells, and the constants of the sheet are quotients of these
numbers, so everything is right as long as the product of the columns and rows is a number of 32
bits. If it is not, there is no sheet: **`NodeSpec.size_spec`**. A description that is accepted
plays exactly the sheets that it asks for, in their order (`Description.sheets_animation`).
-/

namespace ParticleShader

open Behavior

variable {α : Type}

/-! ### What a sheet plays -/

namespace SpriteSheet

section

variable {columns rows : Nat} {requested : Option Nat} {cycle : Option (Cycle α)}

theorem asked_inside : (asked columns rows requested cycle).frames ≤ cellsOf columns rows :=
  Nat.min_le_right ..

theorem asked_columns_pos : 0 < (asked columns rows requested cycle).columns :=
  Nat.lt_of_lt_of_le Nat.one_pos (Nat.le_max_right ..)

theorem asked_rows_pos : 0 < (asked columns rows requested cycle).rows :=
  Nat.lt_of_lt_of_le Nat.one_pos (Nat.le_max_right ..)

/-- If the cells can be counted in a word, so can all else. -/
theorem words_of_fits (h : (asked columns rows requested cycle).Fits) :
    (asked columns rows requested cycle).columns < 2 ^ 32 ∧
      (asked columns rows requested cycle).rows < 2 ^ 32 ∧
      (asked columns rows requested cycle).frames < 2 ^ 32 := by
  refine ⟨?_, ?_, Nat.lt_of_le_of_lt asked_inside h⟩
  · exact Nat.lt_of_le_of_lt (Nat.le_mul_of_pos_right _ asked_rows_pos) h
  · exact Nat.lt_of_le_of_lt (Nat.le_mul_of_pos_left _ asked_columns_pos) h

end

section

variable {sheet : SpriteSheet Rat} {cycle : Option (Cycle Rat)} {time life : Rat}

/-- The number of the cell of a moment, as the texture code computes it from the constants of the
sheet: the columns that were played, in steps of a column. -/
def numberAt (sheet : SpriteSheet Rat) (time life : Rat) : Nat :=
  let k := (sheetConstants sheet).value
  ⌊playedColumns sheet k ((sheetPhaseTime sheet).getD 0) time life / k .y⌋₊

/-- What a sheet plays, in exact arithmetic: some frames in columns and rows. -/
structure Plays (sheet : SpriteSheet Rat) (columns rows frames : Nat) (cycle : Option (Cycle Rat)) :
    Prop where
  /-- The numbers are those of the sheet. -/
  numbers : sheet = ⟨columns, rows, frames, cycle⟩
  /-- They are numbers of 32 bits. -/
  words : columns < 2 ^ 32 ∧ rows < 2 ^ 32 ∧ frames < 2 ^ 32
  /-- The columns of the frames are played in a life, or in a cycle. -/
  speed : (sheetConstants sheet).x = cycle.elim (frames / columns : Rat)
    fun cycle => (frames / columns : Rat) / cycle.duration
  /-- The steps are parts of the whole texture. -/
  steps : (sheetConstants sheet).y = 1 / columns ∧ (sheetConstants sheet).z = 1 / rows
  /-- The first frames are shown and no others; without frames it is the first cell. -/
  shown : (∀ c ∈ cycle, 0 < c.duration) →
    ∀ i, (∃ time life, 0 ≤ life ∧ life < 1 ∧ sheet.numberAt time life = i) ↔ i < max frames 1

theorem numberAt_eq (hcolumns : 0 < sheet.columns)
    (hcycle : ∀ cycle ∈ sheet.cycle, 0 < cycle.duration) :
    sheet.numberAt time life = sheet.cell (sheet.progress time life) := by
  have hne : (sheet.columns : Rat) ≠ 0 := Nat.cast_ne_zero.mpr hcolumns.ne'
  obtain ⟨-, hstep, -⟩ := value_sheetConstants sheet
  unfold numberAt cell
  simp only [playedColumns_eq hcycle, hstep]
  congr 1
  field_simp

theorem progress_bounds (time : Rat) (hnonneg : 0 ≤ life) (hone : life < 1) :
    0 ≤ sheet.progress time life ∧ sheet.progress time life < 1 := by
  unfold progress
  cases sheet.cycle with
  | none => exact ⟨hnonneg, hone⟩
  | some cycle => exact ⟨Int.fract_nonneg _, Int.fract_lt_one _⟩

/-- Every part that was played is so at some time of a life. -/
theorem exists_moment (hcycle : ∀ cycle ∈ sheet.cycle, 0 < cycle.duration) {f : Rat}
    (hnonneg : 0 ≤ f) (hone : f < 1) :
    ∃ time life, 0 ≤ life ∧ life < 1 ∧ sheet.progress time life = f := by
  obtain ⟨time, life, hplayed⟩ := exists_progress hcycle hnonneg hone
  cases h : sheet.cycle with
  | none => exact ⟨time, f, hnonneg, hone, by rw [progress, h]⟩
  | some cycle =>
    refine ⟨time, 0, le_rfl, zero_lt_one, ?_⟩
    rw [progress, h] at hplayed ⊢
    exact hplayed

/-- The cells that are shown at all moments are the first ones, one for each frame. -/
theorem exists_numberAt_iff (hcolumns : 0 < sheet.columns) (hrows : 0 < sheet.rows)
    (hinside : sheet.frames ≤ sheet.columns * sheet.rows)
    (hcycle : ∀ cycle ∈ sheet.cycle, 0 < cycle.duration) (i : Nat) :
    (∃ time life, 0 ≤ life ∧ life < 1 ∧ sheet.numberAt time life = i) ↔
      i < max sheet.frames 1 := by
  simp only [numberAt_eq hcolumns hcycle]
  rcases Nat.eq_zero_or_pos sheet.frames with hzero | hframes
  · have hcell : ∀ f, sheet.cell f = 0 := fun f => by simp [cell, hzero]
    simp only [hcell, hzero]
    constructor
    · rintro ⟨-, -, -, -, rfl⟩
      decide
    · intro hi
      exact ⟨0, 0, le_rfl, zero_lt_one, by omega⟩
  · have hcelled : sheet.Celled := ⟨hcolumns, hrows, hframes, hinside⟩
    rw [Nat.max_eq_left hframes]
    constructor
    · rintro ⟨time, life, hnonneg, hone, rfl⟩
      obtain ⟨hbelow, habove⟩ := progress_bounds time hnonneg hone
      exact cell_lt hcelled hbelow habove
    · intro hi
      have hpositive : (0 : Rat) < sheet.frames := Nat.cast_pos.mpr hframes
      obtain ⟨time, life, hnonneg, hone, hplayed⟩ := exists_moment hcycle
        (div_nonneg (Nat.cast_nonneg i) hpositive.le)
        ((div_lt_one hpositive).mpr (Nat.cast_lt.mpr hi))
      exact ⟨time, life, hnonneg, hone, hplayed ▸ cell_div hcelled i⟩

theorem plays_asked {columns rows : Nat} {requested : Option Nat}
    (h : (asked columns rows requested cycle).Fits) :
    (asked columns rows requested cycle).Plays (max columns 1) (max rows 1)
      (min (requested.getD (cellsOf columns rows)) (cellsOf columns rows)) cycle := by
  obtain ⟨hspeed, hcolumn, hrow, -⟩ := value_sheetConstants (asked columns rows requested cycle)
  exact ⟨rfl, words_of_fits h, hspeed, ⟨hcolumn, hrow⟩, fun hcycle i =>
    exists_numberAt_iff asked_columns_pos asked_rows_pos asked_inside hcycle i⟩

end

/-- Why a sheet does not go with a set: its cycle takes no time, or it has none and the particles
have no duration. -/
inductive Refused [Scalar α] (sheet : SpriteSheet α) (lifecycle : Lifecycle) : Fault → Prop where
  /-- The cycle takes no time. -/
  | cycle {cycle : Cycle α} : sheet.cycle = some cycle → cycle.duration ≤ Scalar.zero →
    Refused sheet lifecycle (.invalidConfiguration (.spriteSheetCycle (Scalar.text cycle.duration)))
  /-- The particles have no duration. -/
  | duration : sheet.cycle = none → lifecycle.usesDuration = false →
    Refused sheet lifecycle (.invalidConfiguration .spriteSheetDuration)

theorem accept_eq_error [Scalar α] {sheet : SpriteSheet α} {settings : Settings} {fault : Fault} :
    (Behavior.spriteSheet sheet).accept settings = .error fault ↔
      sheet.Refused settings.lifecycle fault := by
  constructor
  · intro h
    simp only [Behavior.accept] at h
    split at h
    · rename_i cycle hcycle
      split at h
      · rename_i hduration
        cases h
        exact .cycle hcycle hduration
      · cases h
    · rename_i hcycle
      split at h
      · cases h
      · rename_i hlife
        cases h
        exact .duration hcycle (by simpa using hlife)
  · intro h
    cases h with
    | cycle hcycle hduration => simp only [Behavior.accept, hcycle, hduration, if_true]
    | duration hcycle hlife => simp [Behavior.accept, hcycle, hlife]

end SpriteSheet

/-! ### The sheets of a set -/

namespace NodeSet

variable {s s' : NodeSet α} {n : Node α} {ns : List (Node α)} {b : Behavior α} {id : NodeId}

/-- The sheets of a set, in the order in which their nodes emit code. -/
def sheets (s : NodeSet α) : List (SpriteSheet α) := s.nodes.filterMap (·.behavior.sheet?)

/-- A sheet is put behind the others: all of them have the same priority. -/
theorem sheets_insertNode (h : ns.Pairwise Node.Precedes) :
    (insertNode n ns).filterMap (·.behavior.sheet?) =
      ns.filterMap (·.behavior.sheet?) ++ n.behavior.sheet?.toList := by
  induction ns with
  | nil => cases hsheet : n.behavior.sheet? <;> simp [insertNode, hsheet]
  | cons m ns ih =>
    obtain ⟨hfirst, hrest⟩ := List.pairwise_cons.mp h
    unfold insertNode
    split
    · simp only [List.filterMap_cons, ih hrest]
      cases m.behavior.sheet? <;> rfl
    · rename_i hlater
      cases hsheet : n.behavior.sheet? with
      | none => simp [hsheet]
      | some sheet =>
        -- behind a node of larger priority there is no sheet
        have hnone : ∀ o ∈ m :: ns, o.behavior.sheet? = none := by
          intro o ho
          have hle : m.behavior.priority ≤ o.behavior.priority := by
            rcases List.mem_cons.mp ho with rfl | ho
            · exact Int.le_refl _
            · exact (hfirst o ho).priority_le
          by_contra hsome
          obtain ⟨other, hother⟩ := Option.ne_none_iff_exists'.mp hsome
          rw [Behavior.sheet?_eq_some] at hsheet hother
          rw [hother] at hle
          rw [hsheet] at hlater
          exact hlater hle
        rw [List.filterMap_cons, hsheet, List.filterMap_eq_nil_iff.mpr hnone]
        rfl

variable [Scalar α]

omit [Scalar α] in
theorem sheets_withTime : s.withTime.sheets = s.sheets := by
  unfold withTime
  split
  · rfl
  · rename_i hinactive
    have hnodes : s.nodes = [] := by simpa [timeActive] using hinactive
    simp [sheets, hnodes, Behavior.sheet?]

/-- An addition puts the sheet of the node, if it has one, behind the others. -/
theorem Grown.sheets_add (h : s.Grown) (hadd : s.add b = .ok (s', id)) :
    s'.sheets = s.sheets ++ b.sheet?.toList := by
  obtain ⟨n, -, hn⟩ := add_eq_ok hadd
  have hsorted : s.withTime.nodes.Pairwise Node.Precedes := h.joined.withTime.sorted
  rw [← sheets_withTime (s := s), sheets, hn.nodes, sheets_insertNode hsorted, hn.behavior]
  rfl

/-- A sheet is refused for what it asks of the particles, never for a number. -/
theorem add_spriteSheet_eq_error {sheet : SpriteSheet α} {fault : Fault} :
    s.add (.spriteSheet sheet) = .error fault ↔ sheet.Refused s.settings.lifecycle fault := by
  rw [← SpriteSheet.accept_eq_error]
  rw [add_eq_error]
  constructor
  · rintro (hrefused | ⟨-, ⟨buffer, hmode, -⟩, -⟩)
    · exact hrefused
    · cases hmode
  · exact .inl

end NodeSet

/-! ### Descriptions -/

namespace Description

variable {σ : Type} [Scalar α] {a a' : Animation σ α} {position : Nat} {specs : List (NodeSpec α)}

/-- Adding described nodes puts the sheets that they ask for behind the others. -/
theorem sheets_addNodes (hgrown : a.nodes.Grown) (h : addNodes a position specs = .ok a') :
    a'.nodes.sheets = a.nodes.sheets ++ specs.filterMap (·.sheet?) ∧
      ∀ sheet ∈ specs.filterMap (·.sheet?), sheet.Fits := by
  induction specs generalizing a position with
  | nil =>
    cases h
    simp
  | cons spec specs ih =>
    obtain ⟨b, nodes, id, hspec, hadd, hothers⟩ := addNodes_cons_eq_ok h
    obtain ⟨-, hsheet, hfits⟩ := NodeSpec.describes hspec
    obtain ⟨hsheets, hall⟩ := ih (.add hgrown hadd) hothers
    rw [hgrown.sheets_add hadd, hsheet] at hsheets
    cases hasked : spec.sheet? with
    | none =>
      rw [hasked] at hsheets
      simp only [List.filterMap_cons, hasked]
      exact ⟨by simpa using hsheets, hall⟩
    | some sheet =>
      rw [hasked] at hsheets hfits
      simp only [List.filterMap_cons, hasked, List.forall_mem_cons]
      exact ⟨by simpa using hsheets, hfits sheet rfl, hall⟩

/-- **The sheets of a description** that is accepted are exactly those that its nodes ask for, in
their order, and the cells of each can be counted. -/
theorem sheets_animation {d : Description α} {a : Animation σ α} (h : d.animation = .ok a) :
    a.nodes.sheets = d.nodes.filterMap (·.sheet?) ∧ ∀ sheet ∈ a.nodes.sheets, sheet.Fits := by
  obtain ⟨hsheets, hfits⟩ := sheets_addNodes (.empty d.lifecycle) h
  have hempty : (Animation.empty d.lifecycle : Animation σ α).nodes.sheets = [] := rfl
  rw [hempty, List.nil_append] at hsheets
  exact ⟨hsheets, hsheets ▸ hfits⟩

end Description

namespace NodeSpec

open SpriteSheet

/-- **What becomes of the size of a sheet**, whether a description gives it or a caller. There is a
sheet if the cells are a number of 32 bits, and without one nothing but this is the reason. The
sheet plays the smaller of the number that is requested and the cells, all of them if none is, and
its constants are the quotients of these numbers. Sets refuse it only for its cycle or for want of
a duration, and a description that is accepted has a node that plays it. -/
theorem size_spec {σ : Type} (columns rows : Nat) (requested : Option Nat)
    (duration phase : Option Rat) :
    let spec := NodeSpec.spriteSheet columns rows requested duration phase
    let cells := max columns 1 * max rows 1
    let frames := min (requested.getD cells) cells
    let cycle := cycleOf duration phase
    let sheet : SpriteSheet Rat := ⟨max columns 1, max rows 1, frames, cycle⟩
    (∀ cause, spec.behavior = .error cause ↔ cause = .fault .sizeOverflow ∧ 2 ^ 32 ≤ cells) ∧
    (cells < 2 ^ 32 → ofSize columns rows requested cycle = .ok sheet ∧
      spec.behavior = .ok (.spriteSheet sheet) ∧
      sheet.Plays (max columns 1) (max rows 1) frames cycle ∧
      ∀ (s : NodeSet Rat) fault,
        s.add (.spriteSheet sheet) = .error fault ↔ sheet.Refused s.settings.lifecycle fault) ∧
    ∀ (d : Description Rat) (a : Animation σ Rat), d.animation = .ok a → spec ∈ d.nodes →
      cells < 2 ^ 32 ∧ ∃ n ∈ a.nodes.nodes, n.behavior = .spriteSheet sheet := by
  intro spec cells frames cycle sheet
  refine ⟨fun cause => ?_, fun hcells => ?_, fun d a ha hspec => ?_⟩
  · cases hsize : ofSize columns rows requested cycle with
    | ok sheet =>
      obtain ⟨rfl, hfits⟩ := ofSize_eq_ok.mp hsize
      rw [behavior_of_ofSize_eq_ok hsize]
      simp only [reduceCtorEq, false_iff, not_and]
      exact fun _ => Nat.not_le.mpr hfits
    | error fault =>
      obtain ⟨rfl, hcells⟩ := ofSize_eq_error.mp hsize
      have hmany : 2 ^ 32 ≤ cells := hcells
      rw [behavior_of_ofSize_eq_error hsize]
      simp only [Except.error.injEq, hmany, and_true]
      exact eq_comm
  · have hsize : ofSize columns rows requested cycle = .ok sheet := ofSize_eq_ok.mpr ⟨rfl, hcells⟩
    exact ⟨hsize, behavior_of_ofSize_eq_ok hsize, plays_asked hcells,
      fun s fault => NodeSet.add_spriteSheet_eq_error⟩
  · obtain ⟨hsheets, hfits⟩ := Description.sheets_animation ha
    have hmem : sheet ∈ a.nodes.sheets := by
      rw [hsheets]
      exact List.mem_filterMap.mpr ⟨spec, hspec, rfl⟩
    obtain ⟨n, hn, hplays⟩ := List.mem_filterMap.mp hmem
    exact ⟨hfits sheet hmem, n, hn, sheet?_eq_some.mp hplays⟩

/-- A description of the six frames, among other nodes. -/
def described : Description Rat where
  nodes := [.rotateToHeading, .spriteSheet 4 2 (some 6) (some 2) (some 90),
    .spriteSheet 0 3 none (some 1) none]

/-- The six frames are played at three quarters of the columns a second. -/
theorem described_sixFrames : ∃ a : Animation Unit Rat, described.animation = .ok a ∧
    (NodeSpec.spriteSheet 4 2 (some 6) (some 2) (some 90) : NodeSpec Rat).behavior =
      .ok (.spriteSheet NodeSet.sixFrames) ∧
    NodeSet.sixFrames.Plays 4 2 6 (some ⟨2, some 90⟩) ∧
    (sheetConstants NodeSet.sixFrames).x = 3 / 4 ∧
    ∃ n ∈ a.nodes.nodes, n.behavior = .spriteSheet NodeSet.sixFrames := by
  obtain ⟨a, ha⟩ : ∃ a : Animation Unit Rat, described.animation = .ok a := ⟨_, rfl⟩
  obtain ⟨-, hsized, hdescribed⟩ := size_spec (σ := Unit) 4 2 (some 6) (some 2) (some 90)
  obtain ⟨-, hbehavior, hplays, -⟩ := hsized (by decide)
  obtain ⟨-, hnode⟩ := hdescribed described a ha (.tail _ (.head _))
  have hspeed : (6 / 4 / 2 : Rat) = 3 / 4 := by norm_num
  exact ⟨a, ha, hbehavior, hplays, hplays.speed.trans hspeed, hnode⟩

/-- Four frames are asked for, and there are more cells than enough, but they cannot be counted. -/
theorem uncounted_cells :
    65536 < 2 ^ 32 ∧ min ((some 4).getD (65536 * 65536)) (65536 * 65536) = 4 ∧
      (ofSize 65536 65536 (some 4) none : Except Fault (SpriteSheet Rat)) = .error .sizeOverflow ∧
      (NodeSpec.spriteSheet 65536 65536 (some 4) none none : NodeSpec Rat).behavior =
        .error (.fault .sizeOverflow) := by
  have hcells : 2 ^ 32 ≤ cellsOf 65536 65536 := by decide
  have hsize : (ofSize 65536 65536 (some 4) none : Except Fault (SpriteSheet Rat)) =
      .error .sizeOverflow := ofSize_eq_error.mpr ⟨rfl, hcells⟩
  exact ⟨by decide, by decide, hsize, behavior_of_ofSize_eq_error hsize⟩

end NodeSpec

end ParticleShader
