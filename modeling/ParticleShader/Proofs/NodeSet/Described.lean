import ParticleShader.Description
import ParticleShader.Proofs.NodeSet.Built

/-!
# Described sets

What the nodes of a description are (`NodeSpec.describes`), and what a description that is accepted
leads to: a set that is built from the catalogue. The size of a sprite sheet is the only number of
a node that may be too large, so the sheets are told apart from everything else.
-/

namespace ParticleShader

variable {α : Type}

/-! ### The size of a sheet -/

namespace SpriteSheet

variable {sheet : SpriteSheet α} {columns rows : Nat} {requested : Option Nat}
  {cycle : Option (Cycle α)} {fault : Fault}

/-- The cells of a size, of which there is at least one. -/
def cellsOf (columns rows : Nat) : Nat := max columns 1 * max rows 1

/-- The sheet that a size asks for, without any bound on the numbers. -/
def asked (columns rows : Nat) (requested : Option Nat) (cycle : Option (Cycle α)) :
    SpriteSheet α where
  columns := max columns 1
  rows := max rows 1
  frames := min (requested.getD (cellsOf columns rows)) (cellsOf columns rows)
  cycle := cycle

/-- The cells can be counted in a word of 32 bits. -/
def Fits (sheet : SpriteSheet α) : Prop := sheet.columns * sheet.rows < Nat.pow 2 32

theorem ofSize_eq_ok : ofSize columns rows requested cycle = .ok sheet ↔
    sheet = asked columns rows requested cycle ∧ sheet.Fits := by
  unfold ofSize
  by_cases h : max columns 1 * max rows 1 < Nat.pow 2 32
  · simp only [h, if_true, Except.ok.injEq]
    constructor
    · rintro rfl
      exact ⟨rfl, h⟩
    · rintro ⟨rfl, -⟩
      rfl
  · simp only [h, if_false, reduceCtorEq, false_iff]
    rintro ⟨rfl, hfits⟩
    exact h hfits

theorem ofSize_eq_error : ofSize columns rows requested cycle = .error fault ↔
    fault = .sizeOverflow ∧ Nat.pow 2 32 ≤ cellsOf columns rows := by
  unfold ofSize cellsOf
  by_cases h : max columns 1 * max rows 1 < Nat.pow 2 32
  · simp only [h, if_true, reduceCtorEq, Nat.not_le.mpr h, and_false]
  · simp only [h, if_false, Except.error.injEq, Nat.le_of_not_lt h, and_true]
    exact eq_comm

end SpriteSheet

/-! ### Nodes -/

/-- The sheet that a node plays. -/
def Behavior.sheet? : Behavior α → Option (SpriteSheet α)
  | .spriteSheet sheet => some sheet
  | _ => none

theorem Behavior.sheet?_eq_some {b : Behavior α} {sheet : SpriteSheet α} :
    b.sheet? = some sheet ↔ b = .spriteSheet sheet := by
  cases b <;> simp [sheet?]

namespace NodeSpec

/-- The sheet that a described node asks for. -/
def sheet? : NodeSpec α → Option (SpriteSheet α)
  | spriteSheet columns rows requested cycle phase =>
    some (.asked columns rows requested (cycleOf cycle phase))
  | _ => none

/-- The behavior is of the catalogue, and has the sheet that is asked for. -/
structure Describes (spec : NodeSpec α) (b : Behavior α) : Prop where
  /-- It is no behavior of the user. -/
  catalogue : b.IsCatalogue
  /-- It has the sheet that is asked for, or none. -/
  sheet : b.sheet? = spec.sheet?
  /-- The cells of the sheet can be counted. -/
  fits : ∀ sheet ∈ spec.sheet?, sheet.Fits

/-- A node without explicit values is made for the mode that it is described with. -/
theorem exists_of_ownMode {mode : Option Mode} {make : Mode → Behavior α} {b : Behavior α}
    (h : (do return make (← ownMode mode)) = Except.ok b) : ∃ own, make own = b := by
  cases hmode : ownMode mode with
  | error cause =>
    rw [hmode] at h
    cases h
  | ok own =>
    rw [hmode] at h
    exact ⟨own, Except.ok.inj h⟩

variable [Scalar α]

theorem behavior_of_ofSize_eq_ok {columns rows : Nat} {requested : Option Nat}
    {cycle phase : Option α} {sheet : SpriteSheet α}
    (h : SpriteSheet.ofSize columns rows requested (cycleOf cycle phase) = .ok sheet) :
    (spriteSheet columns rows requested cycle phase).behavior = .ok (.spriteSheet sheet) := by
  rw [behavior, h]

theorem behavior_of_ofSize_eq_error {columns rows : Nat} {requested : Option Nat}
    {cycle phase : Option α} {fault : Fault}
    (h : SpriteSheet.ofSize columns rows requested (cycleOf cycle phase) = .error fault) :
    (spriteSheet columns rows requested cycle phase).behavior = .error (.fault fault) := by
  rw [behavior, h]

theorem describes {spec : NodeSpec α} {b : Behavior α} (h : spec.behavior = .ok b) :
    spec.Describes b := by
  cases spec with
  | position mode value | velocity mode value | acceleration mode value =>
    cases value with
    | none =>
      obtain ⟨own, rfl⟩ := exists_of_ownMode h
      exact ⟨trivial, rfl, nofun⟩
    | some value =>
      cases h
      exact ⟨trivial, rfl, nofun⟩
  | scale mode least greatest cycle phase =>
    cases least with
    | none =>
      cases greatest with
      | none =>
        obtain ⟨own, rfl⟩ := exists_of_ownMode h
        exact ⟨trivial, rfl, nofun⟩
      | some greatest => cases h
    | some least =>
      cases greatest with
      | none => cases h
      | some greatest =>
        cases h
        cases cycleOf cycle phase <;> exact ⟨trivial, rfl, nofun⟩
  | rotationalVelocity mode axis period =>
    cases axis with
    | none =>
      cases period with
      | none =>
        obtain ⟨own, rfl⟩ := exists_of_ownMode h
        exact ⟨trivial, rfl, nofun⟩
      | some period => cases h
    | some axis =>
      cases period with
      | none => cases h
      | some period =>
        cases h
        exact ⟨trivial, rfl, nofun⟩
  | rotateToHeading | billboard | follow =>
    cases h
    exact ⟨trivial, rfl, nofun⟩
  | uv mode axis cycle factor =>
    cases cycle with
    | none =>
      obtain ⟨own, rfl⟩ := exists_of_ownMode h
      exact ⟨trivial, rfl, nofun⟩
    | some cycle =>
      cases h
      exact ⟨trivial, rfl, nofun⟩
  | spriteSheet columns rows requested cycle phase =>
    cases hsheet : SpriteSheet.ofSize columns rows requested (cycleOf cycle phase) with
    | error fault =>
      rw [behavior_of_ofSize_eq_error hsheet] at h
      cases h
    | ok sheet =>
      rw [behavior_of_ofSize_eq_ok hsheet] at h
      cases h
      obtain ⟨rfl, hfits⟩ := SpriteSheet.ofSize_eq_ok.mp hsheet
      refine ⟨trivial, rfl, ?_⟩
      rintro _ ⟨⟩
      exact hfits
  | color mode multiplier offset first last cycle phase =>
    cases first with
    | none =>
      cases last with
      | none =>
        obtain ⟨own, rfl⟩ := exists_of_ownMode h
        exact ⟨trivial, rfl, nofun⟩
      | some last => cases h
    | some first =>
      cases last with
      | none => cases h
      | some last =>
        cases h
        exact ⟨trivial, rfl, nofun⟩

end NodeSpec

/-! ### Descriptions -/

namespace Description

variable {σ : Type} [Scalar α] {a a' : Animation σ α} {position : Nat} {spec : NodeSpec α}
  {specs : List (NodeSpec α)}

/-- The first of some described nodes is added, and then the others. No data is kept. -/
theorem addNodes_cons_eq_ok (h : addNodes a position (spec :: specs) = .ok a') :
    ∃ b nodes id, spec.behavior = .ok b ∧ a.nodes.add b = .ok (nodes, id) ∧
      addNodes { a with nodes, kept := [] } (position + 1) specs = .ok a' := by
  rw [addNodes] at h
  cases hspec : spec.behavior with
  | error cause =>
    rw [hspec] at h
    cases h
  | ok b =>
    rw [hspec] at h
    cases hadd : a.nodes.add b with
    | error fault =>
      simp only [Animation.add, hadd, bind, Except.bind] at h
      cases h
    | ok added =>
      simp only [Animation.add, hadd, bind, Except.bind, pure, Except.pure] at h
      exact ⟨b, added.1, added.2, rfl, hadd, h⟩

/-- Adding described nodes leads from a built set to a built set, with no data kept. -/
theorem built_addNodes (hbuilt : a.nodes.Built) (hkept : a.kept = [])
    (h : addNodes a position specs = .ok a') : a'.nodes.Built ∧ a'.kept = [] := by
  induction specs generalizing a position with
  | nil =>
    cases h
    exact ⟨hbuilt, hkept⟩
  | cons spec specs ih =>
    obtain ⟨b, nodes, id, hspec, hadd, hothers⟩ := addNodes_cons_eq_ok h
    exact ih (.add hbuilt (NodeSpec.describes hspec).catalogue hadd) rfl hothers

/-- A described set is built from the catalogue. -/
theorem built_animation {d : Description α} {a : Animation σ α} (h : d.animation = .ok a) :
    a.nodes.Built ∧ a.kept = [] :=
  built_addNodes (.empty d.lifecycle) rfl h

end Description

end ParticleShader
