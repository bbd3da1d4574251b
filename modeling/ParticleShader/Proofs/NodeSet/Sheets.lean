import ParticleShader.Proofs.NodeSet.Loops
import ParticleShader.Proofs.NodeSet.Places

/-!
# The cells of a sprite sheet

The texture code of a sprite sheet shrinks the coordinates to a cell and moves them to the
cell of the moment. The number of this cell is never a value of the program: its column and
its row come out of products, quotients and fractional parts. But these fall together with
the quotient and the remainder of the number by the columns, so a moment shows one whole
cell, row by row, and all frames of the sheet are shown and no others:
**`Built.sheet_spec`**.
-/

namespace ParticleShader

open Compile Compilation Behavior

/-! ### Cells -/

namespace SpriteSheet

variable {sheet : SpriteSheet Rat} {columns rows : Nat} {used : Option Nat}
  {cycle : Option (Cycle Rat)} {f : Rat}

/-- How far the frames have been played: by the life, or by the cycle with its phase. -/
def progress (sheet : SpriteSheet Rat) (time life : Rat) : Rat :=
  match sheet.cycle with
  | none => life
  | some cycle => Int.fract ((time + (sheetPhaseTime sheet).getD 0) / cycle.duration)

/-- The cell that is shown when some part of the frames has been played. -/
def cell (sheet : SpriteSheet Rat) (f : Rat) : Nat := ⌊f * sheet.frames⌋₊

/-- A sheet that has cells, and not more frames than these. -/
structure Celled (sheet : SpriteSheet Rat) : Prop where
  /-- It has a column. -/
  columns : 0 < sheet.columns
  /-- It has a row. -/
  rows : 0 < sheet.rows
  /-- Some frame is played. -/
  frames : 0 < sheet.frames
  /-- Every frame has its cell. -/
  inside : sheet.frames ≤ sheet.columns * sheet.rows

theorem celled_of_size (h : ofSize columns rows used cycle = .ok sheet)
    (hframes : 1 ≤ sheet.frames) : sheet.Celled := by
  simp only [ofSize] at h
  split at h
  · cases h
    exact ⟨Nat.lt_of_lt_of_le Nat.one_pos (Nat.le_max_right ..),
      Nat.lt_of_lt_of_le Nat.one_pos (Nat.le_max_right ..), hframes, Nat.min_le_right ..⟩
  · cases h

/-- No cell behind the frames is shown. -/
theorem cell_lt (h : sheet.Celled) (hnonneg : 0 ≤ f) (hone : f < 1) :
    sheet.cell f < sheet.frames := by
  have hpositive : (0 : Rat) < sheet.frames := Nat.cast_pos.mpr h.frames
  refine (Nat.floor_lt (mul_nonneg hnonneg hpositive.le)).mpr ?_
  exact mul_lt_of_lt_one_left hpositive hone

/-- Every frame has its moment. -/
theorem cell_div (h : sheet.Celled) (i : Nat) : sheet.cell (i / sheet.frames) = i := by
  have hpositive : (sheet.frames : Rat) ≠ 0 := Nat.cast_ne_zero.mpr h.frames.ne'
  unfold cell
  rw [div_mul_cancel₀ _ hpositive, Nat.floor_natCast]

/-- Whatever has been played is so at some time of the cycle, or at some time of life. -/
theorem exists_progress (hcycle : ∀ cycle ∈ sheet.cycle, 0 < cycle.duration) (hnonneg : 0 ≤ f)
    (hone : f < 1) : ∃ time life, sheet.progress time life = f := by
  cases hplayed : sheet.cycle with
  | none => exact ⟨0, f, by rw [progress, hplayed]⟩
  | some cycle =>
    have hduration := (hcycle cycle hplayed).ne'
    refine ⟨f * cycle.duration - (sheetPhaseTime sheet).getD 0, 0, ?_⟩
    simp only [progress, hplayed]
    rw [sub_add_cancel, mul_div_cancel_right₀ f hduration, Int.fract_eq_self.mpr ⟨hnonneg, hone⟩]

/-! ### Columns and rows -/

/-- What is played of the columns, less its fractional part, is the number of a cell. -/
theorem whole_eq (h : sheet.Celled) (hnonneg : 0 ≤ f) :
    let frame := f * (sheet.frames / sheet.columns : Rat)
    frame / (1 / sheet.columns) - Int.fract (frame / (1 / sheet.columns)) = sheet.cell f := by
  intro frame
  have hcolumns : (sheet.columns : Rat) ≠ 0 := Nat.cast_ne_zero.mpr h.columns.ne'
  have hframe : frame / (1 / sheet.columns) = f * sheet.frames := by
    simp only [frame]
    field_simp
  have hall : 0 ≤ f * (sheet.frames : Rat) := mul_nonneg hnonneg (Nat.cast_nonneg _)
  rw [hframe, Int.self_sub_fract, cell, natCast_floor_eq_intCast_floor hall]

/-- The whole columns that are played are rows of the number of a cell. -/
theorem row_eq (hnonneg : 0 ≤ f) :
    let frame := f * (sheet.frames / sheet.columns : Rat)
    frame - Int.fract frame = (sheet.cell f / sheet.columns : Nat) := by
  intro frame
  have hall : 0 ≤ frame :=
    mul_nonneg hnonneg (div_nonneg (Nat.cast_nonneg _) (Nat.cast_nonneg _))
  have hframe : f * sheet.frames / sheet.columns = frame := mul_div_assoc ..
  rw [Int.self_sub_fract, cell, ← Nat.floor_div_natCast, hframe,
    natCast_floor_eq_intCast_floor hall]

/-- The column of a cell. -/
theorem column_eq (i : Nat) : Int.fract (i * (1 / sheet.columns) : Rat) =
    (i % sheet.columns : Nat) / sheet.columns := by
  rw [mul_one_div, Int.fract_div_natCast_eq_div_natCast_mod]

end SpriteSheet

/-! ### The program -/

namespace Behavior

section

variable {α K : Type} [Field K] [LinearOrder K] [FloorRing K] {F : Functions K} {m : Machine K}
  {P : Layout} {constants : Register} {phase : Option Register} {temp : Nat}

/-- How many columns have been played, by the constants of a sheet. -/
def playedColumns (sheet : SpriteSheet α) (k : Value K) (shift time life : K) : K :=
  match sheet.cycle with
  | none => life * k .x
  | some _ => Int.fract ((time + shift) / k .w) * k .w * k .x

/-- **What the program of a sheet computes**: it shrinks the coordinates and adds to them. -/
theorem run_spriteSheetProgram (sheet : SpriteSheet α) (hapart : P.Apart [temp])
    (hconstants : constants.kind = .vertexConstant)
    (hphase : ∀ r ∈ phase, r.kind = .vertexConstant) :
    let k := m .vertexConstant constants.index
    let frame := playedColumns sheet k (phase.elim 0 fun r => m .vertexConstant r.index .x)
      (P.motion m).time (P.motion m).life
    let whole := frame / k .y - Int.fract (frame / k .y)
    let m' := Program.run F (spriteSheetProgram sheet P.shared P.shared.displacement constants
      phase (.temporary temp)) m
    m' .vertexTemporary P.displacement .x = m .vertexTemporary P.displacement .x * k .y +
        (if 1 < sheet.rows then Int.fract (whole * k .y) else whole * k .y) ∧
      m' .vertexTemporary P.displacement .y = if 1 < sheet.rows then
          m .vertexTemporary P.displacement .y * k .z + (frame - Int.fract frame) * k .z
        else m .vertexTemporary P.displacement .y := by
  have hdistinct := hapart.places
  simp only [Distinct, List.pairwise_cons, List.forall_mem_cons] at hdistinct
  cases phase with
  | none =>
    by_cases hrows : 1 < sheet.rows <;> cases hcycle : sheet.cycle <;>
      cases hvelocity : P.velocity <;>
      simp [spriteSheetProgram, playedColumns, Layout.motion, hrows, hcycle, hvelocity, hconstants,
        hdistinct]
  | some r =>
    have hkind := hphase r rfl
    by_cases hrows : 1 < sheet.rows <;> cases hcycle : sheet.cycle <;>
      cases hvelocity : P.velocity <;>
      simp [spriteSheetProgram, playedColumns, Layout.motion, hrows, hcycle, hvelocity, hconstants,
        hkind, hdistinct]

end

end Behavior

/-! ### What is shown -/

namespace SpriteSheet

variable {sheet : SpriteSheet Rat} {F : Functions Rat} {m : Machine Rat} {P : Layout}
  {constants : Register} {phase : Option Register} {temp : Nat}

/-- The coordinates are those of a cell, of which the columns follow each other, row by row. -/
structure Shows (sheet : SpriteSheet Rat) (i : Nat) (before after : Value Rat) : Prop where
  /-- The place of the cell in its row. -/
  u : after .x = (before .x + (i % sheet.columns : Nat)) / sheet.columns
  /-- The row of the cell. -/
  v : after .y = (before .y + (i / sheet.columns : Nat)) / sheet.rows

theorem value_sheetConstants (sheet : SpriteSheet Rat) :
    let k := (sheetConstants sheet).value
    k .x = sheet.cycle.elim (sheet.frames / sheet.columns : Rat)
        (fun cycle => sheet.frames / sheet.columns / cycle.duration) ∧
      k .y = 1 / sheet.columns ∧ k .z = 1 / sheet.rows ∧
      k .w = sheet.cycle.elim 0 (·.duration) := by
  unfold sheetConstants
  cases sheet.cycle <;> exact ⟨rfl, rfl, rfl, rfl⟩

/-- By the constants of the sheet, the columns are played as far as the frames. -/
theorem playedColumns_eq (hcycle : ∀ cycle ∈ sheet.cycle, 0 < cycle.duration) (time life : Rat) :
    playedColumns sheet (sheetConstants sheet).value ((sheetPhaseTime sheet).getD 0) time life =
      sheet.progress time life * (sheet.frames / sheet.columns) := by
  obtain ⟨hspeed, -, -, hduration⟩ := value_sheetConstants sheet
  unfold playedColumns progress
  rw [hspeed, hduration]
  cases hplayed : sheet.cycle with
  | none => rfl
  | some cycle =>
    have hne := (hcycle cycle hplayed).ne'
    simp only [Option.elim_some]
    rw [mul_assoc, mul_div_cancel₀ _ hne]

/-- **The program of a sheet shows one cell.** -/
theorem shows_spriteSheetProgram (h : sheet.Celled)
    (hcycle : ∀ cycle ∈ sheet.cycle, 0 < cycle.duration) (hapart : P.Apart [temp])
    (hconstants : constants.kind = .vertexConstant)
    (hphase : ∀ r ∈ phase, r.kind = .vertexConstant)
    (hvalue : m .vertexConstant constants.index = (sheetConstants sheet).value)
    (hshift : (phase.elim 0 fun r => m .vertexConstant r.index .x) =
      (sheetPhaseTime sheet).getD 0)
    (hnonneg : 0 ≤ sheet.progress (P.motion m).time (P.motion m).life)
    (hone : sheet.progress (P.motion m).time (P.motion m).life < 1) :
    sheet.Shows (sheet.cell (sheet.progress (P.motion m).time (P.motion m).life))
      (m .vertexTemporary P.displacement)
      (Program.run F (spriteSheetProgram sheet P.shared P.shared.displacement constants phase
        (.temporary temp)) m .vertexTemporary P.displacement) := by
  obtain ⟨hu, hv⟩ := run_spriteSheetProgram (F := F) (m := m) sheet hapart hconstants hphase
  obtain ⟨-, hcolumn, hrow, -⟩ := value_sheetConstants sheet
  rw [hvalue, hshift, playedColumns_eq hcycle, hcolumn] at hu
  rw [hvalue, hshift, playedColumns_eq hcycle, hrow] at hv
  rw [whole_eq h hnonneg, column_eq] at hu
  rw [row_eq hnonneg] at hv
  have hlast := cell_lt h hnonneg hone
  generalize sheet.cell _ = i at hu hv hlast ⊢
  by_cases hrows : 1 < sheet.rows
  · rw [if_pos hrows] at hu hv
    exact ⟨by rw [hu]; ring, by rw [hv]; ring⟩
  · -- In a single row no cell is behind the last column
    have hsingle : sheet.rows = 1 := Nat.le_antisymm (Nat.le_of_not_lt hrows) h.rows
    have hcolumns : i < sheet.columns := by
      have hinside := h.inside
      rw [hsingle, Nat.mul_one] at hinside
      exact hlast.trans_le hinside
    rw [if_neg hrows] at hu hv
    refine ⟨?_, ?_⟩
    · rw [hu, Nat.mod_eq_of_lt hcolumns]
      ring
    · rw [hv, Nat.div_eq_of_lt hcolumns, hsingle]
      simp

end SpriteSheet

/-- The registers hold what the texture code of a sprite sheet reads: its constants, and the
time of its phase. -/
structure SpriteSheet.Loaded (sheet : SpriteSheet Rat) (c : Compilation Rat) (n : Node Rat)
    (m : Machine Rat) : Prop where
  /-- The constants of the sheet. -/
  constants : ∀ index, c.index? n.id Slot.value = some index →
    m .vertexConstant index = (sheetConstants sheet).value
  /-- The time of the phase, if there is one. -/
  phase : ∀ index, c.index? n.id Slot.phase = some index →
    ∀ shift, sheetPhaseTime sheet = some shift → m .vertexConstant index .x = shift

/-- The code of a node with a sprite sheet shows one cell. -/
theorem Behavior.shows_spriteSheetCode {sheet : SpriteSheet Rat} {n : Node Rat}
    {c c' : Compilation Rat} {p : Program} {P : Layout} {uv : UvRegisters} {F : Functions Rat}
    {m : Machine Rat} (h : sheet.Celled) (hcycle : ∀ cycle ∈ sheet.cycle, 0 < cycle.duration)
    (hcode : Leads (spriteSheetCode sheet n.info) c p c') (hhosts : c.Hosts P)
    (hhosts' : c'.Hosts P) (hon : c.features.uvAnimation = true) (huv : c.uv = some uv)
    (hworking : uv.working = P.shared.displacement) (hloaded : sheet.Loaded c' n m) :
    let f := sheet.progress (m.read P.shared.time .x) (m.read P.shared.life .x)
    0 ≤ f → f < 1 →
      sheet.Shows (sheet.cell f) (m.read uv.working) ((p.run F m).read uv.working) := by
  intro f hnonneg hone
  rw [leads_spriteSheetCode, if_pos hon] at hcode
  obtain ⟨registers, hregisters, shared, hshared, constants, c₁, hconstants, phase, hphase, temp,
    rest, hfree, rfl⟩ := hcode
  obtain rfl := hhosts.shared_eq hshared
  obtain rfl : uv = registers := Option.some.inj (huv.symm.trans hregisters)
  obtain ⟨hvalue, hkind⟩ := remembers_claimConstants hconstants
  rw [hworking, Layout.displacement_shared]
  rw [leads_sheetPhaseCode] at hphase
  have hread : ∀ m : Machine Rat, m.read (Register.temporary P.displacement) =
      m .vertexTemporary P.displacement := fun m => rfl
  rw [hread, hread, ← Layout.displacement_shared]
  cases hshift : sheetPhaseTime sheet with
  | none =>
    rw [hshift] at hphase
    obtain ⟨rfl, rfl⟩ := hphase
    exact SpriteSheet.shows_spriteSheetProgram h hcycle (hhosts'.apart.of_free [temp] hfree) hkind
      nofun (hloaded.constants _ hvalue.index) (by rw [hshift]; rfl) hnonneg hone
  | some shift =>
    rw [hshift, if_pos Option.isSome_some] at hphase
    obtain ⟨r, hr, rfl⟩ := hphase
    obtain ⟨hclock, hkind'⟩ := remembers_claimConstants hr
    have hvalue' := hvalue.claimConstants hr (by decide)
    refine SpriteSheet.shows_spriteSheetProgram h hcycle (hhosts'.apart.of_free [temp] hfree) hkind
      ?_ (hloaded.constants _ hvalue'.index) ?_ hnonneg hone
    · rintro _ ⟨⟩
      exact hkind'
    · rw [hshift]
      exact hloaded.phase _ hclock.index shift hshift

/-! ### Sheets of a set -/

/-- What is remembered of a node is not changed by other code. -/
theorem Compilation.PassesOver.index?_eq {α : Type} {n : Node α} {c c' : Compilation α}
    {slot : Nat} (h : PassesOver n c c') : c'.index? n.id slot = c.index? n.id slot := by
  obtain ⟨needs, hledger, hother⟩ := h.ledger
  refine Ledger.index?_takeAll hledger fun hmem => ?_
  obtain ⟨need, hneed, hkey⟩ := List.mem_map.mp hmem
  exact hother need hneed (congrArg Prod.fst hkey)

namespace NodeSet

section

variable {α : Type} {s : NodeSet α} {n : Node α} {c c' : Compilation α}
  {pieces : List (Node α × Program)} {piece : Node α × Program}
  {code : Node α → Compile α Program}

/-- A piece of code was written in a state of which all that lasts still holds. -/
theorem Writes.exists_step_of {I : Compilation α → Prop}
    (hlasts : ∀ m ∈ pieces.map Prod.fst, ∀ {d p d'}, Leads (code m) d p d' → I d → I d')
    (h : Writes code c pieces c') (hc : I c) (hpiece : piece ∈ pieces) :
    ∃ before after d d', pieces = before ++ piece :: after ∧ I d ∧
      Leads (code piece.1) d piece.2 d' ∧ Writes code d' after c' := by
  induction pieces generalizing c with
  | nil => exact absurd hpiece List.not_mem_nil
  | cons first pieces ih =>
    obtain ⟨c₁, hfirst, hothers⟩ := h
    rw [List.map_cons, List.forall_mem_cons] at hlasts
    rcases List.mem_cons.mp hpiece with rfl | hrest
    · exact ⟨[], pieces, c, c₁, rfl, hc, hfirst, hothers⟩
    · obtain ⟨before, after, d, d', rfl, hd, hcode, hlater⟩ :=
        ih hlasts.2 hothers (hlasts.1 hfirst hc) hrest
      exact ⟨first :: before, after, d, d', rfl, hd, hcode, hlater⟩

variable [Scalar α]

/-- Every node of a built set was accepted. -/
theorem Built.exists_accept (h : s.Built) (hn : n ∈ s.nodes) :
    ∃ settings f, n.behavior.accept settings = .ok f := by
  induction h with
  | empty lifecycle => simp [NodeSet.empty] at hn
  | @add s s' b id _ hb hadd ih =>
    obtain ⟨m, -, hm⟩ := add_eq_ok hadd
    obtain ⟨f, hf, -⟩ := hm.features
    rw [hm.nodes, mem_insertNode] at hn
    rcases hn with rfl | hn
    · exact ⟨_, f, hm.behavior ▸ hf⟩
    · unfold withTime at hn
      split at hn
      · exact ih hn
      · obtain rfl := List.mem_singleton.mp hn
        exact ⟨{}, {}, rfl⟩

end

variable {s : NodeSet Rat} {n : Node Rat} {sheet : SpriteSheet Rat} {c c₁ c₂ : Compilation Rat}
  {pass : Pass} {profile : Profile} {sourceNames targetNames : List String}
  {sources targets : List Register} {p q : Program} {sourceName targetName : String}
  {columns rows : Nat} {used : Option Nat} {cycle : Option (Cycle Rat)}

/-- The cycle of a sheet that was accepted takes some time. -/
theorem Built.duration_pos (h : s.Built) (hn : n ∈ s.nodes)
    (hbehavior : n.behavior = .spriteSheet sheet) :
    ∀ cycle ∈ sheet.cycle, 0 < cycle.duration := by
  intro cycle hcycle
  obtain ⟨settings, f, haccept⟩ := h.exists_accept hn
  have hplayed : sheet.cycle = some cycle := hcycle
  simp only [hbehavior, accept, hplayed] at haccept
  by_contra hnot
  have hle : cycle.duration ≤ (Scalar.zero : Rat) := le_of_not_gt hnot
  rw [if_pos hle] at haccept
  cases haccept

/-- The code of a node with a sheet stands in the texture code, in the places of the shared
registers, and what it reads is remembered behind it. -/
theorem Built.exists_sheetCode (h : s.Built)
    (hsources : sourceNames.mapM Register.ofName = .ok sources)
    (htargets : targetNames.mapM Register.ofName = .ok targets)
    (hwhole : ∀ r ∈ targets, ∃ i, r = .temporary i) (hnodup : targets.Nodup)
    (hpass : pass.uvAnimation = true)
    (hvertex : Leads (s.vertexCode pass profile sourceNames targetNames) c p c₁)
    (huv : Leads (s.uvCode sourceName targetName) c₁ q c₂) (hn : n ∈ s.nodes)
    (hbehavior : n.behavior = .spriteSheet sheet) :
    ∃ (P : Layout) (uv : UvRegisters) (before code after : Program) (d d' : Compilation Rat),
      q = before ++ code ++ after ∧ c₂.shared = some P.shared ∧ c₂.uv = some uv ∧
      Leads n.uvCode d code d' ∧ d.Hosts P ∧ d'.Hosts P ∧ d.features.uvAnimation = true ∧
      d.uv = some uv ∧ uv.working = P.shared.displacement ∧
      ∀ slot, c₂.index? n.id slot = d'.index? n.id slot := by
  obtain ⟨P, hhosts⟩ := h.hosts_vertexCode hsources htargets hwhole hnodup hvertex
  obtain ⟨hc₁, hnone⟩ := h.compiled_vertexCode hvertex
  have hon : c₁.features.uvNode = true := by
    have hraised := raised_of_mem s (·.uvNode) rfl (fun _ _ => rfl) hn (by rw [hbehavior]; rfl)
    rw [hc₁.features]
    exact Bool.or_eq_true_iff.mpr (.inl hraised)
  have hanimation : c₁.features.uvAnimation = true := by
    rw [hc₁.features]
    exact Bool.or_eq_true_iff.mpr (.inr hpass)
  rw [leads_uvCode (by rw [isActive, hc₁.phase]; rfl) (by rw [hc₁.phase]; exact Phase.noConfusion)
    hnone] at huv
  obtain ⟨uv, pieces, c₃, hset, hwrites, hnodes, rfl, rfl⟩ := writesTexture_of_writeUvCode hon huv
  obtain ⟨shared, source, target, hshared, -, -, hregisters, -⟩ := leads_setUv.mp hset
  obtain rfl := hhosts.shared_eq hshared
  obtain ⟨piece, hpiece, rfl⟩ : ∃ piece ∈ pieces, piece.1 = n :=
    List.mem_map.mp (hnodes ▸ hn)
  have hcatalogue : ∀ m ∈ pieces.map Prod.fst, m.behavior.IsCatalogue := hnodes ▸ h.isCatalogue
  -- what the code of nodes leaves as it is
  have hkeeps : ∀ m ∈ pieces.map Prod.fst, ∀ {d p d'}, Leads m.uvCode d p d' →
      d.Hosts P ∧ d.uv = some uv ∧ d.features = c₁.features →
      d'.Hosts P ∧ d'.uv = some uv ∧ d'.features = c₁.features := by
    intro m hm d p d' hcode hkept
    obtain ⟨hhosts, huv, hfeatures⟩ := hkept
    obtain ⟨_, hgrows⟩ := Node.grows_uvCode (hcatalogue m hm) hcode
    exact ⟨hhosts.grows hgrows, by rw [hgrows.frame, ← huv], hgrows.features.trans hfeatures⟩
  have hstart : Compilation.Hosts { c₁ with uv := some uv } P :=
    ⟨hhosts.shared, hhosts.velocity, hhosts.apart, hhosts.color⟩
  obtain ⟨before, after, d, d', rfl, ⟨hhosts', huv', hfeatures⟩, hcode, hlater⟩ :=
    hwrites.exists_step_of (I := fun d => d.Hosts P ∧ d.uv = some uv ∧ d.features = c₁.features)
      hkeeps ⟨hstart, rfl, rfl⟩ hpiece
  obtain ⟨_, hgrows⟩ := Node.grows_uvCode (h.isCatalogue _ hn) hcode
  have huvKept : c₃.uv = some uv := (hwrites.sameTexture fun m hm =>
    leavesTexture_of_isCatalogue (hcatalogue m hm)).uv
  rw [List.map_append, List.map_cons, List.forall_mem_append, List.forall_mem_cons] at hcatalogue
  have hids := h.nodup_ids
  rw [← hnodes, List.map_map, List.map_append, List.map_cons, List.nodup_middle,
    List.nodup_cons, List.mem_append, not_or] at hids
  have hpasses := hlater.passesOver_others Node.uvNeeds fst_of_mem_uvNeeds
    (fun m hm => Node.records_uvCode (hcatalogue.2.2 m hm)) hids.1.2
  refine ⟨P, uv, Statement.mov uv.working.xy uv.source :: before.flatMap Prod.snd, piece.2,
    after.flatMap Prod.snd ++ [Statement.mov uv.target uv.working.xy], d, d', ?_,
    hpasses.shared.trans (shared_of_shared? (hhosts'.grows hgrows).shared), huvKept, hcode,
    hhosts', hhosts'.grows hgrows, by rw [hfeatures, hanimation], huv', by rw [hregisters],
    fun slot => hpasses.index?_eq⟩
  simp

/-- **A sprite sheet shows its cells**: let a built set be compiled for a pass that animates the
texture, to different whole temporaries, and the texture code be written. The code of a node
with a sheet of a size stands in it, and on every machine that is loaded with the constants of
the sheet it takes the coordinates that it works on to the cell of the moment, in row-major
order, as long as the life or the cycle has been played to a part that is not negative and below
one. Every such part shows a frame of the sheet, which is one of its cells, and every frame is
shown at some time. -/
theorem Built.sheet_spec (h : s.Built) (hsources : sourceNames.mapM Register.ofName = .ok sources)
    (htargets : targetNames.mapM Register.ofName = .ok targets)
    (hwhole : ∀ r ∈ targets, ∃ i, r = .temporary i) (hnodup : targets.Nodup)
    (hpass : pass.uvAnimation = true)
    (hvertex : Leads (s.vertexCode pass profile sourceNames targetNames) c p c₁)
    (huv : Leads (s.uvCode sourceName targetName) c₁ q c₂) (hn : n ∈ s.nodes)
    (hbehavior : n.behavior = .spriteSheet sheet)
    (hsize : SpriteSheet.ofSize columns rows used cycle = .ok sheet)
    (hframes : 1 ≤ sheet.frames) :
    (∃ (shared : SharedRegisters) (uv : UvRegisters) (before code after : Program),
      q = before ++ code ++ after ∧ c₂.shared = some shared ∧ c₂.uv = some uv ∧
      (∃ d d', Leads n.uvCode d code d') ∧
      ∀ (F : Functions Rat) (m : Machine Rat), sheet.Loaded c₂ n m →
        let f := sheet.progress (m.read shared.time .x) (m.read shared.life .x)
        0 ≤ f → f < 1 →
          sheet.Shows (sheet.cell f) (m.read uv.working) ((code.run F m).read uv.working)) ∧
    (∀ f, 0 ≤ f → f < 1 → sheet.cell f < sheet.frames) ∧
    sheet.frames ≤ sheet.columns * sheet.rows ∧
    ∀ i < sheet.frames, ∃ time life, 0 ≤ sheet.progress time life ∧
      sheet.progress time life < 1 ∧ sheet.cell (sheet.progress time life) = i := by
  have hcelled := SpriteSheet.celled_of_size hsize hframes
  have hcycle := h.duration_pos hn hbehavior
  refine ⟨?_, fun f => SpriteSheet.cell_lt hcelled, hcelled.inside, fun i hi => ?_⟩
  · obtain ⟨P, uv, before, code, after, d, d', hq, hshared, huv, hcode, hhosts, hhosts', hon,
      huv', hworking, hindex⟩ :=
      h.exists_sheetCode hsources htargets hwhole hnodup hpass hvertex huv hn hbehavior
    refine ⟨P.shared, uv, before, code, after, hq, hshared, huv, ⟨d, d', hcode⟩,
      fun F m hloaded => ?_⟩
    unfold Node.uvCode at hcode
    rw [hbehavior] at hcode
    refine shows_spriteSheetCode hcelled hcycle hcode hhosts hhosts' hon huv' hworking ⟨?_, ?_⟩
    · exact fun index h => hloaded.constants index ((hindex _).trans h)
    · exact fun index h => hloaded.phase index ((hindex _).trans h)
  · have hpositive : (0 : Rat) < sheet.frames := Nat.cast_pos.mpr hcelled.frames
    have hnonneg : 0 ≤ (i / sheet.frames : Rat) := div_nonneg (Nat.cast_nonneg _) hpositive.le
    have hone : (i / sheet.frames : Rat) < 1 := (div_lt_one hpositive).mpr (Nat.cast_lt.mpr hi)
    obtain ⟨time, life, hplayed⟩ := SpriteSheet.exists_progress hcycle hnonneg hone
    exact ⟨time, life, hplayed ▸ hnonneg, hplayed ▸ hone,
      hplayed ▸ SpriteSheet.cell_div hcelled i⟩

/-- Six frames in four columns and two rows, played in two seconds and begun a quarter late. -/
def sixFrames : SpriteSheet Rat := ⟨4, 2, 6, some ⟨2, some 90⟩⟩

/-- Particles that show the six frames. -/
def playing : NodeSet Rat where
  settings := { features := { uvNode := true } }
  nodes := [timeNode {}, { behavior := .spriteSheet sixFrames, id := 1 }]
  stride := 4

theorem built_playing : playing.Built :=
  .add (b := .spriteSheet sixFrames) (.empty {}) (by exact trivial) rfl

/-- A machine that is loaded with the constants of the six frames, and has one everywhere else. -/
def playingMachine : Machine Rat := fun kind index =>
  if kind = .vertexConstant then
    if index = 3 then fun _ => 1 / 2 else (sheetConstants sixFrames).value
  else fun _ => 1

theorem exists_loaded_playing : ∃ p c₁ q c₂,
    Leads (playing.vertexCode scrollingPass .baseline ["va0"] ["vt0"]) { profile := .standard }
      p c₁ ∧ Leads (playing.uvCode "va1" "v0") c₁ q c₂ ∧
    sixFrames.Loaded c₂ { behavior := .spriteSheet sixFrames, id := 1 } playingMachine ∧
    ∀ shared, c₂.shared = some shared → shared.time.kind = .vertexTemporary := by
  have hboth : succeeds (do
      let _ ← playing.vertexCode scrollingPass .baseline ["va0"] ["vt0"]
      let q ← playing.uvCode "va1" "v0"
      if (← get).index? 1 Slot.value = some 2 ∧ (← get).index? 1 Slot.phase = some 3 ∧
        (← get).shared.map (·.time.kind) = some .vertexTemporary then return q
      else throw .notCompiled) { profile := .standard } = true := by
    decide +kernel
  obtain ⟨_, _, hcode⟩ := exists_leads hboth
  obtain ⟨p, c₁, hvertex, hcode⟩ := leads_bind.mp hcode
  obtain ⟨q, c₂, huv, hplaces⟩ := leads_bind.mp hcode
  simp only [leads_get_bind, leads_ite] at hplaces
  split at hplaces
  · rename_i h
    obtain ⟨hvalue, hphase, hshared⟩ := h
    refine ⟨p, c₁, q, c₂, hvertex, huv,
      ⟨fun index hindex => ?_, fun index hindex shift hshift => ?_⟩, fun shared h => ?_⟩
    · obtain rfl : 2 = index := Option.some.inj (hvalue.symm.trans hindex)
      rfl
    · obtain rfl : 3 = index := Option.some.inj (hphase.symm.trans hindex)
      obtain rfl : (1 / 2 : Rat) = shift := Option.some.inj (Eq.trans (by decide +kernel) hshift)
      rfl
    · rw [h] at hshared
      exact Option.some.inj hshared
  · exact absurd hplaces leads_throw.mp

/-- After a second and a half of the two the fifth frame is shown, the first of the second row. -/
theorem playing_sheet : ∃ p c₁ q c₂ shared uv before code after,
    Leads (playing.vertexCode scrollingPass .baseline ["va0"] ["vt0"]) { profile := .standard }
      p c₁ ∧ Leads (playing.uvCode "va1" "v0") c₁ q c₂ ∧
    SpriteSheet.ofSize 4 2 (some 6) (some ⟨2, some 90⟩) = .ok sixFrames ∧
    q = before ++ code ++ after ∧ c₂.shared = some shared ∧ c₂.uv = some uv ∧
    sixFrames.progress (playingMachine.read shared.time .x) (playingMachine.read shared.life .x) =
      3 / 4 ∧
    sixFrames.Shows 4 (playingMachine.read uv.working)
      ((code.run ⟨id, id, id⟩ playingMachine).read uv.working) := by
  have hsources : ["va0"].mapM Register.ofName = .ok [{ kind := .vertexAttribute, index := 0 }] :=
    rfl
  have htargets : ["vt0"].mapM Register.ofName = .ok [.temporary 0] := rfl
  have hsize : SpriteSheet.ofSize 4 2 (some 6) (some ⟨2, some 90⟩) = .ok sixFrames := rfl
  obtain ⟨p, c₁, q, c₂, hvertex, huv, hloaded, hclock⟩ := exists_loaded_playing
  obtain ⟨⟨shared, uv, before, code, after, hq, hshared, hregisters, -, hshows⟩, -⟩ :=
    built_playing.sheet_spec hsources htargets (List.forall_mem_singleton.mpr ⟨0, rfl⟩)
      (List.nodup_singleton _) rfl hvertex huv (.tail _ (.head _)) rfl hsize (by decide)
  have htime : playingMachine.read shared.time .x = 1 := by
    have hkind : shared.time.operand.kind = .vertexTemporary := hclock shared hshared
    rw [Machine.read_apply, hkind]
    rfl
  have hprogress : sixFrames.progress (playingMachine.read shared.time .x)
      (playingMachine.read shared.life .x) = 3 / 4 := by
    rw [htime]
    show Int.fract ((1 + (sheetPhaseTime sixFrames).getD 0) / 2 : Rat) = 3 / 4
    decide +kernel
  have hcell : sixFrames.cell (3 / 4) = 4 := by decide +kernel
  have hpart := hshows ⟨id, id, id⟩ playingMachine hloaded
  rw [hprogress] at hpart
  have hshown := hpart (by decide +kernel) (by decide +kernel)
  rw [hcell] at hshown
  exact ⟨p, c₁, q, c₂, shared, uv, before, code, after, hvertex, huv, hsize, hq, hshared,
    hregisters, hprogress, hshown⟩

end NodeSet

end ParticleShader
