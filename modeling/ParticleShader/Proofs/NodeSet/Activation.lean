import Mathlib.Data.List.Pairwise
import ParticleShader.Proofs.Node.Closure
import ParticleShader.Proofs.Node.Refusal
import ParticleShader.Proofs.NodeSet.Constants

/-!
# Activation

Staging the constants of a frame, once all code is written. Every node finds the constants
that its code has taken, so it is only refused for its values; and every row but the first
one belongs to one node, which writes it every time. **`activate_spec`** puts this together:
what is staged depends on the frame alone, whatever was staged before.
-/

namespace ParticleShader

variable {α : Type}

open Compile Compilation Node

/-! ### What activating may change -/

/-- Nodes stage constants with steps that do nothing else. -/
theorem sequential_stages : Sequential (α := α) fun _ x => Stages x where
  pure := stages_pure
  throw := stages_throw
  bind := stages_bind
  view _ _ := rfl
  setVertexConstant := stages_setVertexConstant

theorem Node.Modest.stages_writeConstants [Scalar α] {n : Node α} (hn : n.Modest)
    (frame : Frame α) : Stages (n.writeConstants frame) :=
  sequential_writeConstants sequential_stages hn frame

namespace NodeSet

variable [Scalar α] {s : NodeSet α} {c c' c₁ c₂ c₃ : Compilation α} {pass : Pass}
  {profile : Profile} {sourceNames targetNames : List String} {p : Program}
  {calls : List (String × String)} {codes : List Program} {frame : Frame α}

/-- The state after staging the constants of some frames, one after the other. A frame
that is refused ends where it is refused. -/
def activations (s : NodeSet α) (frames : List (Frame α)) (c : Compilation α) : Compilation α :=
  frames.foldl (fun c frame => c.after (s.activate frame)) c

theorem Modest.stages_forM {nodes : List (Node α)} (h : ∀ n ∈ nodes, n.Modest)
    (frame : Frame α) : Stages (nodes.forM (·.writeConstants frame)) := by
  induction nodes with
  | nil => exact stages_pure ()
  | cons n nodes ih =>
    obtain ⟨hn, hnodes⟩ := List.forall_mem_cons.mp h
    exact stages_bind (hn.stages_writeConstants frame) fun _ => ih hnodes

theorem Modest.stages_activate (h : s.Modest) (frame : Frame α) : Stages (s.activate frame) := by
  refine stages_get_bind fun c => ?_
  split
  · exact stages_bind (stages_throw _) fun _ => stages_bind (stages_forM h frame) fun _ _ => rfl
  · exact stages_bind (stages_forM h frame) fun _ _ => rfl

/-- Activating changes nothing but the staged vertex constants. -/
theorem Modest.activations_frame (h : s.Modest) (frames : List (Frame α)) (c : Compilation α) :
    s.activations frames c = { c with vertexRows := (s.activations frames c).vertexRows } := by
  unfold activations
  induction frames generalizing c with
  | nil => rfl
  | cons frame frames ih =>
    have hrest := ih (c.after (s.activate frame))
    have hfirst := h.stages_activate frame c
    rw [List.foldl_cons]
    generalize c.after (s.activate frame) = c' at hfirst hrest ⊢
    rw [hfirst] at hrest ⊢
    exact hrest

/-- A set whose constants can be staged gives the streams that its code has bound. -/
theorem Modest.bindings_of_activate {bindings : List StreamBinding} (hs : s.Modest)
    (h : Leads (s.activate frame) c bindings c') : bindings = c.bindings := by
  have hframe := hs.stages_activate frame c
  rw [h.after_eq] at hframe
  have hresult : bindings = c'.bindings := by
    unfold activate at h
    rw [leads_get_bind] at h
    split at h
    · simp at h
    · obtain ⟨_, c₁, -, hlast⟩ := leads_bind.mp h
      rw [leads_get_bind] at hlast
      obtain ⟨rfl, rfl⟩ := leads_result.mp hlast
      rfl
  rw [hresult, hframe]

/-! ### When all code is written -/

theorem uvNeeds_of_uvNode {f : Features} (h : s.raised.uvNode = false) : s.uvNeeds f = [] := by
  rw [raised_eq_any s (·.uvNode) rfl fun _ _ => rfl] at h
  refine List.flatMap_eq_nil_iff.mpr fun n hn => ?_
  have hnode := List.any_eq_false.mp h n hn
  unfold Node.uvNeeds
  cases hbehavior : n.behavior
  case uv | spriteSheet => simp [hbehavior, Behavior.raised] at hnode
  all_goals rfl

theorem uvNeeds_of_uvAnimation {f : Features} (h : f.uvAnimation = false) : s.uvNeeds f = [] := by
  refine List.flatMap_eq_nil_iff.mpr fun n _ => ?_
  unfold Node.uvNeeds
  cases n.behavior
  case uv | spriteSheet =>
    simp only [Behavior.uvNeeds, h, Bool.false_eq_true, if_false]
    rfl
  all_goals rfl

/-- No node asks for animated texture coordinates; only the pass does. -/
theorem Built.uvAnimation_featuresFor (h : s.Built) (pass : Pass) :
    (s.featuresFor pass).uvAnimation = pass.uvAnimation := by
  have hraised : s.raised.uvAnimation = false := by
    rw [raised_eq_any s (·.uvAnimation) rfl fun _ _ => rfl]
    refine List.any_eq_false.mpr fun n hn => ?_
    have hcatalogue := h.isCatalogue n hn
    cases hbehavior : n.behavior
    case custom => simp [hbehavior, Behavior.IsCatalogue] at hcatalogue
    all_goals simp [Behavior.raised]
  show (s.raised.uvAnimation || pass.uvAnimation) = pass.uvAnimation
  rw [hraised, Bool.false_or]

/-- All needs of a set are met when its texture code was asked for, unless that has no
needs. -/
theorem Built.finishable (h : s.Built)
    (hvertex : Leads (s.vertexCode pass profile sourceNames targetNames) c p c₁)
    (huv : Leads (s.uvCodes calls) c₁ codes c₂)
    (hcalls : (∃ n ∈ s.nodes, n.behavior.raised.uvNode = true) → pass.uvAnimation = true →
      calls ≠ []) : s.Finishable pass c₂ := by
  have hcompiled := h.compiled hvertex huv
  have hnode : (s.featuresFor pass).uvNode = s.raised.uvNode := Bool.or_false _
  unfold Finishable
  by_cases hasked : (s.featuresFor pass).uvNode = true ∧ calls ≠ []
  · rwa [if_pos hasked] at hcompiled
  · have hnone : s.uvNeeds (s.featuresFor pass) = [] := by
      by_cases hraised : s.raised.uvNode = true
      · refine uvNeeds_of_uvAnimation ?_
        rw [h.uvAnimation_featuresFor]
        refine Bool.eq_false_iff.mpr fun hanimation => hasked ⟨hnode.trans hraised, ?_⟩
        refine hcalls ?_ hanimation
        rw [raised_eq_any s (·.uvNode) rfl fun _ _ => rfl] at hraised
        exact List.any_eq_true.mp hraised
      · exact uvNeeds_of_uvNode (Bool.eq_false_iff.mpr hraised)
    rw [if_neg hasked] at hcompiled
    rwa [hnone]

/-- The first row: the constants `0`, `1` and `2`. -/
def helperRow : Vec4 α := ⟨Scalar.zero, Scalar.one, Scalar.two, Scalar.zero⟩

/-- All code of a set is written, and constants may have been staged. -/
structure Finished (s : NodeSet α) (pass : Pass) (c : Compilation α) : Prop where
  /-- The nodes are of the catalogue. -/
  catalogue : ∀ n ∈ s.nodes, n.behavior.IsCatalogue
  /-- Nothing follows. -/
  phase : c.phase = .done
  /-- The registers of the material are those of the pass. -/
  taken : c.taken = pass.taken
  /-- The features of the nodes and of the pass are on. -/
  features : c.features = s.featuresFor pass
  /-- The constants of the parameters are behind that of the shared registers. -/
  constants : ((s.nodes.flatMap (Node.needs (s.featuresFor pass))).flatMap
    c.ledger.constantsOf).Perm (List.range' (pass.taken.vertexConstants + 1)
      (c.used.vertexConstants - (pass.taken.vertexConstants + 1)))
  /-- Every node finds its own. -/
  located : ∀ n ∈ s.nodes, ∀ slot count,
    .constants slot count ∈ n.behavior.needs (s.featuresFor pass) →
    ∃ index, c.index? n.id slot = some index ∧ pass.taken.vertexConstants < index ∧
      index + count ≤ c.used.vertexConstants
  /-- There is a row for every constant. -/
  length : c.vertexRows.length = c.used.vertexConstants - pass.taken.vertexConstants
  /-- One of them is that of the shared registers. -/
  taken_lt : pass.taken.vertexConstants < c.used.vertexConstants
  /-- Constants were taken within the profile. -/
  room : c.used.vertexConstants ≤ c.limit .vertexConstant
  /-- The first row is there. -/
  helper : c.vertexRows[0]? = some helperRow

/-- What is left when code is finished: the rows of zeros, with the first one staged. -/
theorem leads_finish {needs : List (Node α × Need)} {u : Unit} (hc : s.Compiled pass needs c)
    (h : Leads finish c u c') : ∃ fragmentRows : List (Vec4 α), c' =
      { c with
        phase := .done
        vertexRows := (List.replicate (c.used.vertexConstants - pass.taken.vertexConstants)
          Vec4.zero).set 0 helperRow
        fragmentRows } := by
  have hlt : pass.taken.vertexConstants + 1 ≤ c.used.vertexConstants := by
    have hle := Ledger.constants_le_takeAll (Ledger.opened pass) needs
    rw [← hc.ledger] at hle
    exact hle
  obtain ⟨shared, hshared, hindex⟩ := hc.shared
  unfold finish at h
  rw [leads_enter_bind (by rw [hc.phase]; rfl), leads_modify_bind, leads_shared_bind] at h
  obtain ⟨shared', hshared', h⟩ := h
  obtain rfl : shared' = shared := by
    simp only [shared?, isActive, Phase.isActive, hshared] at hshared'
    exact (Except.ok.inj hshared').symm
  have hroom : c.used.vertexConstants ≤ c.limit .vertexConstant := hc.room
  rw [hindex, ← hc.taken] at h
  rw [← hc.taken]
  refine ⟨_, first_of_setVertexConstant h ?_ ?_⟩
  · unfold Sized
    rw [List.length_replicate]
    show c.taken.vertexConstants + (c.used.vertexConstants - c.taken.vertexConstants) ≤
      c.limit .vertexConstant
    rw [hc.taken]
    omega
  · rw [List.length_replicate]
    show 0 < c.used.vertexConstants - c.taken.vertexConstants
    rw [hc.taken]
    omega

/-- Behind finished code everything is ready to be staged. -/
theorem Built.finished (h : s.Built) (hc : s.Finishable pass c₂) {u : Unit}
    (hdone : Leads finish c₂ u c₃) : s.Finished pass c₃ := by
  have hconstants := h.constantsOf_nodes hc
  have hlocated : ∀ n ∈ s.nodes, ∀ slot count,
      .constants slot count ∈ n.behavior.needs (s.featuresFor pass) → ∃ index,
        c₂.index? n.id slot = some index ∧ pass.taken.vertexConstants < index ∧
          index + count ≤ c₂.used.vertexConstants :=
    fun n hn _ _ hneed => h.exists_index hc hn hneed
  have hlt : pass.taken.vertexConstants + 1 ≤ c₂.used.vertexConstants := by
    have hle := Ledger.constants_le_takeAll (Ledger.opened pass)
      (s.vertexNeeds (s.featuresFor pass) ++ s.uvNeeds (s.featuresFor pass))
    rw [← hc.ledger] at hle
    exact hle
  obtain ⟨fragmentRows, rfl⟩ := leads_finish hc hdone
  refine ⟨h.isCatalogue, rfl, hc.taken, hc.features, hconstants, hlocated, ?_, hlt, hc.room, ?_⟩
  · rw [List.length_set, List.length_replicate]
  · refine List.getElem?_set_self ?_
    rw [List.length_replicate]
    exact Nat.sub_pos_of_lt hlt

theorem Finished.modest (hc : s.Finished pass c) : s.Modest :=
  fun n hn => modest_of_isCatalogue (hc.catalogue n hn)

/-! ### Staging a frame -/

theorem Finished.sized (hc : s.Finished pass c) : c.Sized := by
  have hroom := hc.room
  have hlt := hc.taken_lt
  unfold Sized
  rw [hc.taken, hc.length]
  omega

/-- Other values in the rows leave everything ready, if the first row is staged again. -/
theorem Finished.staging (hc : s.Finished pass c) {writes : List (Nat × Vec4 α)}
    (hbehind : ∀ write ∈ writes, pass.taken.vertexConstants < write.1) :
    s.Finished pass (c.staging writes) := by
  refine ⟨hc.catalogue, hc.phase, hc.taken, hc.features, hc.constants, hc.located, ?_, hc.taken_lt,
    hc.room, ?_⟩
  · exact (length_stageAll ..).trans hc.length
  · rw [← hc.helper]
    show (stageAll c.taken.vertexConstants writes c.vertexRows)[0]? = _
    rw [hc.taken]
    refine stageAll_of_notMem (fun write hwrite => (hbehind write hwrite).le) ?_ _
    rintro hmem
    obtain ⟨write, hwrite, hindex⟩ := List.mem_map.mp hmem
    have hlt := hbehind write hwrite
    omega

/-- Every node can stage its constants. -/
theorem Finished.placed (hc : s.Finished pass c) {n : Node α} (hn : n ∈ s.nodes) :
    n.Placed c := by
  unfold Node.Placed
  rw [hc.features]
  intro part hpart
  obtain ⟨need, hneed, hconstants⟩ := List.mem_filterMap.mp hpart
  cases need with
  | stream slot start components => cases hconstants
  | constants slot count =>
    cases hconstants
    obtain ⟨index, hindex, hlow, hhigh⟩ := hc.located n hn slot count hneed
    have hlt := hc.taken_lt
    refine ⟨index, hindex, ?_, ?_⟩
    · rw [hc.taken]
      exact hlow.le
    · rw [hc.taken, hc.length]
      omega

end NodeSet

/-- The writes of a node for a frame, if its values are not refused. -/
def Node.frameWrites [Scalar α] (n : Node α) (frame : Frame α) (c : Compilation α) : List (Nat × Vec4 α) :=
  match n.behavior.staged c.features frame with
  | .ok rows => c.writes n.id rows
  | .error _ => []

theorem Node.frameWrites_eq [Scalar α] {n : Node α} {frame : Frame α} {c : Compilation α}
    {rows : Behavior.Rows α} (h : n.behavior.staged c.features frame = .ok rows) :
    n.frameWrites frame c = c.writes n.id rows := by
  unfold Node.frameWrites
  rw [h]

/-- The constants that a node writes for a frame are those that its code has taken. -/
theorem Node.map_fst_frameWrites [Scalar α] {n : Node α} {frame : Frame α} {c : Compilation α}
    {rows : Behavior.Rows α} (h : n.behavior.staged c.features frame = .ok rows) :
    (n.frameWrites frame c).map Prod.fst =
      (Node.needs c.features n).flatMap c.ledger.constantsOf := by
  let places : Nat × Nat → List Nat := fun part =>
    (c.index? n.id part.1).elim [] (List.range' · part.2)
  have hwrites : (n.frameWrites frame c).map Prod.fst = rows.shape.flatMap places := by
    rw [Node.frameWrites_eq h]
    unfold writes Behavior.Rows.shape
    rw [List.map_flatMap, List.flatMap_map]
    refine List.flatMap_congr fun row _ => ?_
    simp only [places]
    cases c.index? n.id row.1 with
    | none => rfl
    | some index => exact map_fst_consecutive index row.2
  have hneeds : (Node.needs c.features n).flatMap c.ledger.constantsOf =
      ((n.behavior.needs c.features).filterMap Need.constants?).flatMap places := by
    unfold Node.needs
    induction n.behavior.needs c.features with
    | nil => rfl
    | cons need needs ih =>
      rw [List.map_cons, List.flatMap_cons, ih]
      cases need with
      | constants slot count =>
        show Ledger.constantsOf _ (n, .constants slot count) ++ _ = places (slot, count) ++ _
        congr 1
        simp only [Ledger.constantsOf, places, Compilation.index?, Compilation.ledger]
        cases c.indices.lookup (n.id, slot) <;> rfl
      | stream slot start components => rfl
  rw [hwrites, hneeds, Behavior.staged_needs h]

namespace NodeSet

variable [Scalar α] {s : NodeSet α} {c c' c₁ c₂ c₃ : Compilation α} {pass : Pass}
  {frame : Frame α} {nodes : List (Node α)}

/-- What staging the constants of some nodes comes to: all that they write, or a node
whose values are refused, and then only what the nodes before it write. -/
theorem run_writeAll (hcatalogue : ∀ n ∈ nodes, n.behavior.IsCatalogue) (hsized : c.Sized)
    (hplaced : ∀ n ∈ nodes, n.Placed c) (frame : Frame α) :
    ((∀ n ∈ nodes, ∃ rows, n.behavior.staged c.features frame = .ok rows) ∧
      Leads (nodes.forM (·.writeConstants frame)) c ()
        (c.staging (nodes.flatMap (·.frameWrites frame c)))) ∨
    ∃ before n after fault, nodes = before ++ n :: after ∧
      n.behavior.staged c.features frame = .error fault ∧
      (nodes.forM (·.writeConstants frame)).run c =
        .error fault (c.staging (before.flatMap (·.frameWrites frame c))) := by
  induction nodes generalizing c with
  | nil => exact .inl ⟨fun _ hn => absurd hn List.not_mem_nil, leads_pure.mpr ⟨rfl, rfl⟩⟩
  | cons n nodes ih =>
    rw [List.forall_mem_cons] at hcatalogue hplaced
    have hfirst := Node.run_writeConstants hcatalogue.1 hsized hplaced.1 frame
    cases hstaged : n.behavior.staged c.features frame with
    | error fault =>
      rw [hstaged] at hfirst
      have hrefused : (n.writeConstants frame).run c = .error fault c := hfirst
      refine .inr ⟨[], n, nodes, fault, rfl, hstaged, ?_⟩
      rw [List.forM_eq_forM, List.forM_cons, EStateM.run_bind, hrefused]
      rfl
    | ok rows =>
      rw [hstaged] at hfirst
      have hwrites := Node.frameWrites_eq hstaged
      have hrest := ih hcatalogue.2 (hsized.staging (c.writes n.id rows)) fun m hm =>
        Behavior.places_staging _ (hplaced.2 m hm)
      rcases hrest with ⟨hall, hleads⟩ | ⟨before, m, after, fault, rfl, hfault, hrun⟩
      · refine .inl ⟨List.forall_mem_cons.mpr ⟨⟨rows, hstaged⟩, hall⟩, ?_⟩
        rw [List.flatMap_cons, hwrites, staging_append, List.forM_eq_forM, List.forM_cons]
        exact leads_bind.mpr ⟨(), _, hfirst, hleads⟩
      · refine .inr ⟨n :: before, m, after, fault, rfl, hfault, ?_⟩
        rw [List.flatMap_cons, hwrites, staging_append, List.forM_eq_forM, List.forM_cons]
        have hwritten : (n.writeConstants frame).run c = _ := hfirst
        rw [EStateM.run_bind, hwritten]
        exact hrun

/-- Activating gets to the nodes. -/
theorem Finished.run_activate_eq (hc : s.Finished pass c) (frame : Frame α) :
    (s.activate frame).run c =
      (do
        s.nodes.forM (·.writeConstants frame)
        return (← get).bindings : Compile α (List StreamBinding)).run c := by
  show (if c.phase ≠ .done then (_ : Compile α (List StreamBinding)) else _).run c = _
  rw [hc.phase]
  rfl

/-- A frame is written by all nodes, or refused by one of them. -/
theorem Finished.run_activate (hc : s.Finished pass c) (frame : Frame α) :
    ((∀ n ∈ s.nodes, ∃ rows, n.behavior.staged c.features frame = .ok rows) ∧
      Leads (s.activate frame) c c.bindings
        (c.staging (s.nodes.flatMap (·.frameWrites frame c)))) ∨
    ∃ before n after fault, s.nodes = before ++ n :: after ∧
      n.behavior.staged c.features frame = .error fault ∧
      (s.activate frame).run c =
        .error fault (c.staging (before.flatMap (·.frameWrites frame c))) := by
  have hactivate := hc.run_activate_eq frame
  rcases run_writeAll hc.catalogue hc.sized (fun n hn => hc.placed hn) frame with
    ⟨hall, hleads⟩ | ⟨before, n, after, fault, hnodes, hfault, hrun⟩
  · refine .inl ⟨hall, hactivate.trans ?_⟩
    exact leads_bind.mpr ⟨(), _, hleads, leads_get_bind.mpr (leads_pure.mpr ⟨rfl, rfl⟩)⟩
  · refine .inr ⟨before, n, after, fault, hnodes, hfault, hactivate.trans ?_⟩
    rw [EStateM.run_bind, hrun]

/-- What a node writes for a frame lies behind the constant of the shared registers. -/
theorem Finished.lt_of_mem_frameWrites (hc : s.Finished pass c) {n : Node α} (hn : n ∈ s.nodes)
    {write : Nat × Vec4 α} (hwrite : write ∈ n.frameWrites frame c) :
    pass.taken.vertexConstants < write.1 := by
  cases hstaged : n.behavior.staged c.features frame with
  | error fault =>
    unfold Node.frameWrites at hwrite
    rw [hstaged] at hwrite
    simp at hwrite
  | ok rows =>
    have hindex : write.1 ∈ (Node.needs (s.featuresFor pass) n).flatMap c.ledger.constantsOf := by
      rw [← hc.features, ← Node.map_fst_frameWrites hstaged]
      exact List.mem_map_of_mem hwrite
    have hmem := (List.mem_flatMap.mp hindex)
    obtain ⟨need, hneed, hof⟩ := hmem
    have hrange := hc.constants.mem_iff.mp
      (List.mem_flatMap.mpr ⟨need, List.mem_flatMap.mpr ⟨n, hn, hneed⟩, hof⟩)
    exact (List.mem_range'_1.mp hrange).1

theorem Finished.lt_of_mem_flatMap (hc : s.Finished pass c) (hnodes : ∀ n ∈ nodes, n ∈ s.nodes)
    {write : Nat × Vec4 α} (hwrite : write ∈ nodes.flatMap (·.frameWrites frame c)) :
    pass.taken.vertexConstants < write.1 := by
  obtain ⟨n, hn, hwrite⟩ := List.mem_flatMap.mp hwrite
  exact hc.lt_of_mem_frameWrites (hnodes n hn) hwrite

/-- **A step of a history**: staging a frame, refused or not, leaves everything ready. -/
theorem Finished.activated (hc : s.Finished pass c) (frame : Frame α) :
    s.Finished pass (c.after (s.activate frame)) := by
  rcases hc.run_activate frame with ⟨-, hleads⟩ | ⟨before, n, after, fault, hnodes, -, hrun⟩
  · rw [hleads.after_eq]
    exact hc.staging fun write => hc.lt_of_mem_flatMap fun _ hn => hn
  · unfold Compilation.after
    rw [hrun]
    refine hc.staging fun write => hc.lt_of_mem_flatMap fun m hm => ?_
    rw [hnodes]
    exact List.mem_append_left _ hm

/-- **Histories**: any frames that are staged one after the other leave everything ready. -/
theorem Finished.activations (hc : s.Finished pass c) (frames : List (Frame α)) :
    s.Finished pass (s.activations frames c) := by
  unfold NodeSet.activations
  induction frames generalizing c with
  | nil => exact hc
  | cons frame frames ih => exact ih (hc.activated frame)

/-! ### Every row has its node -/

/-- The constants that a frame is written to are those behind that of the shared
registers, each once. -/
theorem Finished.perm_frameWrites (hc : s.Finished pass c)
    (hall : ∀ n ∈ s.nodes, ∃ rows, n.behavior.staged c.features frame = .ok rows) :
    ((s.nodes.flatMap (·.frameWrites frame c)).map Prod.fst).Perm
      (List.range' (pass.taken.vertexConstants + 1)
        (c.used.vertexConstants - (pass.taken.vertexConstants + 1))) := by
  refine List.Perm.trans (List.Perm.of_eq ?_) hc.constants
  rw [List.map_flatMap, List.flatMap_assoc]
  refine List.flatMap_congr fun n hn => ?_
  obtain ⟨rows, hrows⟩ := hall n hn
  rw [Node.map_fst_frameWrites hrows, hc.features]

end NodeSet

/-- The state with other rows. -/
def Compilation.withRows (c : Compilation α) (rows : List (Vec4 α)) : Compilation α :=
  { c with vertexRows := rows }

/-- A node writes a value into a row for a frame, whatever the rows held. -/
def Node.Puts [Scalar α] (n : Node α) (frame : Frame α) (c : Compilation α) (row : Nat)
    (value : Vec4 α) : Prop :=
  ∀ rows, rows.length = c.vertexRows.length → ∃ c',
    Leads (n.writeConstants frame) (c.withRows rows) () c' ∧ c'.vertexRows[row]? = some value

/-- A node leaves a row alone when it writes a frame, whatever the rows hold. -/
def Node.Spares [Scalar α] (n : Node α) (frame : Frame α) (c : Compilation α) (row : Nat) :
    Prop :=
  ∀ rows, rows.length = c.vertexRows.length →
    ((c.withRows rows).after (n.writeConstants frame)).vertexRows[row]? = rows[row]?

/-- What a node writes does not depend on the rows, only on their number. -/
theorem Node.Placed.withRows [Scalar α] {n : Node α} {c : Compilation α} (h : n.Placed c)
    {rows : List (Vec4 α)} (hlength : rows.length = c.vertexRows.length) :
    n.Placed (c.withRows rows) := by
  intro part hpart
  obtain ⟨index, hindex, hlow, hhigh⟩ := h part hpart
  refine ⟨index, hindex, hlow, ?_⟩
  show _ ≤ c.taken.vertexConstants + rows.length
  rwa [hlength]

theorem Compilation.Sized.withRows {c : Compilation α} (h : c.Sized) {rows : List (Vec4 α)}
    (hlength : rows.length = c.vertexRows.length) : (c.withRows rows).Sized := by
  show c.taken.vertexConstants + rows.length ≤ _
  rw [hlength]
  exact h

namespace NodeSet

variable [Scalar α] {s : NodeSet α} {c c' c₁ c₂ c₃ : Compilation α} {pass : Pass}
  {profile : Profile} {sourceNames targetNames : List String} {p : Program}
  {calls : List (String × String)} {codes : List Program} {frame : Frame α} {row : Nat}

/-- A node writes the constants that are its own. -/
theorem Finished.puts (hc : s.Finished pass c) {n : Node α} (hn : n ∈ s.nodes)
    (hstaged : ∃ rows, n.behavior.staged c.features frame = .ok rows)
    (hnodup : ((n.frameWrites frame c).map Prod.fst).Nodup) {value : Vec4 α}
    (hwrite : (pass.taken.vertexConstants + row, value) ∈ n.frameWrites frame c)
    (hrow : row < c.vertexRows.length) : n.Puts frame c row value := by
  obtain ⟨staged, hstaged⟩ := hstaged
  have hwrites := Node.frameWrites_eq hstaged
  intro rows hlength
  have hrun := Node.run_writeConstants (hc.catalogue n hn) (hc.sized.withRows hlength)
    ((hc.placed hn).withRows hlength) frame
  have hsame : n.behavior.staged (c.withRows rows).features frame = .ok staged := hstaged
  rw [hsame] at hrun
  refine ⟨_, hrun, ?_⟩
  show (stageAll c.taken.vertexConstants (c.writes n.id staged) rows)[row]? = some value
  rw [hc.taken, ← hwrites]
  exact stageAll_of_mem (fun write hmem => (hc.lt_of_mem_frameWrites hn hmem).le) hnodup hwrite
    (hlength ▸ hrow)

/-- A node leaves the constants alone that are not its own. -/
theorem Finished.spares (hc : s.Finished pass c) {n : Node α} (hn : n ∈ s.nodes)
    (hrow : pass.taken.vertexConstants + row ∉ (n.frameWrites frame c).map Prod.fst) :
    n.Spares frame c row := by
  intro rows hlength
  have hrun := Node.run_writeConstants (hc.catalogue n hn) (hc.sized.withRows hlength)
    ((hc.placed hn).withRows hlength) frame
  have hfeatures : (c.withRows rows).features = c.features := rfl
  unfold Compilation.after
  cases hstaged : n.behavior.staged c.features frame with
  | error fault =>
    rw [hfeatures, hstaged] at hrun
    have hrefused : (n.writeConstants frame).run (c.withRows rows) =
      .error fault (c.withRows rows) := hrun
    rw [hrefused]
    rfl
  | ok staged =>
    have hwrites := Node.frameWrites_eq hstaged
    rw [hfeatures, hstaged] at hrun
    have hwritten : (n.writeConstants frame).run (c.withRows rows) =
      .ok () ((c.withRows rows).staging (c.writes n.id staged)) := hrun
    rw [hwritten]
    show (stageAll c.taken.vertexConstants (c.writes n.id staged) rows)[row]? = rows[row]?
    rw [hc.taken, ← hwrites]
    exact stageAll_of_notMem (fun write hmem => (hc.lt_of_mem_frameWrites hn hmem).le) hrow rows

/-- **Every row but the first one has its node**, which writes it; the others leave it
alone. -/
theorem Finished.owner (hc : s.Finished pass c)
    (hall : ∀ n ∈ s.nodes, ∃ rows, n.behavior.staged c.features frame = .ok rows)
    (hpositive : 0 < row) (hrow : row < c.vertexRows.length) : ∃ n ∈ s.nodes, ∃ value,
      n.Puts frame c row value ∧
      (∀ rows, rows.length = c.vertexRows.length → (stageAll pass.taken.vertexConstants
        (s.nodes.flatMap (·.frameWrites frame c)) rows)[row]? = some value) ∧
      ∀ m ∈ s.nodes, m.id ≠ n.id → m.Spares frame c row := by
  have hlength := hc.length
  have hperm := hc.perm_frameWrites hall
  have hnodup : ((s.nodes.flatMap (·.frameWrites frame c)).map Prod.fst).Nodup :=
    hperm.nodup_iff.mpr List.nodup_range'
  have hindex : pass.taken.vertexConstants + row ∈
      (s.nodes.flatMap (·.frameWrites frame c)).map Prod.fst := by
    refine hperm.mem_iff.mpr (List.mem_range'_1.mpr ?_)
    omega
  obtain ⟨⟨index, value⟩, hwrite, hfst⟩ := List.mem_map.mp hindex
  obtain rfl : index = pass.taken.vertexConstants + row := hfst
  obtain ⟨n, hn, hown⟩ := List.mem_flatMap.mp hwrite
  have hparts := hnodup
  rw [List.map_flatMap, List.nodup_flatMap] at hparts
  refine ⟨n, hn, value, hc.puts hn (hall n hn) (hparts.1 n hn) hown hrow, ?_, ?_⟩
  · intro rows hrows
    refine stageAll_of_mem (fun write hmem => ?_) hnodup hwrite (hrows ▸ hrow)
    exact (hc.lt_of_mem_flatMap (fun _ hm => hm) hmem).le
  · intro m hm hne
    refine hc.spares hm fun hother => ?_
    have : Std.Symm (Function.onFun List.Disjoint fun n : Node α =>
        (n.frameWrites frame c).map Prod.fst) := ⟨fun _ _ hdisjoint => hdisjoint.symm⟩
    have hdisjoint := hparts.2.forall hm hn fun heq => hne (congrArg Node.id heq)
    exact hdisjoint hother (List.mem_map_of_mem hown)

/-- Two states that are ready and differ in their rows only are the same after a frame. -/
theorem Finished.staging_eq (hc : s.Finished pass c)
    (hall : ∀ n ∈ s.nodes, ∃ rows, n.behavior.staged c.features frame = .ok rows)
    {rows : List (Vec4 α)} (hlength : rows.length = c.vertexRows.length)
    (hfirst : rows[0]? = some helperRow) :
    c.staging (s.nodes.flatMap (·.frameWrites frame c)) =
      (c.withRows rows).staging (s.nodes.flatMap (·.frameWrites frame c)) := by
  have hbehind : ∀ write ∈ s.nodes.flatMap (·.frameWrites frame c),
      pass.taken.vertexConstants < write.1 := fun write =>
    hc.lt_of_mem_flatMap fun _ hm => hm
  have hzero : pass.taken.vertexConstants + 0 ∉
      (s.nodes.flatMap (·.frameWrites frame c)).map Prod.fst := by
    intro hmem
    obtain ⟨write, hwrite, hindex⟩ := List.mem_map.mp hmem
    have hlt := hbehind write hwrite
    omega
  have hrows : stageAll pass.taken.vertexConstants (s.nodes.flatMap (·.frameWrites frame c))
      c.vertexRows = stageAll pass.taken.vertexConstants
        (s.nodes.flatMap (·.frameWrites frame c)) rows := by
    refine List.ext_getElem? fun row => ?_
    by_cases hrow : row < c.vertexRows.length
    · rcases Nat.eq_zero_or_pos row with rfl | hpositive
      · rw [stageAll_of_notMem (fun write hwrite => (hbehind write hwrite).le) hzero,
          stageAll_of_notMem (fun write hwrite => (hbehind write hwrite).le) hzero, hfirst,
          hc.helper]
      · obtain ⟨n, -, value, -, hvalue, -⟩ := hc.owner hall hpositive hrow
        rw [hvalue c.vertexRows rfl, hvalue rows hlength]
    · rw [List.getElem?_eq_none, List.getElem?_eq_none]
      · rw [length_stageAll, hlength]
        exact Nat.not_lt.mp hrow
      · rw [length_stageAll]
        exact Nat.not_lt.mp hrow
  unfold Compilation.staging Compilation.withRows
  rw [hc.taken, hrows]

end NodeSet

/-! ### A frame and its state -/

namespace NodeSet

section

variable [Scalar α] {s : NodeSet α} {c c₁ c₂ c₃ : Compilation α} {pass : Pass}
  {profile : Profile} {sourceNames targetNames : List String} {p : Program}
  {calls : List (String × String)} {codes : List Program} {frame : Frame α}

/-- A frame is staged exactly if no node refuses it; then all nodes have written it. -/
theorem Finished.leads_activate_iff (hc : s.Finished pass c)
    {bindings : List StreamBinding} {c' : Compilation α} :
    Leads (s.activate frame) c bindings c' ↔
      (∀ n ∈ s.nodes, ∃ rows, n.behavior.staged c.features frame = .ok rows) ∧
        bindings = c.bindings ∧ c' = c.staging (s.nodes.flatMap (·.frameWrites frame c)) := by
  unfold Leads
  rcases hc.run_activate frame with ⟨hall, hrun⟩ | ⟨before, n, after, fault, hnodes, hfault, hrun⟩
  · have hok : (s.activate frame).run c = .ok _ _ := hrun
    rw [hok]
    constructor
    · intro hsame
      cases hsame
      exact ⟨hall, rfl, rfl⟩
    · rintro ⟨-, rfl, rfl⟩
      rfl
  · rw [hrun]
    constructor
    · intro hsame
      cases hsame
    · rintro ⟨hall, -⟩
      obtain ⟨rows, hrows⟩ := hall n (hnodes ▸ List.mem_append_right _ List.mem_cons_self)
      rw [hrows] at hfault
      cases hfault

/-- A frame is only refused for a property of a node. -/
theorem Finished.invalidProperty_of_activate (hc : s.Finished pass c) {fault : Fault}
    {c' : Compilation α} (h : (s.activate frame).run c = .error fault c') :
    ∃ node cause, fault = .invalidProperty node cause := by
  rcases hc.run_activate frame with ⟨-, hrun⟩ | ⟨_, n, _, cause, -, hfault, hrun⟩
  · have hok : (s.activate frame).run c = .ok _ _ := hrun
    rw [hok] at h
    cases h
  · rw [hrun] at h
    cases h
    exact n.behavior.checks_staged _ _ _ hfault

/-- The nodes that can stage a frame are those whose values pass their checks. -/
theorem Built.usable_iff (h : s.Built) (hc : s.Finished pass c) (frame : Frame α) :
    (∀ n ∈ s.nodes, n.behavior.Usable pass.uvAnimation) ↔
      ∀ n ∈ s.nodes, ∃ rows, n.behavior.staged c.features frame = .ok rows := by
  have hanimation : c.features.uvAnimation = pass.uvAnimation := by
    rw [hc.features, h.uvAnimation_featuresFor]
  rw [← hanimation]
  exact forall₂_congr fun n _ => Behavior.exists_staged_iff.symm

omit [Scalar α] in
theorem length_floats (rows : List (Vec4 α)) :
    (rows.flatMap Vec4.toList).length = 4 * rows.length := by
  induction rows with
  | nil => rfl
  | cons row rows ih =>
    rw [List.flatMap_cons, List.length_append, ih, List.length_cons]
    show 4 + 4 * rows.length = _
    omega

/-- **Activation**: behind the code of a compilation, after any frames, a frame is staged
exactly if the values of the nodes pass their checks, and refused for a property only. There
is a row of four values for every constant that was taken. The first one holds the constants
of the shared registers, and each other has one node that writes it. So what is staged
depends on the last frame only. -/
theorem Built.activate_spec (h : s.Built)
    (hvertex : Leads (s.vertexCode pass profile sourceNames targetNames) c p c₁)
    (huv : Leads (s.uvCodes calls) c₁ codes c₂)
    (hcalls : (∃ n ∈ s.nodes, n.behavior.raised.uvNode = true) → pass.uvAnimation = true →
      calls ≠ [])
    (hdone : Leads finish c₂ () c₃) (frames : List (Frame α)) (frame : Frame α) :
    ((∃ bindings c', Leads (s.activate frame) (s.activations frames c₃) bindings c') ↔
      ∀ n ∈ s.nodes, n.behavior.Usable pass.uvAnimation) ∧
    (∀ fault c', (s.activate frame).run (s.activations frames c₃) = .error fault c' →
      ∃ node cause, fault = .invalidProperty node cause) ∧
    ∀ bindings c', Leads (s.activate frame) (s.activations frames c₃) bindings c' →
      (c'.vertexRows.flatMap Vec4.toList).length =
        4 * (c₂.used.vertexConstants - pass.taken.vertexConstants) ∧
      c'.vertexRows[0]? = some ⟨Scalar.zero, Scalar.one, Scalar.two, Scalar.zero⟩ ∧
      (∀ row, 0 < row → row < c'.vertexRows.length → ∃ n ∈ s.nodes, ∃ value,
        n.Puts frame (s.activations frames c₃) row value ∧ c'.vertexRows[row]? = some value ∧
        ∀ m ∈ s.nodes, m.id ≠ n.id → m.Spares frame (s.activations frames c₃) row) ∧
      Leads (s.activate frame) c₃ bindings c' := by
  have hfinishable := h.finishable hvertex huv hcalls
  have hready := h.finished hfinishable hdone
  have hc := hready.activations frames
  have hframe := h.modest.activations_frame frames c₃
  have hused : c₃.used = c₂.used := by
    obtain ⟨fragmentRows, rfl⟩ := leads_finish hfinishable hdone
    rfl
  generalize s.activations frames c₃ = c₄ at *
  refine ⟨?_, fun fault c' => hc.invalidProperty_of_activate, ?_⟩
  · rw [h.usable_iff hc frame]
    constructor
    · rintro ⟨bindings, c', hleads⟩
      exact (hc.leads_activate_iff.mp hleads).1
    · intro hall
      exact ⟨_, _, hc.leads_activate_iff.mpr ⟨hall, rfl, rfl⟩⟩
  · intro bindings c' hleads
    have hlater : s.Finished pass c' := by
      have hactivated := hc.activated frame
      rwa [hleads.after_eq] at hactivated
    obtain ⟨hall, rfl, rfl⟩ := hc.leads_activate_iff.mp hleads
    have hlength := length_stageAll c₄.taken.vertexConstants
      (s.nodes.flatMap (·.frameWrites frame c₄)) c₄.vertexRows
    refine ⟨?_, hlater.helper, ?_, ?_⟩
    · rw [length_floats, hlater.length]
      show 4 * (c₄.used.vertexConstants - _) = _
      rw [hframe, ← hused]
    · intro row hpositive hrow
      obtain ⟨n, hn, value, hputs, hvalue, hspares⟩ :=
        hc.owner hall hpositive (hlength ▸ hrow)
      refine ⟨n, hn, value, hputs, ?_, hspares⟩
      rw [← hvalue c₄.vertexRows rfl, ← hc.taken]
      rfl
    · have hsame : c₃ = c₄.withRows c₃.vertexRows := by
        rw [hframe]
        rfl
      have hrows : c₃.vertexRows.length = c₄.vertexRows.length := by
        rw [hready.length, hc.length, hframe]
      have hstaged : ∀ n ∈ s.nodes, ∃ rows, n.behavior.staged c₃.features frame = .ok rows := by
        rw [hready.features, ← hc.features]
        exact hall
      refine hready.leads_activate_iff.mpr ⟨hstaged, ?_, ?_⟩
      · rw [hframe]
      · rw [hc.staging_eq hall hrows hready.helper, ← hsame]
        rw [hframe]
        rfl

end

/-- Particles that spin while their texture scrolls. -/
def spun : NodeSet Rat where
  settings := { features := { uvNode := true } }
  nodes :=
    [{ behavior := .time {}, id := 0 },
     { behavior := .rotationalVelocity (.global ⟨0, 1, 0, 2⟩), id := 1 },
     { behavior := .uv .u (.global ⟨4, 1⟩), id := 2 }]
  stride := 4

theorem built_spun : spun.Built :=
  .add (b := .uv .u (.global ⟨4, 1⟩))
    (.add (b := .rotationalVelocity (.global ⟨0, 1, 0, 2⟩)) (.empty {}) (by exact trivial) rfl)
    (by exact trivial) rfl

/-- A second frame is staged over a first one, as if there had been none. -/
theorem spun_activates : ∃ p c₁ codes c₂ c₃,
    Leads (spun.vertexCode { uvAnimation := true } .baseline ["va0"] ["vt0"])
      { profile := .standard } p c₁ ∧
    Leads (spun.uvCodes [("va1", "v0")]) c₁ codes c₂ ∧ Leads finish c₂ () c₃ ∧
    ∃ bindings c', Leads (spun.activate (Frame.at 1)) (spun.activations [Frame.at 0] c₃) bindings
      c' ∧ Leads (spun.activate (Frame.at 1)) c₃ bindings c' := by
  obtain ⟨u, c₃, hcode⟩ := exists_leads (x := (do
      let _ ← spun.vertexCode { uvAnimation := true } .baseline ["va0"] ["vt0"]
      let _ ← spun.uvCodes [("va1", "v0")]
      finish)) (s := { profile := .standard }) (by decide +kernel)
  obtain ⟨p, c₁, hvertex, hcode⟩ := leads_bind.mp hcode
  obtain ⟨codes, c₂, huv, hdone⟩ := leads_bind.mp hcode
  obtain ⟨hiff, -, hstaged⟩ := built_spun.activate_spec hvertex huv
    (fun _ _ => List.cons_ne_nil _ _) hdone [Frame.at 0] (Frame.at 1)
  obtain ⟨bindings, c', hleads⟩ := hiff.mpr fun n hn => by
    simp only [spun, List.mem_cons, List.not_mem_nil, or_false] at hn
    rcases hn with rfl | rfl | rfl
    · trivial
    · have hspin : (Behavior.spinValues (⟨0, 1, 0, 2⟩ : Vec4 Rat)).isOk = true := by
        decide +kernel
      cases hvalues : Behavior.spinValues (⟨0, 1, 0, 2⟩ : Vec4 Rat) with
      | ok values => exact ⟨values, hvalues⟩
      | error fault =>
        rw [hvalues] at hspin
        cases hspin
    · exact fun _ => ⟨_, rfl⟩
  exact ⟨p, c₁, codes, c₂, c₃, hvertex, huv, hdone, bindings, c', hleads,
    (hstaged bindings c' hleads).2.2.2⟩

end NodeSet

end ParticleShader
