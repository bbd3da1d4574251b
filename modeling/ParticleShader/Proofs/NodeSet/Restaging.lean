import ParticleShader.Proofs.Compilation.Public
import ParticleShader.Proofs.NodeSet.Activation

/-!
# Frames that are refused

A frame is staged node by node, so when a node refuses its values the nodes before it have
written theirs already. Which node of the catalogue refuses does not depend on the frame: the
values that are checked belong to the set (`staged_eq_error`). So a compilation of such nodes that
refuses one frame refuses all of them, always at the same node and for the same reason, and only
the nodes before that one have ever written anything. **`refused_spec`** draws the conclusion: a
refused frame has overwritten the rows of these nodes and nothing else, and what is staged then is
the same as if there had been no frame before. A node of the user may look at the frame before it
refuses it, and then the rows of two frames stand side by side (`faltering_refused`).
-/

namespace ParticleShader

variable {α : Type} [Scalar α]

open Compile Compilation Node

namespace Behavior

variable {b : Behavior α} {f : Features} {frame frame' : Frame α} {fault : Fault}

/-- Values that are refused for one frame are refused for every frame. -/
theorem staged_eq_error (h : b.staged f frame = .error fault) :
    b.staged f frame' = .error fault := by
  cases b
  case time | billboard | follow | custom => cases h
  case rotateToHeading =>
    simp only [staged] at h
    split at h <;> cases h
  case position | velocity | acceleration | scale | rotationalVelocity | uv | spriteSheet |
      color =>
    exact h

end Behavior

namespace NodeSet

variable {s : NodeSet α} {c c' c₁ c₂ c₃ : Compilation α} {pass : Pass} {profile : Profile}
  {sourceNames targetNames : List String} {p : Program} {calls : List (String × String)}
  {codes : List Program} {frame : Frame α} {fault : Fault} {before after nodes : List (Node α)}
  {n : Node α} {row : Nat}

/-! ### The node that refuses -/

/-- The first node of a set whose values are refused, whatever the frame. -/
structure RefusesAt (s : NodeSet α) (f : Features) (before : List (Node α)) (n : Node α)
    (after : List (Node α)) (fault : Fault) : Prop where
  /-- It stands between other nodes. -/
  nodes : s.nodes = before ++ n :: after
  /-- The nodes before it stage every frame. -/
  staged : ∀ m ∈ before, ∀ frame, ∃ rows, m.behavior.staged f frame = .ok rows
  /-- It stages none. -/
  refused : ∀ frame, n.behavior.staged f frame = .error fault

theorem exists_first_refused (f : Features) (frame : Frame α) (nodes : List (Node α)) :
    (∀ n ∈ nodes, ∃ rows, n.behavior.staged f frame = .ok rows) ∨
      ∃ before n after fault, nodes = before ++ n :: after ∧
        (∀ m ∈ before, ∃ rows, m.behavior.staged f frame = .ok rows) ∧
        n.behavior.staged f frame = .error fault := by
  induction nodes with
  | nil => exact .inl nofun
  | cons n nodes ih =>
    cases hstaged : n.behavior.staged f frame with
    | error fault => exact .inr ⟨[], n, nodes, fault, rfl, nofun, hstaged⟩
    | ok rows =>
      rcases ih with hall | ⟨before, m, after, fault, rfl, hbefore, hrefused⟩
      · exact .inl (List.forall_mem_cons.mpr ⟨⟨rows, hstaged⟩, hall⟩)
      · exact .inr ⟨n :: before, m, after, fault, rfl,
          List.forall_mem_cons.mpr ⟨⟨rows, hstaged⟩, hbefore⟩, hrefused⟩

/-- Behind the node that refuses a frame nothing is staged. -/
theorem RefusesAt.run_activate (hr : s.RefusesAt c.features before n after fault)
    (hc : s.Finished pass c) (frame : Frame α) :
    (s.activate frame).run c =
      .error fault (c.staging (before.flatMap (·.frameWrites frame c))) := by
  have hmem : ∀ m ∈ before ++ n :: after, m ∈ s.nodes := fun m hm => hr.nodes ▸ hm
  have hfront : Leads (before.forM (·.writeConstants frame)) c ()
      (c.staging (before.flatMap (·.frameWrites frame c))) := by
    have hbefore : ∀ m ∈ before, m ∈ s.nodes := fun m hm => hmem m (List.mem_append_left _ hm)
    rcases run_writeAll (fun m hm => hc.catalogue m (hbefore m hm)) hc.sized
      (fun m hm => hc.placed (hbefore m hm)) frame with
      ⟨-, hleads⟩ | ⟨front, m, rest, fault', rfl, hfault, -⟩
    · exact hleads
    · obtain ⟨rows, hrows⟩ :=
        hr.staged m (List.mem_append_right _ List.mem_cons_self) frame
      exact nomatch hrows.symm.trans hfault
  have hlater : s.Finished pass (c.staging (before.flatMap (·.frameWrites frame c))) :=
    hc.staging fun write => hc.lt_of_mem_flatMap fun m hm => hmem m (List.mem_append_left _ hm)
  have hn : n ∈ s.nodes := hmem n (List.mem_append_right _ List.mem_cons_self)
  have hself := Node.run_writeConstants (hc.catalogue n hn) hlater.sized (hlater.placed hn) frame
  have hfeatures : (c.staging (before.flatMap (·.frameWrites frame c))).features = c.features := rfl
  rw [hfeatures, hr.refused frame] at hself
  have hrefused : (n.writeConstants frame).run
      (c.staging (before.flatMap (·.frameWrites frame c))) = .error fault _ := hself
  have hwritten : (before.forM (·.writeConstants frame)).run c = .ok () _ := hfront
  rw [List.forM_eq_forM] at hwritten
  rw [hc.run_activate_eq, hr.nodes, List.forM_eq_forM, List.forM_append, List.forM_cons]
  simp only [EStateM.run_bind, hwritten, hrefused]

/-- A refused frame has a node that refuses every frame. -/
theorem Finished.exists_refusesAt (hc : s.Finished pass c)
    (h : (s.activate frame).run c = .error fault c') :
    ∃ before n after, s.RefusesAt c.features before n after fault ∧
      c' = c.staging (before.flatMap (·.frameWrites frame c)) := by
  rcases exists_first_refused c.features frame s.nodes with
    hall | ⟨before, n, after, cause, hnodes, hbefore, hrefused⟩
  · have hleads := hc.leads_activate_iff.mpr ⟨hall, rfl, rfl⟩
    exact nomatch h.symm.trans hleads
  · have hr : s.RefusesAt c.features before n after cause :=
      ⟨hnodes, fun m hm frame' => Behavior.exists_staged_iff.mpr
        (Behavior.exists_staged_iff.mp (hbefore m hm)), fun _ => Behavior.staged_eq_error hrefused⟩
    obtain ⟨rfl, rfl⟩ := EStateM.Result.error.inj (h.symm.trans (hr.run_activate hc frame))
    exact ⟨before, n, after, hr, rfl⟩

/-! ### The rows of the nodes before it -/

theorem Finished.rows_staging (hc : s.Finished pass c) (writes : List (Nat × Vec4 α)) :
    (c.staging writes).vertexRows =
      stageAll pass.taken.vertexConstants writes c.vertexRows := by
  rw [← hc.taken]
  rfl

/-- The constants that some nodes have taken. -/
def constantsOf (nodes : List (Node α)) (c : Compilation α) : List Nat :=
  (nodes.flatMap (Node.needs c.features)).flatMap c.ledger.constantsOf

theorem map_fst_flatMap_frameWrites
    (hstaged : ∀ n ∈ nodes, ∃ rows, n.behavior.staged c.features frame = .ok rows) :
    (nodes.flatMap (·.frameWrites frame c)).map Prod.fst = constantsOf nodes c := by
  unfold constantsOf
  rw [List.map_flatMap, List.flatMap_assoc]
  refine List.flatMap_congr fun n hn => ?_
  obtain ⟨rows, hrows⟩ := hstaged n hn
  exact Node.map_fst_frameWrites hrows

theorem Finished.perm_constantsOf (hc : s.Finished pass c) :
    (constantsOf s.nodes c).Perm (List.range' (pass.taken.vertexConstants + 1)
      (c.used.vertexConstants - (pass.taken.vertexConstants + 1))) := by
  unfold constantsOf
  rw [hc.features]
  exact hc.constants

theorem constantsOf_append (nodes nodes' : List (Node α)) (c : Compilation α) :
    constantsOf (nodes ++ nodes') c = constantsOf nodes c ++ constantsOf nodes' c := by
  simp [constantsOf]

/-- No constant is taken twice. -/
theorem Finished.nodup_constantsOf (hc : s.Finished pass c) (hnodes : s.nodes = before ++ after) :
    (constantsOf before c).Nodup := by
  have hall := hc.perm_constantsOf.nodup_iff.mpr List.nodup_range'
  rw [hnodes, constantsOf_append] at hall
  exact (List.nodup_append.mp hall).1

/-- There is a row for each of them. -/
theorem Finished.lt_of_mem_constantsOf (hc : s.Finished pass c) (hnodes : s.nodes = before ++ after)
    (hrow : pass.taken.vertexConstants + row ∈ constantsOf before c) :
    row < c.vertexRows.length := by
  have hmem : pass.taken.vertexConstants + row ∈ constantsOf s.nodes c := by
    rw [hnodes, constantsOf_append]
    exact List.mem_append_left _ hrow
  have hrange := List.mem_range'_1.mp (hc.perm_constantsOf.mem_iff.mp hmem)
  have hlt := hc.taken_lt
  rw [hc.length]
  omega

/-- A row of the nodes before the one that refuses holds what its own node writes, whatever
was staged. -/
theorem RefusesAt.exists_puts (hr : s.RefusesAt c.features before n after fault)
    (hc : s.Finished pass c) (frame : Frame α)
    (hrow : pass.taken.vertexConstants + row ∈ constantsOf before c) :
    ∃ m ∈ before, ∃ value, m.Puts frame c row value ∧
      ∀ rows, rows.length = c.vertexRows.length →
        (stageAll pass.taken.vertexConstants (before.flatMap (·.frameWrites frame c)) rows)[row]? =
          some value := by
  have hfst := map_fst_flatMap_frameWrites fun m hm => hr.staged m hm frame
  have hnodup := hfst ▸ hc.nodup_constantsOf hr.nodes
  have hmem : ∀ m ∈ before, m ∈ s.nodes := fun m hm => hr.nodes ▸ List.mem_append_left _ hm
  have hlt := hc.lt_of_mem_constantsOf hr.nodes hrow
  rw [← hfst] at hrow
  obtain ⟨⟨index, value⟩, hwrite, hindex⟩ := List.mem_map.mp hrow
  obtain rfl : index = pass.taken.vertexConstants + row := hindex
  obtain ⟨m, hm, hown⟩ := List.mem_flatMap.mp hwrite
  have hparts := hnodup
  rw [List.map_flatMap, List.nodup_flatMap] at hparts
  refine ⟨m, hm, value, hc.puts (hmem m hm) (hr.staged m hm frame) (hparts.1 m hm) hown hlt, ?_⟩
  intro rows hrows
  refine stageAll_of_mem (fun write hmem' => ?_) hnodup hwrite (hrows ▸ hlt)
  exact (hc.lt_of_mem_flatMap hmem hmem').le

/-- The other rows are left alone, by each of these nodes and by all of them. -/
theorem RefusesAt.spares (hr : s.RefusesAt c.features before n after fault)
    (hc : s.Finished pass c) (frame : Frame α)
    (hrow : pass.taken.vertexConstants + row ∉ constantsOf before c) :
    (∀ m ∈ before, m.Spares frame c row) ∧ ∀ rows,
      (stageAll pass.taken.vertexConstants (before.flatMap (·.frameWrites frame c)) rows)[row]? =
        rows[row]? := by
  have hfst := map_fst_flatMap_frameWrites fun m hm => hr.staged m hm frame
  have hmem : ∀ m ∈ before, m ∈ s.nodes := fun m hm => hr.nodes ▸ List.mem_append_left _ hm
  rw [← hfst] at hrow
  refine ⟨fun m hm => hc.spares (hmem m hm) fun hown => hrow ?_, fun rows => ?_⟩
  · rw [List.map_flatMap]
    exact List.mem_flatMap_of_mem hm hown
  · exact stageAll_of_notMem (fun write hwrite => (hc.lt_of_mem_flatMap hmem hwrite).le) hrow rows

/-- **Histories**: frames that are refused have only ever written these rows. -/
theorem RefusesAt.rows_activations (hr : s.RefusesAt c.features before n after fault)
    (hc : s.Finished pass c) (frames : List (Frame α))
    (hrow : pass.taken.vertexConstants + row ∉ constantsOf before c) :
    (s.activations frames c).vertexRows[row]? = c.vertexRows[row]? := by
  unfold activations
  induction frames generalizing c with
  | nil => rfl
  | cons frame frames ih =>
    have hnext : c.after (s.activate frame) =
        c.staging (before.flatMap (·.frameWrites frame c)) := by
      unfold Compilation.after
      rw [hr.run_activate hc frame]
    have hlater := hc.activated frame
    rw [hnext] at hlater
    have hsame : s.RefusesAt
        (c.staging (before.flatMap (·.frameWrites frame c))).features before n after fault := hr
    rw [List.foldl_cons, hnext, ih hsame hlater hrow, hc.rows_staging]
    exact (hr.spares hc frame hrow).2 c.vertexRows

/-- What a refused frame leaves does not depend on the frames before it. -/
theorem RefusesAt.staging_activations (hr : s.RefusesAt c.features before n after fault)
    (hc : s.Finished pass c) (frames : List (Frame α)) (frame : Frame α) :
    (s.activations frames c).staging
        (before.flatMap (·.frameWrites frame (s.activations frames c))) =
      c.staging (before.flatMap (·.frameWrites frame c)) := by
  have hlater := hc.activations frames
  have hspared : ∀ row, pass.taken.vertexConstants + row ∉ constantsOf before c →
      (s.activations frames c).vertexRows[row]? = c.vertexRows[row]? :=
    fun _ hrow => hr.rows_activations hc frames hrow
  obtain ⟨rows, hrows⟩ : ∃ rows, s.activations frames c = c.withRows rows :=
    ⟨_, NodeSet.Modest.activations_frame hc.modest frames c⟩
  rw [hrows] at hlater hspared ⊢
  have hlength : rows.length = c.vertexRows.length := hlater.length.trans hc.length.symm
  have hstaged : stageAll pass.taken.vertexConstants (before.flatMap (·.frameWrites frame c)) rows =
      stageAll pass.taken.vertexConstants (before.flatMap (·.frameWrites frame c))
        c.vertexRows := by
    refine List.ext_getElem? fun row => ?_
    by_cases hrow : pass.taken.vertexConstants + row ∈ constantsOf before c
    · obtain ⟨-, -, value, -, hvalue⟩ := hr.exists_puts hc frame hrow
      rw [hvalue rows hlength, hvalue c.vertexRows rfl]
    · have hkept := (hr.spares hc frame hrow).2
      rw [hkept, hkept]
      exact hspared row hrow
  rw [← hc.taken] at hstaged
  exact congrArg c.withRows hstaged

/-! ### Refused frames -/

/-- **A refused frame**: one node refuses all frames, whatever was staged before, with the
fault that is reported, and it writes nothing. The frame has changed nothing but rows of the
nodes before it, each of which now holds what its node writes for this frame; the other rows are
still those that the code was finished with. So what is staged is the same as if there had been
no frame before. -/
theorem Built.refused_spec (h : s.Built)
    (hvertex : Leads (s.vertexCode pass profile sourceNames targetNames) c p c₁)
    (huv : Leads (s.uvCodes calls) c₁ codes c₂)
    (hcalls : (∃ n ∈ s.nodes, n.behavior.raised.uvNode = true) → pass.uvAnimation = true →
      calls ≠ [])
    (hdone : Leads finish c₂ () c₃) (frames : List (Frame α)) (frame : Frame α)
    (hrefused : (s.activate frame).run (s.activations frames c₃) = .error fault c') :
    c' = (s.activations frames c₃).withRows c'.vertexRows ∧
    (∃ before n after, s.nodes = before ++ n :: after ∧
      (∀ m ∈ before, m.behavior.Usable pass.uvAnimation) ∧
      (∀ frame', (n.writeConstants frame').run c₃ = .error fault c₃) ∧
      ∀ row, (∃ m ∈ before, ∃ value, m.Puts frame c₃ row value ∧
          c'.vertexRows[row]? = some value) ∨
        (∀ m ∈ before, m.Spares frame c₃ row) ∧
          c'.vertexRows[row]? = (s.activations frames c₃).vertexRows[row]? ∧
          c'.vertexRows[row]? = c₃.vertexRows[row]?) ∧
    (∀ frames' frame', ∃ c'',
      (s.activate frame').run (s.activations frames' c₃) = .error fault c'') ∧
    (s.activate frame).run c₃ = .error fault c' := by
  have hready := h.finished (h.finishable hvertex huv hcalls) hdone
  have hc := hready.activations frames
  obtain ⟨before, n, after, hr, rfl⟩ := hc.exists_refusesAt hrefused
  rw [hc.features, ← hready.features] at hr
  rw [hr.staging_activations hready] at hrefused ⊢
  refine ⟨?_, ⟨before, n, after, hr.nodes, fun m hm => ?_, fun frame' => ?_, fun row => ?_⟩,
    fun frames' frame' => ?_, hr.run_activate hready frame⟩
  · rw [h.modest.activations_frame frames c₃]
    rfl
  · have husable := Behavior.exists_staged_iff.mp (hr.staged m hm frame)
    rwa [hready.features, h.uvAnimation_featuresFor] at husable
  · have hn : n ∈ s.nodes := hr.nodes ▸ List.mem_append_right _ List.mem_cons_self
    have hself := Node.run_writeConstants (h.isCatalogue n hn) hready.sized (hready.placed hn) frame'
    rw [hr.refused frame'] at hself
    exact hself
  · rw [hready.rows_staging]
    by_cases hown : pass.taken.vertexConstants + row ∈ constantsOf before c₃
    · obtain ⟨m, hm, value, hputs, hvalue⟩ := hr.exists_puts hready frame hown
      exact .inl ⟨m, hm, value, hputs, hvalue c₃.vertexRows rfl⟩
    · obtain ⟨hspares, hkept⟩ := hr.spares hready frame hown
      rw [hkept, hr.rows_activations hready frames hown]
      exact .inr ⟨hspares, rfl, rfl⟩
  · have hlater := hready.activations frames'
    rw [hready.features, ← hlater.features] at hr
    exact ⟨_, hr.run_activate hlater frame'⟩

/-- Particles that are to spin around no axis. -/
def stuck : NodeSet Rat where
  nodes :=
    [{ behavior := .time {}, id := 0 },
     { behavior := .rotationalVelocity (.global ⟨0, 0, 0, 1⟩), id := 1 }]
  stride := 4

theorem built_stuck : stuck.Built :=
  .add (b := .rotationalVelocity (.global ⟨0, 0, 0, 1⟩)) (.empty {}) (by exact trivial) rfl

theorem stuck_refused : ∃ p c₁ codes c₂ c₃ fault c',
    Leads (stuck.vertexCode {} .baseline ["va0"] ["vt0"]) { profile := .standard } p c₁ ∧
    Leads (stuck.uvCodes [("va1", "v0")]) c₁ codes c₂ ∧ Leads finish c₂ () c₃ ∧
    (stuck.activate (Frame.at 1)).run c₃ = .error fault c' ∧ c'.vertexRows ≠ c₃.vertexRows := by
  have hcode : succeeds (do
      let _ ← stuck.vertexCode {} .baseline ["va0"] ["vt0"]
      let _ ← stuck.uvCodes [("va1", "v0")]
      finish
      let c₃ ← get
      let answer ← attempt (stuck.activate (Frame.at 1))
      let c' ← get
      if answer.isOk = false ∧ c'.vertexRows ≠ c₃.vertexRows then return () else
        throw .notCompiled) { profile := .standard } = true := by decide +kernel
  obtain ⟨_, _, hcode⟩ := exists_leads hcode
  obtain ⟨p, c₁, hvertex, hcode⟩ := leads_bind.mp hcode
  obtain ⟨codes, c₂, huv, hcode⟩ := leads_bind.mp hcode
  obtain ⟨_, c₃, hdone, hcode⟩ := leads_bind.mp hcode
  rw [leads_get_bind] at hcode
  obtain ⟨answer, c', hanswer, hcode⟩ := leads_bind.mp hcode
  rw [leads_get_bind] at hcode
  obtain ⟨hrefused, hrows⟩ := holds_of_leads hcode
  rcases leads_attempt.mp hanswer with ⟨_, rfl, -⟩ | ⟨fault, rfl, hrun⟩
  · cases hrefused
  · exact ⟨p, c₁, codes, c₂, c₃, fault, c', hvertex, huv, hdone, hrun, hrows⟩

/-- A second frame is refused as the first one was, and leaves what it would have left as the
first one. -/
theorem stuck_refuses : ∃ p c₁ codes c₂ c₃ fault c',
    Leads (stuck.vertexCode {} .baseline ["va0"] ["vt0"]) { profile := .standard } p c₁ ∧
    Leads (stuck.uvCodes [("va1", "v0")]) c₁ codes c₂ ∧ Leads finish c₂ () c₃ ∧
    (stuck.activate (Frame.at 1)).run (stuck.activations [Frame.at 0] c₃) = .error fault c' ∧
    (stuck.activate (Frame.at 1)).run c₃ = .error fault c' := by
  obtain ⟨p, c₁, codes, c₂, c₃, fault, c', hvertex, huv, hdone, hfirst, -⟩ := stuck_refused
  obtain ⟨-, -, hagain, -⟩ := built_stuck.refused_spec hvertex huv
    (fun _ _ => List.cons_ne_nil _ _) hdone [] (Frame.at 1) hfirst
  obtain ⟨c'', hsecond⟩ := hagain [Frame.at 0] (Frame.at 1)
  obtain ⟨-, -, -, hsame⟩ := built_stuck.refused_spec hvertex huv
    (fun _ _ => List.cons_ne_nil _ _) hdone [Frame.at 0] (Frame.at 1) hsecond
  exact ⟨p, c₁, codes, c₂, c₃, fault, c'', hvertex, huv, hdone, hsecond, hsame⟩

/-- A node of the user that refuses the frame of one second. -/
def falteringNode : Behavior Rat :=
  .custom
    { name := "faltering", mode := .global, length := 0, priority := 1
      accept := fun _ => .ok {}, vertexCode := fun _ => pure []
      writeConstants := fun _ frame => if frame.time = 1 then throw .notCompiled else pure () }

/-- Particles that face the camera behind such a node. -/
def faltering : NodeSet Rat where
  settings := { features := { billboard := true } }
  nodes :=
    [{ behavior := .time {}, id := 0 }, { behavior := falteringNode, id := 1 },
     { behavior := .billboard none, id := 2 }]
  stride := 4

theorem grown_faltering : faltering.Grown :=
  .add (b := .billboard none) (.add (b := falteringNode) (.empty {}) rfl) rfl

/-- The frame of one second, seen from another side. -/
def turned : Frame Rat := ⟨1, ⟨Vec3.unitY, Vec3.unitZ, ⟨1, 0, 0⟩⟩⟩

/-- The time is that of the frame that is refused, the camera is that of the frame before. -/
theorem faltering_refused : ∃ p c₁ codes c₂ c₃ bindings c₄ fault c',
    Leads (faltering.vertexCode {} .baseline ["va0"] ["vt0"]) { profile := .standard } p c₁ ∧
    Leads (faltering.uvCodes [("va1", "v0")]) c₁ codes c₂ ∧ Leads finish c₂ () c₃ ∧
    Leads (faltering.activate (Frame.at 0)) c₃ bindings c₄ ∧
    c₄.vertexRows =
      [helperRow, ⟨0, 0, 0, 0⟩, ⟨1, 0, 0, 0⟩, ⟨0, 1, 0, 0⟩, ⟨0, 0, 1, 0⟩] ∧
    (faltering.activate turned).run c₄ = .error fault c' ∧
    c'.vertexRows =
      [helperRow, ⟨1, 1, 1, 1⟩, ⟨1, 0, 0, 0⟩, ⟨0, 1, 0, 0⟩, ⟨0, 0, 1, 0⟩] := by
  have hcode : succeeds (do
      let _ ← faltering.vertexCode {} .baseline ["va0"] ["vt0"]
      let _ ← faltering.uvCodes [("va1", "v0")]
      finish
      let _ ← faltering.activate (Frame.at 0)
      let c₄ ← get
      let answer ← attempt (faltering.activate turned)
      let c' ← get
      if answer.isOk = false ∧
          c₄.vertexRows =
            [helperRow, ⟨0, 0, 0, 0⟩, ⟨1, 0, 0, 0⟩, ⟨0, 1, 0, 0⟩, ⟨0, 0, 1, 0⟩] ∧
          c'.vertexRows =
            [helperRow, ⟨1, 1, 1, 1⟩, ⟨1, 0, 0, 0⟩, ⟨0, 1, 0, 0⟩, ⟨0, 0, 1, 0⟩] then
        return () else throw .notCompiled) { profile := .standard } = true := by decide +kernel
  obtain ⟨_, _, hcode⟩ := exists_leads hcode
  obtain ⟨p, c₁, hvertex, hcode⟩ := leads_bind.mp hcode
  obtain ⟨codes, c₂, huv, hcode⟩ := leads_bind.mp hcode
  obtain ⟨_, c₃, hdone, hcode⟩ := leads_bind.mp hcode
  obtain ⟨bindings, c₄, hfirst, hcode⟩ := leads_bind.mp hcode
  rw [leads_get_bind] at hcode
  obtain ⟨answer, c', hanswer, hcode⟩ := leads_bind.mp hcode
  rw [leads_get_bind] at hcode
  obtain ⟨hrefused, hrows, hrows'⟩ := holds_of_leads hcode
  rcases leads_attempt.mp hanswer with ⟨_, rfl, -⟩ | ⟨fault, rfl, hrun⟩
  · cases hrefused
  · exact ⟨p, c₁, codes, c₂, c₃, bindings, c₄, fault, c', hvertex, huv, hdone, hfirst, hrows, hrun,
      hrows'⟩

/-- A refused frame may change what is staged: the time is written before the spin is refused. And
a node of the user may refuse one frame behind another one that it has not refused: the rows of
the two are mixed then. -/
theorem refused_overwrites :
    (stuck.Built ∧ ∃ p c₁ codes c₂ c₃ fault c',
      Leads (stuck.vertexCode {} .baseline ["va0"] ["vt0"]) { profile := .standard } p c₁ ∧
      Leads (stuck.uvCodes [("va1", "v0")]) c₁ codes c₂ ∧ Leads finish c₂ () c₃ ∧
      (stuck.activate (Frame.at 1)).run c₃ = .error fault c' ∧ c'.vertexRows ≠ c₃.vertexRows) ∧
    faltering.Grown ∧ ∃ p c₁ codes c₂ c₃ bindings c₄ fault c',
      Leads (faltering.vertexCode {} .baseline ["va0"] ["vt0"]) { profile := .standard } p c₁ ∧
      Leads (faltering.uvCodes [("va1", "v0")]) c₁ codes c₂ ∧ Leads finish c₂ () c₃ ∧
      Leads (faltering.activate (Frame.at 0)) c₃ bindings c₄ ∧
      c₄.vertexRows =
        [helperRow, ⟨0, 0, 0, 0⟩, ⟨1, 0, 0, 0⟩, ⟨0, 1, 0, 0⟩, ⟨0, 0, 1, 0⟩] ∧
      (faltering.activate turned).run c₄ = .error fault c' ∧
      c'.vertexRows =
        [helperRow, ⟨1, 1, 1, 1⟩, ⟨1, 0, 0, 0⟩, ⟨0, 1, 0, 0⟩, ⟨0, 0, 1, 0⟩] :=
  ⟨⟨built_stuck, stuck_refused⟩, grown_faltering, faltering_refused⟩

end NodeSet

end ParticleShader
