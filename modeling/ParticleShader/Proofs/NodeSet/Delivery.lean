import ParticleShader.Proofs.Compilation.Independence
import ParticleShader.Proofs.Node.Forms
import ParticleShader.Proofs.NodeSet.Transfer

/-!
# Two ways to deliver a value

A value for all particles is checked and staged as rows of constants before a frame is drawn. A
value for one particle is checked and written into its record when the records are generated.
Both follow the same formulas, and a window onto the record shows what the row of the constant
holds. With the twins among the programs this says that the two forms of a node agree:
**`Node.forms_spec`**.
-/

namespace ParticleShader

variable {α : Type}

/-! ### What is taken -/

/-- The need of a stream that reads a window. -/
def Window.need (w : Window) : Need := .stream w.slot w.start w.components

namespace Ledger

variable {l : Ledger} {n : Node α}

/-- Constants that are taken one by one lie one behind the other. -/
theorem lookup_takeAll_constants {slots : List Nat} (hnodup : slots.Nodup) {i slot : Nat}
    (hi : slots[i]? = some slot) :
    (l.takeAll (slots.map fun slot => (n, Need.constants slot 1))).indices.lookup (n.id, slot) =
      some (l.constants + i) := by
  induction slots generalizing l i with
  | nil => cases hi
  | cons first slots ih =>
    rw [List.nodup_cons] at hnodup
    rw [List.map_cons, takeAll_cons]
    cases i with
    | zero =>
      cases hi
      refine (lookup_takeAll_of_notMem fun hmem => hnodup.1 ?_).trans (lookup_take_self l n slot 1)
      simpa [Need.key, Need.slot] using hmem
    | succ i =>
      rw [ih hnodup.2 hi]
      show some (l.constants + 1 + i) = _
      rw [Nat.add_right_comm, Nat.add_assoc]

/-- Streams that are taken one by one have attributes one behind the other. -/
theorem exists_binding_takeAll_windows {windows : List Window} {i : Nat} {w : Window}
    (hi : windows[i]? = some w) :
    ∃ b ∈ (l.takeAll (windows.map fun w => (n, w.need))).bindings,
      b.register = l.attributes + i ∧ Enters n b w.need := by
  induction windows generalizing l i with
  | nil => cases hi
  | cons first windows ih =>
    rw [List.map_cons, takeAll_cons]
    cases i with
    | zero =>
      cases hi
      exact ⟨_, bindings_subset_takeAll _ _ (List.mem_append_right _ (List.mem_singleton_self _)),
        rfl, rfl, rfl, rfl, rfl⟩
    | succ i =>
      obtain ⟨b, hb, hregister, henters⟩ := ih hi
      refine ⟨b, hb, ?_, henters⟩
      rw [hregister]
      show l.attributes + 1 + i = _
      rw [Nat.add_right_comm, Nat.add_assoc]

theorem attributes_takeAll_constants {slots : List Nat} :
    (l.takeAll (slots.map fun slot => (n, Need.constants slot 1))).attributes = l.attributes := by
  induction slots generalizing l with
  | nil => rfl
  | cons slot slots ih => exact ih

end Ledger

namespace Behavior

open Compilation

variable [Scalar α] {p : Particle α} {b b' : Behavior α} {f : Features}

theorem Forms.isCatalogue (h : Forms p b b') : b.IsCatalogue ∧ b'.IsCatalogue := by
  cases h <;> exact ⟨trivial, trivial⟩

/-- The other form keeps its values in the buffer that is filled once. -/
theorem Forms.mode (h : Forms p b b') : b'.mode = .perParticle .baked := by
  cases h <;> rfl

/-- **What both forms take**: the same constants in the beginning, and then a constant of the one
for every window of the other. -/
theorem Forms.needs (h : Forms p b b') (hwritten : b.IsWritten f true) :
    ∃ slots : List Nat, slots.length = b.common ∧
      b.needs f = (slots ++ b'.windows.map Window.slot).map (Need.constants · 1) ∧
      b'.needs f = slots.map (Need.constants · 1) ++ b'.windows.map Window.need := by
  cases h with
  | position | velocity | acceleration | scale | rotationalVelocity => exact ⟨[], rfl, rfl, rfl⟩
  | uv axis =>
    have hanimation : f.uvAnimation = true := hwritten.1
    refine ⟨[], rfl, ?_, ?_⟩ <;>
      simp only [Behavior.needs, vertexNeeds, uvNeeds, hanimation] <;> rfl
  | color usesMultiplier usesOffset cycle =>
    have hanimation : f.fragmentAnimation = true := hwritten
    refine ⟨cycle.toList.map fun _ => Slot.cycle, by cases cycle <;> rfl, ?_, ?_⟩ <;>
      simp only [Behavior.needs, vertexNeeds, uvNeeds, hanimation] <;>
      cases cycle <;> cases usesMultiplier <;> cases usesOffset <;> rfl

/-! ### What is delivered -/

end Behavior

/-- A component of a row. -/
def Vec4.get (v : Vec4 α) : Register.Component → α
  | .x => v.x
  | .y => v.y
  | .z => v.z
  | .w => v.w

/-- A window onto values among which the beginning of a row was written shows that row. -/
theorem component?_row (before behind : List α) (row : Vec4 α) {n : Nat}
    {k : Register.Component} (hk : k.number < n) :
    component? (before ++ row.toList.take n ++ behind) before.length n k = some (row.get k) := by
  have hlt : k.number < (row.toList.take n).length := by
    rw [List.length_take]
    have : row.toList.length = 4 := rfl
    have : k.number < 4 := by cases k <;> decide
    omega
  unfold component?
  rw [if_pos hk, List.append_assoc, List.getElem?_append_right (Nat.le_add_right _ _),
    Nat.add_sub_cancel_left, List.getElem?_append_left hlt, List.getElem?_take, if_pos hk]
  cases k <;> rfl

namespace Behavior

open Compilation

variable [Scalar α] {p : Particle α} {b b' : Behavior α} {f : Features} {frame : Frame α}

/-- **The same checks**: a value is refused for all particles exactly if it is refused for one, and
with the same fault; that of a scroll is only looked at where textures are animated. -/
theorem Forms.checks (h : Forms p b b')
    (huv : ∀ axis value, b = .uv axis value → f.uvAnimation = true) :
    (b.staged f frame).map (fun _ => ()) = (b'.values p).map fun _ => () := by
  cases h with
  | position hp | velocity hp | acceleration hp =>
    simp only [values, hp, required]
    rfl
  | scale curve hp =>
    rename_i v
    simp only [values, hp, required, staged, globalRows]
    show (scaleValues curve v >>= _).map _ = (scaleValues curve v >>= _).map _
    cases scaleValues curve v <;> rfl
  | rotationalVelocity hp =>
    rename_i v
    simp only [values, hp, required, staged, globalRows]
    show (spinValues v >>= _).map _ = (spinValues v >>= _).map _
    cases spinValues v <;> rfl
  | uv axis hp =>
    rename_i v _
    simp only [values, hp, required, staged, globalRows, scrollRow, huv axis _ rfl, if_true]
    show ((uvValues v >>= _) >>= _).map _ = (uvValues v >>= _).map _
    cases uvValues v <;> rfl
  | color usesMultiplier usesOffset cycle hfirst hlast =>
    simp only [values, hfirst, hlast, required, staged]
    cases f.fragmentAnimation <;> rfl

/-- Every window onto the values shows a row. -/
def RowsShown (windows : List Window) (rows : Rows α) (values : List α) : Prop :=
  ∀ w ∈ windows, ∃ row, (w.slot, [row]) ∈ rows ∧ ∀ k : Register.Component,
    k.number < w.components → component? values w.start w.components k = some (row.get k)

omit [Scalar α] in
/-- The one row of a parameter is shown by its window onto the beginning of the row. -/
theorem rowsShown_singleton (row : Vec4 α) (n : Nat) :
    RowsShown [⟨Slot.value, 0, n⟩] [(Slot.value, [row])] (row.toList.take n) := by
  refine List.forall_mem_singleton.mpr ⟨row, List.mem_singleton_self _, fun k hk => ?_⟩
  have hshown := component?_row [] [] row hk
  rwa [List.append_nil] at hshown

/-- The rows of the parts of a color are shown by its windows. -/
theorem rowsShown_color (usesMultiplier usesOffset : Bool) (cycle : Option (Cycle α))
    (first last : ColorTransform α) (colors : Parameter (ColorTransform α × ColorTransform α)) :
    RowsShown (color ⟨usesMultiplier, usesOffset, cycle, colors⟩).windows
      (colorRows ⟨usesMultiplier, usesOffset, cycle, .global (first, last)⟩)
      ((colorParts ⟨usesMultiplier, usesOffset, cycle, colors⟩ first last).flatMap
        fun (start, delta) => start.toList ++ delta.toList) := by
  let m := blend cycle first.multiplier last.multiplier
  let o := blend cycle first.offset last.offset
  have hrow : ∀ {row : Vec4 α} {slot : Nat}, (slot, [row]) ∈
      partRows usesMultiplier Slot.startMultiplier Slot.deltaMultiplier m ++
        partRows usesOffset Slot.startOffset Slot.deltaOffset o →
      (slot, [row]) ∈ colorRows ⟨usesMultiplier, usesOffset, cycle, .global (first, last)⟩ :=
    fun hmem => List.mem_append_right _ hmem
  cases usesMultiplier <;> cases usesOffset
  · exact nofun
  · exact List.forall_mem_cons.mpr
      ⟨⟨o.1, hrow (.head _), fun _ => component?_row [] o.2.toList o.1⟩,
        List.forall_mem_singleton.mpr
          ⟨o.2, hrow (.tail _ (.head _)), fun _ => component?_row o.1.toList [] o.2⟩⟩
  · exact List.forall_mem_cons.mpr
      ⟨⟨m.1, hrow (.head _), fun _ => component?_row [] m.2.toList m.1⟩,
        List.forall_mem_singleton.mpr
          ⟨m.2, hrow (.tail _ (.head _)), fun _ => component?_row m.1.toList [] m.2⟩⟩
  · exact List.forall_mem_cons.mpr
      ⟨⟨m.1, hrow (.head _),
          fun _ => component?_row [] (m.2.toList ++ (o.1.toList ++ o.2.toList)) m.1⟩,
        List.forall_mem_cons.mpr
          ⟨⟨m.2, hrow (.tail _ (.head _)),
              fun _ => component?_row m.1.toList (o.1.toList ++ o.2.toList) m.2⟩,
            List.forall_mem_cons.mpr
              ⟨⟨o.1, hrow (.tail _ (.tail _ (.head _))),
                  fun _ => component?_row (m.1.toList ++ m.2.toList) o.2.toList o.1⟩,
                List.forall_mem_singleton.mpr
                  ⟨o.2, hrow (.tail _ (.tail _ (.tail _ (.head _)))),
                    fun _ => component?_row (m.1.toList ++ m.2.toList ++ o.1.toList) [] o.2⟩⟩⟩⟩

/-- **The same values**: the row that is staged for a parameter holds what the window of the
parameter shows. -/
theorem Forms.rowsShown (h : Forms p b b') (hwritten : b.IsWritten f true) {rows : Rows α}
    {vs : List α} (hrows : b.staged f frame = .ok rows) (hvalues : b'.values p = .ok vs) :
    RowsShown b'.windows rows vs := by
  cases h with
  | position hp | velocity hp | acceleration hp =>
    simp only [values, hp, required] at hvalues
    cases hrows
    cases hvalues
    exact rowsShown_singleton _ _
  | scale curve hp =>
    rename_i v
    simp only [values, hp, required] at hvalues
    obtain ⟨row, hrow, hrows⟩ := Outcome.bind_eq_ok.mp hrows
    obtain ⟨_, hv, hvalues⟩ := Outcome.bind_eq_ok.mp hvalues
    cases hv
    obtain ⟨row', hrow', hvalues⟩ := Outcome.bind_eq_ok.mp hvalues
    cases hrow.symm.trans hrow'
    cases hrows
    cases hvalues
    exact rowsShown_singleton _ _
  | rotationalVelocity hp =>
    simp only [values, hp, required] at hvalues
    obtain ⟨row, hrow, hrows⟩ := Outcome.bind_eq_ok.mp hrows
    obtain ⟨_, hv, hvalues⟩ := Outcome.bind_eq_ok.mp hvalues
    cases hv
    obtain ⟨row', hrow', hvalues⟩ := Outcome.bind_eq_ok.mp hvalues
    cases hrow.symm.trans hrow'
    cases hrows
    cases hvalues
    exact rowsShown_singleton _ _
  | uv axis hp =>
    have hanimation : f.uvAnimation = true := hwritten.1
    simp only [values, hp, required] at hvalues
    simp only [staged, hanimation, if_true, globalRows, scrollRow] at hrows
    obtain ⟨row, hrow, hrows⟩ := Outcome.bind_eq_ok.mp hrows
    obtain ⟨scroll, hscroll, hrow⟩ := Outcome.bind_eq_ok.mp hrow
    obtain ⟨_, hv, hvalues⟩ := Outcome.bind_eq_ok.mp hvalues
    cases hv
    obtain ⟨scroll', hscroll', hvalues⟩ := Outcome.bind_eq_ok.mp hvalues
    cases hscroll.symm.trans hscroll'
    cases hrow
    cases hrows
    cases hvalues
    exact rowsShown_singleton _ _
  | color usesMultiplier usesOffset cycle hfirst hlast =>
    have hanimation : f.fragmentAnimation = true := hwritten
    simp only [values, hfirst, hlast, required] at hvalues
    simp only [staged, hanimation, if_true] at hrows
    cases hrows
    cases hvalues
    exact rowsShown_color _ _ _ _ _ _

end Behavior

/-! ### A node in both forms -/

/-- The row that stages a constant. -/
def Compilation.row? (c : Compilation α) (index : Nat) : Option (Vec4 α) :=
  c.vertexRows[index - c.taken.vertexConstants]?

/-- A state of the same compilation, later on, in which the constants that a node has taken can be
staged. -/
structure Compilation.Prepares (c d : Compilation α) (node : NodeId) : Prop where
  /-- The same features are on. -/
  features : d.features = c.features
  /-- The registers of the material are the same. -/
  taken : d.taken = c.taken
  /-- The parameters of the node are where they were. -/
  index (slot : Nat) : d.index? node slot = c.index? node slot
  /-- There is a row for every constant that was taken. -/
  rows : c.used.vertexConstants ≤ d.taken.vertexConstants + d.vertexRows.length
  /-- The rows are those of registers of the profile. -/
  sized : d.Sized

namespace Node

open Behavior Compile Compilation Program

variable [Scalar α] {p : Particle α} {g l n : Node α} {c c₁ c₂ d : Compilation α} {q : Program}

theorem leads_code : Leads n.code c q c₁ ↔ ∃ vertex c₀ texture, Leads n.vertexCode c vertex c₀ ∧
    Leads n.uvCode c₀ texture c₁ ∧ q = vertex ++ texture := by
  simp only [Node.code, leads_bind, leads_pure]
  constructor
  · rintro ⟨vertex, c₀, hvertex, texture, _, huv, rfl, rfl⟩
    exact ⟨vertex, c₀, texture, hvertex, huv, rfl⟩
  · rintro ⟨vertex, c₀, texture, hvertex, huv, rfl⟩
    exact ⟨vertex, c₀, hvertex, texture, c₁, huv, rfl, rfl⟩

/-- All code of a node takes all that the node needs. -/
theorem records_code (hcatalogue : n.behavior.IsCatalogue) (h : Leads n.code c q c₁) :
    c.Records c₁ (n.needs c.features) := by
  obtain ⟨_, c₀, _, hvertex, huv, -⟩ := leads_code.mp h
  have hfirst := records_vertexCode hcatalogue hvertex
  have hsecond := records_uvCode hcatalogue huv
  rw [hfirst.features] at hsecond
  have hboth := hfirst.trans hsecond
  unfold Node.vertexNeeds Node.uvNeeds at hboth
  rw [← List.map_append] at hboth
  exact hboth

/-- Code that is not empty was written where the node is applied. -/
theorem isWritten_code (hcatalogue : n.behavior.IsCatalogue) (h : Leads n.code c q c₁)
    (hq : q ≠ []) : n.behavior.IsWritten c.features true := by
  obtain ⟨vertex, c₀, texture, hvertex, huv, rfl⟩ := leads_code.mp h
  by_cases hempty : vertex = []
  · subst hempty
    have hwritten := isWritten_uvCode hcatalogue huv hq
    rwa [(records_vertexCode hcatalogue hvertex).features] at hwritten
  · exact (isWritten_vertexCode hcatalogue hvertex hempty true).1

variable {i : Nat} {w : Window}

/-- The one form remembers its constants in the order of the windows. -/
theorem index?_of_window (h : Forms p g.behavior l.behavior)
    (hwritten : g.behavior.IsWritten c.features true) (hcode : Leads g.code c q c₁)
    (hw : l.behavior.windows[i]? = some w) :
    c₁.index? g.id w.slot = some ((g.exchange l c).firstConstant + i) := by
  obtain ⟨slots, hlength, hneeds, -⟩ := h.needs hwritten
  have hledger := (records_code h.isCatalogue.1 hcode).ledger
  have hnodup := nodup_slots c.features g.behavior
  unfold Node.needs at hledger
  rw [hneeds, List.map_map] at hledger hnodup
  have hslot : (slots ++ l.behavior.windows.map Window.slot)[slots.length + i]? = some w.slot := by
    rw [List.getElem?_append_right (Nat.le_add_right _ _), Nat.add_sub_cancel_left,
      List.getElem?_map, hw]
    rfl
  have hslots : (slots ++ l.behavior.windows.map Window.slot).Nodup := by
    simpa [Function.comp_def, Need.slot] using hnodup
  have hlookup := Ledger.lookup_takeAll_constants (l := c.ledger) (n := g) hslots hslot
  have hindices : c₁.indices = _ := congrArg Ledger.indices hledger
  unfold Compilation.index?
  rw [hindices, ← Nat.add_assoc, hlength] at *
  exact hlookup

/-- The other form binds its streams in the order of the windows. -/
theorem exists_binding_of_window (h : Forms p g.behavior l.behavior)
    (hwritten : g.behavior.IsWritten c.features true) (hcode : Leads l.code c q c₂)
    (hw : l.behavior.windows[i]? = some w) : ∃ b ∈ c₂.bindings,
      b.register = (g.exchange l c).firstStream + i ∧ Ledger.Enters l b w.need := by
  obtain ⟨slots, -, -, hneeds⟩ := h.needs hwritten
  have hledger := (records_code h.isCatalogue.2 hcode).ledger
  unfold Node.needs at hledger
  rw [hneeds, List.map_append, List.map_map, List.map_map, Ledger.takeAll_append] at hledger
  have hbindings : c₂.bindings = _ := congrArg Ledger.bindings hledger
  obtain ⟨b, hb, hregister, henters⟩ := Ledger.exists_binding_takeAll_windows
    (l := c.ledger.takeAll (slots.map fun slot => (l, Need.constants slot 1))) (n := l) hw
  rw [Ledger.attributes_takeAll_constants] at hregister
  exact ⟨b, hbindings ▸ hb, hregister, henters⟩

/-- In a state that is prepared for a node, what its code has taken can be staged. -/
theorem placed_of_prepares (hcatalogue : n.behavior.IsCatalogue) (hcode : Leads n.code c q c₁)
    (htaken : c.taken.vertexConstants ≤ c.used.vertexConstants) (hd : c₁.Prepares d n.id) :
    n.Placed d := by
  have hrecords := records_code hcatalogue hcode
  intro part hpart
  rw [hd.features, hrecords.features] at hpart
  obtain ⟨need, hneed, hconstants⟩ := List.mem_filterMap.mp hpart
  cases need with
  | stream slot start components => cases hconstants
  | constants slot count =>
    cases hconstants
    obtain ⟨index, hindex, hlow, hhigh⟩ := Ledger.exists_index_takeAll (l := c.ledger)
      (nodup_keys c.features n) (List.mem_map_of_mem hneed)
    rw [← hrecords.ledger] at hindex hhigh
    have hmaterial : d.taken = c.taken := by rw [hd.taken, hrecords.frame]
    refine ⟨index, (hd.index slot).trans hindex, ?_, hhigh.trans hd.rows⟩
    rw [hmaterial]
    exact htaken.trans hlow

/-- In a state that is prepared for a node, it writes the constants that its code has taken, one
after the other. -/
theorem map_fst_frameWrites_of_prepares (hcatalogue : n.behavior.IsCatalogue)
    (hcode : Leads n.code c q c₁) (hd : c₁.Prepares d n.id) {frame : Frame α} {rows : Rows α}
    (hrows : n.behavior.staged d.features frame = .ok rows) :
    (n.frameWrites frame d).map Prod.fst = List.range' c.used.vertexConstants
      (c₁.used.vertexConstants - c.used.vertexConstants) := by
  have hrecords := records_code hcatalogue hcode
  have hfeatures : d.features = c.features := hd.features.trans hrecords.features
  have hall := Ledger.constantsOf_takeAll (l := c.ledger) (nodup_keys c.features n)
  rw [← hrecords.ledger] at hall
  rw [Node.map_fst_frameWrites hrows, hfeatures]
  refine Eq.trans (List.flatMap_congr fun need hneed => ?_) hall
  obtain ⟨need, -, rfl⟩ := List.mem_map.mp hneed
  cases need with
  | stream slot start components => rfl
  | constants slot count =>
    have hindex : d.ledger.indices.lookup (n.id, slot) = c₁.ledger.indices.lookup (n.id, slot) :=
      hd.index slot
    simp only [Ledger.constantsOf, hindex]

/-- **What is staged**: in a state that is prepared for the one form, the row of a constant shows
what the window shows that it belongs to. -/
theorem exists_row?_of_window (h : Forms p g.behavior l.behavior)
    (hwritten : g.behavior.IsWritten c.features true) (hcode : Leads g.code c q c₁)
    (htaken : c.taken.vertexConstants ≤ c.used.vertexConstants) (hd : c₁.Prepares d g.id)
    {frame : Frame α} {d' : Compilation α} {values : List α}
    (hstaged : Leads (g.writeConstants frame) d () d') (hvalues : l.behavior.values p = .ok values)
    (hw : l.behavior.windows[i]? = some w) :
    ∃ row, d'.row? ((g.exchange l c).firstConstant + i) = some row ∧
      ∀ k : Register.Component, k.number < w.components →
        component? values w.start w.components k = some (row.get k) := by
  have hrecords := records_code h.isCatalogue.1 hcode
  have hfeatures : d.features = c.features := hd.features.trans hrecords.features
  have hmaterial : d.taken = c.taken := by rw [hd.taken, hrecords.frame]
  have hrun := run_writeConstants h.isCatalogue.1 hd.sized
    (placed_of_prepares h.isCatalogue.1 hcode htaken hd) frame
  unfold StagesRows at hrun
  have hleads : (g.writeConstants frame).run d = .ok () d' := hstaged
  rw [hleads] at hrun
  cases hrows : g.behavior.staged d.features frame with
  | error fault =>
    rw [hrows] at hrun
    cases hrun
  | ok rows =>
    rw [hrows] at hrun
    obtain rfl : d' = _ := by injection hrun
    obtain ⟨row, hrow, hshown⟩ := h.rowsShown (hfeatures ▸ hwritten) hrows hvalues w
      (List.mem_of_getElem? hw)
    have hindex := (hd.index w.slot).trans (index?_of_window h hwritten hcode hw)
    have hfst := map_fst_frameWrites_of_prepares h.isCatalogue.1 hcode hd hrows
    rw [Node.frameWrites_eq hrows] at hfst
    have hwrite : ((g.exchange l c).firstConstant + i, row) ∈ d.writes g.id rows := by
      refine List.mem_flatMap.mpr ⟨_, hrow, ?_⟩
      simp only [hindex]
      exact List.mem_singleton_self _
    have hrange : ∀ write ∈ d.writes g.id rows, c.used.vertexConstants ≤ write.1 ∧
        write.1 < c.used.vertexConstants + (c₁.used.vertexConstants - c.used.vertexConstants) := by
      intro write hmem
      have hfirst := List.mem_map_of_mem (f := Prod.fst) hmem
      rw [hfst] at hfirst
      exact List.mem_range'_1.mp hfirst
    have hbounds := hrange _ hwrite
    have hplenty := hd.rows
    rw [hmaterial] at hplenty
    have hback : c.taken.vertexConstants +
        ((g.exchange l c).firstConstant + i - c.taken.vertexConstants) =
          (g.exchange l c).firstConstant + i := by omega
    refine ⟨row, ?_, hshown⟩
    show (stageAll d.taken.vertexConstants (d.writes g.id rows) d.vertexRows)[
      (g.exchange l c).firstConstant + i - d.taken.vertexConstants]? = some row
    rw [hmaterial]
    refine stageAll_of_mem (fun write hmem => htaken.trans (hrange write hmem).1)
      (hfst ▸ List.nodup_range') (by rw [hback]; exact hwrite) ?_
    simp only at hbounds
    omega

/-- **The two forms of a node**: written in the same state, with room for both, the code of one is
that of the other with constants exchanged for streams. What is staged for a constant that is read
is what the stream for it shows, and a value is refused in the one form if it is in the other, with
the same fault. A scroll is staged where textures are animated. -/
theorem forms_spec (h : Forms p g.behavior l.behavior)
    (htaken : c.taken.vertexConstants ≤ c.used.vertexConstants)
    (hconstants : (g.exchange l c).firstConstant + (g.exchange l c).count ≤
      c.limit .vertexConstant)
    (hstreams : (g.exchange l c).firstStream + (g.exchange l c).count ≤ c.limit .vertexAttribute)
    (hspares : ∀ r ∈ c.given, (g.exchange l c).Spares r) :
    Function.Involutive (g.exchange l c).swap ∧
    outcome (l.code.run c) = (outcome (g.code.run c)).map (Program.rename (g.exchange l c).swap) ∧
    ∀ q c₁ q' c₂, Leads g.code c q c₁ → Leads l.code c q' c₂ →
      ∀ d frame, c₁.Prepares d g.id →
        ((∀ axis value, g.behavior = .uv axis value → c.features.uvAnimation = true) →
          outcome ((g.writeConstants frame).run d) = (l.behavior.values p).map fun _ => ()) ∧
        ∀ d' values, Leads (g.writeConstants frame) d () d' → l.behavior.values p = .ok values →
          ∀ i, .instruction i ∈ q → ∀ o ∈ i.reads, (g.exchange l c).Moves o →
            ∃ b ∈ c₂.bindings, ∃ start row,
              (.vertexAttribute, b.register) = (g.exchange l c).swap (o.kind, o.index) ∧
              b.node = l.id ∧ b.buffer = .baked ∧ b.offset = l.offset + start ∧
              d'.row? o.index = some row ∧ ∀ k ∈ o.components,
                component? values start b.components k = some (row.get k) := by
  obtain ⟨stop, hmatches⟩ := matches_code h (abreast_self hconstants hstreams hspares)
  refine ⟨Exchange.involutive_swap _, ?_, fun q c₁ q' c₂ hg hl d frame hd => ⟨fun huv => ?_, ?_⟩⟩
  · unfold outcome
    cases hg : g.code.run c <;> cases hl : l.code.run c <;> rw [hg, hl] at hmatches <;>
      cases hmatches
    · exact congrArg Except.ok (Twins.rename ‹_›)
    · rfl
  · have hfeatures := hd.features.trans (records_code h.isCatalogue.1 hg).features
    have hrun := run_writeConstants h.isCatalogue.1 hd.sized
      (placed_of_prepares h.isCatalogue.1 hg htaken hd) frame
    have hchecks : (g.behavior.staged d.features frame).map _ = _ := h.checks (hfeatures ▸ huv)
    rw [← hchecks]
    unfold StagesRows at hrun
    unfold outcome
    rw [hrun]
    cases g.behavior.staged d.features frame <;> rfl
  · intro d' values hstaged hvalues i hi o ho hmoves
    have hcode : g.code.run c = .ok q c₁ := hg
    have hcode' : l.code.run c = .ok q' c₂ := hl
    rw [hcode, hcode'] at hmatches
    cases hmatches with
    | ok htwins _ =>
      obtain ⟨w, hw, hread⟩ := htwins.within i hi o ho hmoves
      have hwritten := isWritten_code h.isCatalogue.1 hg (List.ne_nil_of_mem hi)
      have hback : (g.exchange l c).firstConstant +
          (o.index - (g.exchange l c).firstConstant) = o.index := Nat.add_sub_cancel' hmoves.2.1
      obtain ⟨b, hb, hregister, hnode, hbuffer, hoffset, hcomponents⟩ :=
        exists_binding_of_window h hwritten hl hw
      rw [NodeSet.streamBase_of_mode h.mode] at hbuffer hoffset
      obtain ⟨row, hrow, hshown⟩ := exists_row?_of_window h hwritten hg htaken hd hstaged hvalues hw
      rw [hback] at hrow
      refine ⟨b, hb, w.start, row, ?_, hnode, hbuffer, hoffset, hrow, fun k hk => ?_⟩
      · rw [hmoves.1, hregister]
        exact (if_pos hmoves.2).symm
      · rw [hcomponents]
        exact hshown k (hread k hk)

/-- A color of which the multiplier swings between two, for all particles. -/
def swinging : Node Rat where
  behavior := .color ⟨true, false, some ⟨2, none⟩, .global
    (⟨⟨1, 1, 1, 1⟩, ⟨0, 0, 0, 0⟩⟩, ⟨⟨1, 0, 0, 1⟩, ⟨0, 0, 0, 0⟩⟩)⟩
  id := 1

/-- The same color with two of its own for every particle. -/
def swung : Node Rat where
  behavior := .color ⟨true, false, some ⟨2, none⟩, .perParticle .baked⟩
  id := 1
  offset := 4

/-- A particle with the two colors. -/
def reddening : Particle Rat :=
  { Particle.default 0 1 with
    colorStart := some ⟨⟨1, 1, 1, 1⟩, ⟨0, 0, 0, 0⟩⟩
    colorEnd := some ⟨⟨1, 0, 0, 1⟩, ⟨0, 0, 0, 0⟩⟩ }

/-- A compilation in which colors are written next. -/
def colorReady : Compilation Rat :=
  ({ profile := .baseline } : Compilation Rat).after do
    reset .baseline { fragmentAnimation := true }
      { fragmentAnimation := true, colorMultiplier := true } ["va0"] ["vt0"]
    [Phase.init, .primary, .combine, .post, .colorInit].forM enter
    let _ ← initColor
    enter .color

/-- Both forms of the color are written and staged. -/
theorem swinging_forms : ∃ q c₁ q' c₂ d d' values,
    Leads swinging.code colorReady q c₁ ∧ Leads swung.code colorReady q' c₂ ∧
    q' = q.rename (swinging.exchange swung colorReady).swap ∧
    c₁.Prepares d swinging.id ∧ Leads (swinging.writeConstants (Frame.at 1)) d () d' ∧
    swung.behavior.values reddening = .ok values ∧
    ∀ i, .instruction i ∈ q → ∀ o ∈ i.reads, (swinging.exchange swung colorReady).Moves o →
      ∃ b ∈ c₂.bindings, ∃ start row, b.offset = swung.offset + start ∧
        d'.row? o.index = some row ∧ ∀ k ∈ o.components,
          component? values start b.components k = some (row.get k) := by
  obtain ⟨q, c₁, hq⟩ := exists_leads (x := swinging.code) (s := colorReady) (by decide +kernel)
  obtain ⟨q', c₂, hq'⟩ := exists_leads (x := swung.code) (s := colorReady) (by decide +kernel)
  obtain ⟨_, d, hd⟩ := exists_leads (x := do enter .colorCombine; finish)
    (s := colorReady.after swinging.code) (by decide +kernel)
  obtain ⟨_, d', hstaged⟩ := exists_leads (x := swinging.writeConstants (Frame.at 1))
    (s := (colorReady.after swinging.code).after do enter .colorCombine; finish) (by decide +kernel)
  have hprepares : (colorReady.after swinging.code).Prepares
      ((colorReady.after swinging.code).after do enter .colorCombine; finish) swinging.id := {
    features := by decide +kernel
    taken := by decide +kernel
    index := fun slot => rfl
    rows := by decide +kernel
    sized := (by decide +kernel : _ + _ ≤ _) }
  rw [hd.after_eq] at hprepares hstaged
  rw [hq.after_eq] at hprepares
  obtain ⟨-, hrename, hforms⟩ := forms_spec (p := reddening) (g := swinging) (l := swung)
    (c := colorReady) (.color true false (some ⟨2, none⟩) rfl rfl) (by decide +kernel)
    (by decide +kernel) (by decide +kernel) (by decide +kernel)
  obtain ⟨-, hvalues⟩ := hforms q c₁ q' c₂ hq hq' d (Frame.at 1) hprepares
  refine ⟨q, c₁, q', c₂, d, d', _, hq, hq', ?_, hprepares, hstaged, rfl, fun i hi o ho hmoves => ?_⟩
  · have hrun : swinging.code.run colorReady = .ok q c₁ := hq
    have hrun' : swung.code.run colorReady = .ok q' c₂ := hq'
    unfold outcome at hrename
    rw [hrun, hrun'] at hrename
    exact Except.ok.inj hrename
  · obtain ⟨b, hb, start, row, -, -, -, hoffset, hrow⟩ :=
      hvalues d' _ hstaged rfl i hi o ho hmoves
    exact ⟨b, hb, start, row, hoffset, hrow⟩

/-- A scroll for all particles that would pass its texture in no time. -/
def stalledScroll : Node Rat where
  behavior := .uv .u (.global ⟨0, 2⟩)
  id := 1

/-- Particles with that scroll. -/
def stalled : NodeSet Rat where
  settings := { features := { uvNode := true } }
  nodes := [{ behavior := .time {}, id := 0 }, stalledScroll]
  stride := 4

/-- A particle that asks for the same scroll. -/
def stalledParticle : Particle Rat := { Particle.default 0 1 with uv := some ⟨0, 2⟩ }

/-- A scale for all particles. -/
def growing : Node Rat where
  behavior := .scale .linear (.global ⟨1, 2, 0, 0⟩)
  id := 1

/-- The same scale for every particle. -/
def grown : Node Rat where
  behavior := .scale .linear (.perParticle .baked)
  id := 1
  offset := 4

/-- A compilation of which the vertex is the next constant. -/
def vertexTaken : Compilation Rat :=
  ({ profile := .baseline } : Compilation Rat).after (reset .baseline {} {} ["va0"] ["vc1"])

/-- The constant that is both. -/
def next : Register := { kind := .vertexConstant, index := 1 }

/-- The forms differ where a scroll is not applied: its value is refused for a particle, but not
for all of them. And they differ where the vertex is named like the constant of a parameter. -/
theorem forms_differ :
    (stalled.Built ∧ stalledScroll ∈ stalled.nodes ∧
      Forms stalledParticle stalledScroll.behavior (.uv .u (.perParticle .baked)) ∧
      (∃ p c₁ q c₂ c₃ bindings c₄,
        Leads (stalled.vertexCode {} .baseline ["va0"] ["vt0"]) { profile := .standard } p c₁ ∧
        Leads (stalled.uvCode "va1" "v0") c₁ q c₂ ∧ Leads finish c₂ () c₃ ∧
        Leads (stalled.activate (Frame.at 0)) c₃ bindings c₄) ∧
      (uv .u (.perParticle .baked) : Behavior Rat).values stalledParticle =
        .error (.invalidProperty "uv" (.cycle "0"))) ∧
    Forms { stalledParticle with scale := some ⟨1, 2, 0, 0⟩ } growing.behavior grown.behavior ∧
    (growing.exchange grown vertexTaken).firstConstant +
      (growing.exchange grown vertexTaken).count ≤ vertexTaken.limit .vertexConstant ∧
    (growing.exchange grown vertexTaken).firstStream +
      (growing.exchange grown vertexTaken).count ≤ vertexTaken.limit .vertexAttribute ∧
    (∃ q, outcome (growing.code.run vertexTaken) = .ok q) ∧
    ∀ f : Renaming, outcome (grown.code.run vertexTaken) ≠
      (outcome (growing.code.run vertexTaken)).map (Program.rename f) := by
  refine ⟨⟨?_, by simp [stalled], .uv .u rfl (by decide +kernel), ?_, by decide +kernel⟩,
    .scale .linear rfl, by decide +kernel, by decide +kernel, ⟨_, rfl⟩, fun f hsame => ?_⟩
  · exact .add (b := stalledScroll.behavior) (.empty {}) (by exact trivial) rfl
  · have hall : succeeds (do
        let _ ← stalled.vertexCode {} .baseline ["va0"] ["vt0"]
        let _ ← stalled.uvCode "va1" "v0"
        finish
        stalled.activate (Frame.at 0)) { profile := .standard } = true := by decide +kernel
    obtain ⟨bindings, c₄, hall⟩ := exists_leads hall
    obtain ⟨p, c₁, hvertex, hall⟩ := leads_bind.mp hall
    obtain ⟨q, c₂, huv, hall⟩ := leads_bind.mp hall
    obtain ⟨_, c₃, hfinish, hactivate⟩ := leads_bind.mp hall
    exact ⟨p, c₁, q, c₂, c₃, bindings, c₄, hvertex, huv, hfinish, hactivate⟩
  · let program (value : Register) : Program :=
      scaleProgram .linear ⟨⟨.vertexAttribute, 0, none⟩, next, [], .temporary 0, none,
        (Register.temporary 1).x, (Register.temporary 1).y, ⟨.vertexConstant, 0, some .x⟩,
        ⟨.vertexConstant, 0, some .y⟩, ⟨.vertexConstant, 0, some .z⟩⟩ value (Register.temporary 2).x
    have hgrowing : outcome (growing.code.run vertexTaken) = .ok (program next) := rfl
    have hgrown : outcome (grown.code.run vertexTaken) =
        .ok (program ⟨.vertexAttribute, 0, none⟩) := rfl
    rw [hgrowing, hgrown] at hsame
    -- The constant would have to become the stream as a value and stay itself as the vertex.
    obtain ⟨-, hcode⟩ := List.cons.inj (Except.ok.inj hsame)
    obtain ⟨hadd, hcode⟩ := List.cons.inj hcode
    obtain ⟨hmul, -⟩ := List.cons.inj hcode
    have hsources := (Instruction.mk.inj (Statement.instruction.inj hadd)).2.2
    have hvertex := (Instruction.mk.inj (Statement.instruction.inj hmul)).2.1
    have hkinds : Register.Kind.vertexAttribute = .vertexConstant :=
      (Operand.mk.inj (List.cons.inj hsources).1).1.trans (Operand.mk.inj hvertex).1.symm
    cases hkinds

end Node

end ParticleShader
