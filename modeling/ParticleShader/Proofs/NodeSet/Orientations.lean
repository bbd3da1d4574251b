import ParticleShader.Proofs.Compilation.Calls
import ParticleShader.Proofs.Node.Orientation
import ParticleShader.Proofs.NodeSet.Assembly
import ParticleShader.Proofs.NodeSet.Delivery

/-!
# Orientations in a compilation

The node that rotates around an axis, the node that rotates along the velocity and the billboard
turn the vertex and all directions by one linear map, which `Behavior.orientation` names. The
targets are claimed when a compilation begins and stay claimed, so the scratch temporaries of these
nodes are never targets: **`Node.turns_targets`**.
-/

namespace ParticleShader

open Compile Compilation Behavior Matrix

variable {α K : Type}

namespace Behavior

/-- It turns the vertex and the directions. -/
def IsOrientation : Behavior α → Prop
  | .rotationalVelocity _ | .rotateToHeading | .billboard _ => True
  | _ => False

/-- The map that an orientation applies to everything that it turns. -/
def orientation [Field K] (F : Primitives K) (billboard : Bool) (i : Inputs K) (time : K)
    (velocity : Fin 3 → K) : Behavior α → (Fin 3 → K) →ₗ[K] Fin 3 → K
  | .rotationalVelocity _ =>
    let angle := time * i.rows 0 .w
    spinMap i.vector (F.sin angle) (F.cos angle)
  | .rotateToHeading =>
    if billboard then screenMap (F.nrm (onScreen (i.matrix *ᵥ velocity)))
    else headingMap F velocity
  | .billboard _ => i.matrix.mulVecLin
  | _ => .id

end Behavior

/-- The velocity that is accumulated, if it is. -/
def SharedRegisters.velocityIn [Zero K] (shared : SharedRegisters) (m : Machine K) : Fin 3 → K :=
  shared.velocity.elim 0 fun r => (m r.kind r.index).xyz

/-! ### Targets that stay claimed -/

namespace Compilation

/-- A later state of a compilation, in which no temporary was given back. -/
structure Retains (c c' : Compilation α) : Prop where
  /-- The same features are on. -/
  features : c'.features = c.features
  /-- The registers of the material are the same. -/
  taken : c'.taken = c.taken
  /-- No constant is given back. -/
  constants : c.used.vertexConstants ≤ c'.used.vertexConstants
  /-- The shared registers are the same. -/
  shared : c'.shared = c.shared
  /-- What is free was free. -/
  free : ∀ i ∈ c'.free, i ∈ c.free

namespace Retains

variable {c c' c'' : Compilation α}

theorem refl (c : Compilation α) : c.Retains c := ⟨rfl, rfl, Nat.le_refl _, rfl, fun _ hi => hi⟩

theorem trans (h : c.Retains c') (h' : c'.Retains c'') : c.Retains c'' where
  features := h'.features.trans h.features
  taken := h'.taken.trans h.taken
  constants := h.constants.trans h'.constants
  shared := h'.shared.trans h.shared
  free i hi := h.free i (h'.free i hi)

/-- Code of nodes gives nothing back. -/
theorem of_vertexCode {n : Node α} {p : Program} (h : n.behavior.IsCatalogue)
    (hcode : Leads n.vertexCode c p c') : c.Retains c' := by
  have hlasts := Node.claiming_vertexCode quiet_lasting.claiming h c
  rw [hcode.after_eq] at hlasts
  have hrecords := Node.records_vertexCode h hcode
  refine ⟨hrecords.features, hlasts.taken, hlasts.used .vertexConstant, hlasts.shared,
    fun i hi => ?_⟩
  rwa [hrecords.frame] at hi

theorem of_enter (c : Compilation α) (phase : Phase) : c.Retains { c with phase } :=
  ⟨rfl, rfl, Nat.le_refl _, rfl, fun _ hi => hi⟩

theorem of_claiming (c : Compilation α) (index : Nat) : c.Retains (c.claiming index) :=
  ⟨rfl, rfl, Nat.le_refl _, rfl, fun _ hi => (List.mem_filter.mp (free_claiming c index ▸ hi)).1⟩

end Retains

/-- The registers that all nodes share, where everything that is oriented lies in different
temporaries that are claimed. -/
structure Aims (c : Compilation α) (P : Layout) (targets : List Nat) : Prop where
  /-- The shared registers. -/
  shared : c.shared = some P.shared
  /-- The vertex and the directions. -/
  oriented : P.shared.oriented = targets.map Register.temporary
  /-- They are different. -/
  nodup : targets.Nodup
  /-- They are claimed. -/
  claimed : ∀ t ∈ targets, t ∉ c.free

variable {c c' : Compilation α} {P : Layout} {targets rest : List Nat} {d : Demand}

theorem Aims.retains (h : c.Aims P targets) (hretains : c.Retains c') : c'.Aims P targets :=
  ⟨hretains.shared.trans h.shared, h.oriented, h.nodup,
    fun t ht hi => h.claimed t ht (hretains.free t hi)⟩

theorem Aims.shared_eq (h : c.Aims P targets) {shared : SharedRegisters}
    (hshared : c.shared? = .ok shared) : shared = P.shared :=
  Option.some.inj ((shared_of_shared? hshared).symm.trans h.shared)

/-- The temporaries that are handed out next are different, and no targets. -/
theorem Aims.scratch (h : c.Aims P targets) (indices : List Nat)
    (hfree : c.free = indices ++ rest) :
    indices.Nodup ∧ (∀ t ∈ targets, t ∉ indices) ∧ ∀ i ∈ indices, i ∈ c.free := by
  have hsub : ∀ i ∈ indices, i ∈ c.free := fun i hi => hfree ▸ List.mem_append_left _ hi
  have hsorted := (List.pairwise_append.mp (hfree ▸ pairwise_free c)).1
  exact ⟨hsorted.imp Nat.ne_of_lt, fun t ht hi => h.claimed t ht (hsub t hi), hsub⟩

/-- The targets of a beginning are claimed. -/
theorem notMem_free_of_reset {profile : Profile} {pass : Pass} {features : Features}
    {sourceNames targetNames : List String} {registers : List Register} {index : Nat}
    (hreset : Leads (reset profile pass features sourceNames targetNames) c () c')
    (htargets : targetNames.mapM Register.ofName = .ok registers)
    (hindex : .temporary index ∈ registers) : index ∉ c'.free := by
  obtain ⟨sources, named, -, hnamed, hshare⟩ := leads_reset.mp hreset
  obtain rfl := Except.ok.inj (htargets.symm.trans hnamed)
  obtain ⟨source, others, target, directions, shared, c₁, rfl, rfl, -, -, hshared, rfl⟩ :=
    leads_shareRegisters.mp hshare
  obtain ⟨-, displacement, temporary, rest, -, -, rfl⟩ := leads_allocateShared.mp hshared
  intro hi
  have hclaimed := (Retains.of_claiming _ displacement).free index
    ((Retains.of_claiming _ temporary).free index hi)
  rw [free_claimingAll] at hclaimed
  have hunclaimed := of_decide_eq_true (List.mem_filter.mp hclaimed).2
  exact hunclaimed (Register.mem_temporaryIndices.mpr ⟨_, hindex, rfl, rfl⟩)

end Compilation

namespace NodeSet

variable {c c' : Compilation α}

/-- Nodes have their turns in states that gave nothing back. -/
theorem Writes.retains {pieces : List (Node α × Program)}
    (hcatalogue : ∀ n ∈ pieces.map Prod.fst, n.behavior.IsCatalogue)
    (h : Writes Node.vertexCode c pieces c') :
    c.Retains c' ∧ ∀ piece ∈ pieces, ∃ d d', c.Retains d ∧
      Leads piece.1.vertexCode d piece.2 d' := by
  induction pieces generalizing c with
  | nil =>
    obtain rfl : c = c' := h
    exact ⟨.refl c, nofun⟩
  | cons piece pieces ih =>
    rw [List.map_cons, List.forall_mem_cons] at hcatalogue
    obtain ⟨c₁, hfirst, hothers⟩ := h
    have hretains := Retains.of_vertexCode hcatalogue.1 hfirst
    obtain ⟨hlast, hturns⟩ := ih hcatalogue.2 hothers
    refine ⟨hretains.trans hlast, List.forall_mem_cons.mpr ⟨⟨c, c₁, .refl c, hfirst⟩, ?_⟩⟩
    intro other hother
    obtain ⟨d, d', hd, hcode⟩ := hturns other hother
    exact ⟨d, d', hretains.trans hd, hcode⟩

/-- In the vertex code of a set, all that moves the vertex is written in such states. -/
theorem Sequence.Written.retains {q : Sequence α} (h : q.Written c c')
    (hcatalogue : ∀ n ∈ q.nodes, n.behavior.IsCatalogue) :
    ∀ piece ∈ q.primary ++ q.post, ∃ d d', c.Retains d ∧
      Leads piece.1.vertexCode d piece.2 d' := by
  simp only [Sequence.nodes, List.map_append, List.forall_mem_append] at hcatalogue
  obtain ⟨c₁, c₂, c₃, _, _, _, hstart, hwrites₂, hplacement, hwrites₄, -⟩ := h
  obtain ⟨_, -, -, rfl⟩ := leads_initCode.mp hstart
  obtain ⟨_, -, -, rfl⟩ := leads_combineCode.mp hplacement
  obtain ⟨hfirst, hprimary⟩ := hwrites₂.retains hcatalogue.1.1
  have hplaced : c.Retains { c₂ with phase := .post } :=
    (Retains.of_enter c .primary).trans (hfirst.trans (.of_enter c₂ .post))
  refine List.forall_mem_append.mpr ⟨fun piece hpiece => ?_, fun piece hpiece => ?_⟩
  · obtain ⟨d, d', hd, hcode⟩ := hprimary piece hpiece
    exact ⟨d, d', (Retains.of_enter c .primary).trans hd, hcode⟩
  · obtain ⟨d, d', hd, hcode⟩ := (hwrites₄.retains hcatalogue.1.2).2 piece hpiece
    exact ⟨d, d', hplaced.trans hd, hcode⟩

end NodeSet

/-- With different whole temporaries as targets, a beginning claims them. -/
theorem NodeSet.aims_of_reset {c c' : Compilation α} {profile : Profile} {pass : Pass}
    {features : Features} {sourceNames targetNames : List String} {targets : List Nat}
    (htargets : targetNames.mapM Register.ofName = .ok (targets.map Register.temporary))
    (hnodup : targets.Nodup)
    (hreset : Leads (reset profile pass features sourceNames targetNames) c () c') :
    ∃ P : Layout, c'.Aims P targets ∧ P.helper = pass.taken.vertexConstants := by
  obtain ⟨sources, _, hsources, -, -⟩ := leads_reset.mp hreset
  have hdifferent : (targets.map Register.temporary).Nodup :=
    hnodup.map fun _ _ hsame => congrArg Register.index hsame
  obtain ⟨P, others, hhosts, hshared, hhelper, -, htargeted, -, -⟩ :=
    hosts_of_reset hsources htargets (by simp) hdifferent hreset
  refine ⟨P, ⟨hshared, ?_, hnodup, fun t ht => ?_⟩, hhelper⟩
  · rw [Layout.oriented_shared, htargeted]
  · exact notMem_free_of_reset hreset htargets (List.mem_map_of_mem ht)

/-! ### The code of the nodes -/

namespace Behavior

variable [Field K] [LinearOrder K] [FloorRing K] {F : Primitives K} {m : Machine K} {P : Layout}
  {c c' : Compilation α} {n : Node α} {p : Program} {targets : List Nat} {r : Register}

omit [Field K] [LinearOrder K] [FloorRing K] in
theorem matrix_inputs (h : c.Remembers n Slot.value r) (hkind : r.kind = n.parameterKind) :
    (c.inputs m n).matrix = matrixAt m r := by
  simp only [Inputs.matrix, matrixAt, h.rows hkind, Nat.add_zero]

theorem turned_rotationalVelocityCode {value : Parameter (Vec4 α)} {billboard : Bool}
    {velocity : Fin 3 → K} (hcode : Leads (rotationalVelocityCode n.info) c p c')
    (haims : c'.Aims P targets) (hparameter : n.parameterKind ≠ .vertexTemporary)
    (hhelper : m .vertexConstant P.helper = .helper) :
    Turned ((Behavior.rotationalVelocity value).orientation F billboard (c'.inputs m n)
      (m.read P.shared.time .x) velocity) targets c'.free m (p.exec F m) := by
  obtain ⟨r, hr, shared, angle, cross, parallel, rest, hshared, hfree, rfl⟩ :=
    leads_rotationalVelocityCode.mp hcode
  obtain rfl := haims.shared_eq hshared
  obtain ⟨hvalue, hkind⟩ := remembers_parameter hr
  obtain ⟨hnodup, hapart, hsub⟩ := haims.scratch [angle, cross, parallel] hfree
  have hturned := turned_rotationalVelocityProgram (F := F) (m := m) haims.oriented haims.nodup
    hnodup hapart (hkind ▸ hparameter) hhelper
  have hrow : (c'.inputs m n).rows 0 = m r.kind r.index := hvalue.rows hkind m 0
  simp only [orientation, Inputs.vector, hrow]
  exact hturned.mono hsub

theorem turned_headingCode (hcode : Leads (headingCode n.info) c p c')
    (hrecords : c'.features = c.features ∧ c'.shared? = c.shared?) (haims : c'.Aims P targets)
    (hparameter : n.parameterKind = .vertexConstant)
    (hhelper : m .vertexConstant P.helper = .helper) :
    Turned ((Behavior.rotateToHeading : Behavior α).orientation F c'.features.billboard
      (c'.inputs m n) (m.read P.shared.time .x) (P.shared.velocityIn m)) targets c'.free m
      (p.exec F m) := by
  obtain ⟨shared, total, hshared, htotal, hheading⟩ := leads_headingCode.mp hcode
  obtain rfl := haims.shared_eq (hrecords.2.trans hshared)
  have hvelocity : P.shared.velocityIn m = (m total.kind total.index).xyz := by
    rw [SharedRegisters.velocityIn, htotal]
    rfl
  rw [Layout.velocity_shared] at htotal
  obtain ⟨-, rfl⟩ : P.velocity = true ∧ Register.temporary P.temporary = total := by
    simpa using htotal
  rw [hvelocity]
  rw [← hrecords.1] at hheading
  cases hbillboard : c'.features.billboard with
  | true =>
    rw [hbillboard, if_pos rfl] at hheading
    obtain ⟨matrix, hmatrix, heading, temp, rest, hfree, rfl⟩ := hheading
    obtain ⟨hvalue, hkind⟩ := remembers_claimConstants hmatrix
    obtain ⟨hnodup, hapart, hsub⟩ := haims.scratch [heading, temp] hfree
    have hturned := turned_screenHeadingProgram (F := F) (m := m) haims.oriented
      haims.nodup P.temporary hnodup hapart hvalue.whole hhelper
    rw [← matrix_inputs hvalue (hkind.trans hparameter.symm)] at hturned
    exact hturned.mono hsub
  | false =>
    rw [hbillboard, if_neg Bool.false_ne_true] at hheading
    obtain ⟨heading, side, up, sum, temp, rest, rfl, hfree, rfl⟩ := hheading
    obtain ⟨hnodup, hapart, hsub⟩ :=
      haims.scratch [heading, side, up, sum, temp] hfree
    exact (turned_spaceHeadingProgram (F := F) (m := m) haims.oriented haims.nodup P.temporary
      hnodup hapart hhelper).mono hsub

theorem turned_billboardCode {axis : Option (Vec3 α)} {billboard : Bool} {time : K}
    {velocity : Fin 3 → K} (hcode : Leads (billboardCode n.info) c p c')
    (haims : c'.Aims P targets) (hparameter : n.parameterKind = .vertexConstant) :
    Turned ((Behavior.billboard axis).orientation F billboard (c'.inputs m n) time velocity)
      targets c'.free m (p.exec F m) := by
  obtain ⟨matrix, hmatrix, shared, temp, rest, hshared, hfree, rfl⟩ := leads_billboardCode.mp hcode
  obtain rfl := haims.shared_eq hshared
  obtain ⟨hvalue, hkind⟩ := remembers_claimConstants hmatrix
  obtain ⟨-, hapart, hsub⟩ := haims.scratch [temp] hfree
  have hturned := turned_billboardProgram (F := F) (m := m) haims.oriented haims.nodup hapart
    hvalue.whole (hkind ▸ Register.Kind.noConfusion)
  rw [← matrix_inputs hvalue (hkind.trans hparameter.symm)] at hturned
  exact hturned.mono hsub

end Behavior

/-! ### The rows of a matrix -/

/-- A matrix by its rows, with values of another kind. -/
def Mat3.toMatrix (value : α → K) (a : Mat3 α) : Matrix (Fin 3) (Fin 3) K :=
  .of ![![value a.first.x, value a.second.x, value a.third.x],
    ![value a.first.y, value a.second.y, value a.third.y],
    ![value a.first.z, value a.second.z, value a.third.z]]

/-- The constants behind those of the material hold the rows that are staged. -/
def Machine.Holds (m : Machine K) (value : α → K) (c : Compilation α) : Prop :=
  ∀ index row, c.taken.vertexConstants ≤ index → c.row? index = some row →
    m .vertexConstant index = fun k => value (row.get k)

namespace Compilation

variable {c d d' : Compilation α} {index k : Nat} {values : List (Vec4 α)} {value : Vec4 α}

/-- Consecutive values are found in the rows that they were staged in. -/
theorem row?_staging_consecutive (h : c.Stageable index values.length)
    (hvalue : values[k]? = some value) :
    (c.staging (consecutive index values)).row? (index + k) = some value := by
  obtain ⟨hlow, hhigh⟩ := h
  obtain ⟨hk, rfl⟩ := List.getElem?_eq_some_iff.mp hvalue
  have hback : c.taken.vertexConstants + (index + k - c.taken.vertexConstants) = index + k := by
    omega
  show (stageAll c.taken.vertexConstants (consecutive index values) c.vertexRows)[
    index + k - c.taken.vertexConstants]? = _
  refine stageAll_of_mem (fun write hwrite => ?_) ?_ ?_ (by omega)
  · have hfirst := List.mem_map_of_mem (f := Prod.fst) hwrite
    rw [map_fst_consecutive] at hfirst
    exact hlow.trans (List.mem_range'_1.mp hfirst).1
  · rw [map_fst_consecutive]
    exact List.nodup_range'
  · rw [hback]
    refine List.mem_iff_getElem.mpr ⟨k, by simpa [consecutive] using hk, ?_⟩
    simp [consecutive]

/-- A matrix that is staged is read from its registers. -/
theorem matrixAt_of_staged [Scalar α] [Field K] {m : Machine K} {value : α → K} {a : Mat3 α}
    {r : Register} (h : d.Stageable r.index 3) (hkind : r.kind = .vertexConstant)
    (hholds : m.Holds value
      (d.staging (consecutive r.index (a.rows.map (·.extend Scalar.zero))))) :
    matrixAt m r = a.toMatrix value := by
  have hrow : ∀ k row, (a.rows.map (·.extend Scalar.zero))[k]? = some row →
      m r.kind (r.index + k) = fun j => value (row.get j) := fun k row hk => by
    rw [hkind]
    exact hholds _ row (h.low.trans (Nat.le_add_right _ _)) (row?_staging_consecutive h hk)
  have hfirst := hrow 0 _ rfl
  have hsecond := hrow 1 _ rfl
  have hthird := hrow 2 _ rfl
  rw [Nat.add_zero] at hfirst
  rw [matrixAt, hfirst, hsecond, hthird]
  rfl

end Compilation

/-! ### All targets -/

namespace Node

variable {c c' c₀ c₁ : Compilation α} {n : Node α} {p : Program} {P : Layout}
  {targets : List Nat}

theorem isCatalogue_of_isOrientation (h : n.behavior.IsOrientation) : n.behavior.IsCatalogue := by
  cases hbehavior : n.behavior <;> simp_all [IsOrientation, IsCatalogue]

/-- Where the targets are claimed, the code of an orientation applies its map to all of them. -/
theorem turned_vertexCode (h : n.behavior.IsOrientation) (hcode : Leads n.vertexCode c p c')
    (haims : c.Aims P targets) [Field K] [LinearOrder K] [FloorRing K] (F : Primitives K)
    {m : Machine K} (hhelper : m .vertexConstant P.helper = .helper) :
    Turned (n.behavior.orientation F c.features.billboard (c'.inputs m n)
      (m.read P.shared.time .x) (P.shared.velocityIn m)) targets c.free m (p.exec F m) := by
  have hrecords := records_vertexCode (isCatalogue_of_isOrientation h) hcode
  have hfree : c'.free = c.free := by
    rw [hrecords.frame]
    rfl
  have hshared : c'.shared? = c.shared? := by
    rw [hrecords.frame]
    rfl
  have haims' : c'.Aims P targets := by
    refine ⟨?_, haims.oriented, haims.nodup, hfree ▸ haims.claimed⟩
    rw [hrecords.frame]
    exact haims.shared
  rw [← hfree, ← hrecords.features]
  have hparameter : n.parameterKind ≠ .vertexTemporary := by
    unfold parameterKind
    cases n.behavior.mode <;> exact Register.Kind.noConfusion
  unfold Node.vertexCode at hcode
  cases hbehavior : n.behavior <;> rw [hbehavior] at hcode h
  case rotationalVelocity value =>
    exact turned_rotationalVelocityCode hcode haims' hparameter hhelper
  case rotateToHeading =>
    exact turned_headingCode hcode ⟨hrecords.features, hshared⟩ haims'
      (by rw [parameterKind, hbehavior]; rfl) hhelper
  case billboard axis =>
    exact turned_billboardCode hcode haims' (by rw [parameterKind, hbehavior]; rfl)
  all_goals exact h.elim

/-- The matrix that a billboard, or a heading on billboards, reads is the one that it stages. -/
theorem matrix_inputs_of_staged [Scalar α] [Field K] {m : Machine K} {value : α → K}
    {d d' : Compilation α} {frame : Frame α} {a : Mat3 α} (hcatalogue : n.behavior.IsCatalogue)
    (hcode : Leads n.code c p c') (htaken : c.taken.vertexConstants ≤ c.used.vertexConstants)
    (hd : c'.Prepares d n.id) (hstaged : Leads (n.writeConstants frame) d () d')
    (hrows : n.behavior.staged d.features frame = .ok (matrixRows a))
    (hkind : n.parameterKind = .vertexConstant) (hholds : m.Holds value d') :
    (c'.inputs m n).matrix = a.toMatrix value := by
  have hplaced := placed_of_prepares hcatalogue hcode htaken hd
  have hrun := run_writeConstants hcatalogue hd.sized hplaced frame
  rw [hrows, stagesRows_ok] at hrun
  have hpart : (Slot.value, 3) ∈ (n.behavior.needs d.features).filterMap Need.constants? := by
    rw [← staged_needs hrows]
    exact List.mem_cons_self
  obtain ⟨index, hindex, hstageable⟩ : ∃ index, d.index? n.id Slot.value = some index ∧
      d.Stageable index 3 := hplaced _ hpart
  rw [matrixRows, writes_singleton hindex] at hrun
  obtain rfl := hstaged.after_eq.symm.trans hrun.after_eq
  have hremembers : c'.Remembers n Slot.value ⟨.vertexConstant, index, none⟩ :=
    ⟨rfl, (hd.index Slot.value).symm.trans hindex⟩
  rw [matrix_inputs hremembers hkind.symm]
  exact matrixAt_of_staged hstageable rfl hholds

/-- **Orientations turn all targets alike**: let a compilation begin with different whole
temporaries as targets, and let an orientation write its code in any later state that gave none of
them back, as in the vertex code of every set (`Sequence.Written.retains`). On every machine that
holds null, one and two the code takes what each target held in its first three components through
the map of the orientation, and changes nothing else that was in use. The matrix of a billboard, and
that of a heading on billboards, is the one that the node stages for a frame. -/
theorem turns_targets {profile : Profile} {pass : Pass} {features : Features}
    {sourceNames targetNames : List String}
    (htargets : targetNames.mapM Register.ofName = .ok (targets.map Register.temporary))
    (hnodup : targets.Nodup)
    (hreset : Leads (reset profile pass features sourceNames targetNames) c₀ () c₁)
    (hretains : c₁.Retains c) (h : n.behavior.IsOrientation)
    (hcode : Leads n.vertexCode c p c') :
    ∃ shared, c.shared = some shared ∧
      ∀ {K : Type} [Field K] (m : Machine K),
        (∀ [LinearOrder K] [FloorRing K] (F : Primitives K),
          m .vertexConstant pass.taken.vertexConstants = .helper →
          Turned (n.behavior.orientation F c.features.billboard (c'.inputs m n)
            (m.read shared.time .x) (shared.velocityIn m)) targets c.free m (p.exec F m)) ∧
        ∀ [Scalar α] (value : α → K) (d d' : Compilation α) (frame : Frame α),
          c'.Prepares d n.id → Leads (n.writeConstants frame) d () d' → m.Holds value d' →
            (∀ axis, n.behavior = .billboard axis →
              (c'.inputs m n).matrix = (billboardRotation axis frame.camera).toMatrix value) ∧
            (n.behavior = .rotateToHeading → c.features.billboard = true →
              (c'.inputs m n).matrix = frame.camera.toMatrix value) := by
  obtain ⟨P, haims, hhelper⟩ := NodeSet.aims_of_reset htargets hnodup hreset
  have haims' := haims.retains hretains
  have hcatalogue := isCatalogue_of_isOrientation h
  refine ⟨P.shared, haims'.shared, fun m => ⟨fun F hm => ?_, fun value d d' frame hd hstaged
    hholds => ?_⟩⟩
  · exact turned_vertexCode h hcode haims' F (hhelper ▸ hm)
  · have htaken : c.taken.vertexConstants ≤ c.used.vertexConstants := by
      obtain ⟨_, _, _, -, -, hopened⟩ := NodeSet.opened_of_reset hreset
      have hpass : c₁.taken = pass.taken := (NodeSet.ledger_of_reset hreset).2.1
      rw [hretains.taken, hpass]
      exact (Nat.le_succ _).trans (hopened.constants.ge.trans hretains.constants)
    have hall : Leads n.code c (p ++ []) c' := by
      refine leads_code.mpr ⟨p, c', [], hcode, ?_, rfl⟩
      unfold Node.uvCode
      cases hbehavior : n.behavior <;> simp_all [IsOrientation]
    refine ⟨fun axis hbehavior => ?_, fun hbehavior hbillboard => ?_⟩
    · refine matrix_inputs_of_staged hcatalogue hall htaken hd hstaged ?_ ?_ hholds
      · rw [hbehavior]
        rfl
      · rw [parameterKind, hbehavior]
        rfl
    · have hfeatures : d.features.billboard = true := by
        rw [hd.features, (records_vertexCode hcatalogue hcode).features, hbillboard]
      refine matrix_inputs_of_staged hcatalogue hall htaken hd hstaged ?_ ?_ hholds
      · rw [hbehavior, Behavior.staged, hfeatures, if_pos rfl]
      · rw [parameterKind, hbehavior]
        rfl

end Node

/-- A billboard that faces the camera. -/
def facing : Node Rat where
  behavior := .billboard none
  id := 1

/-- A camera that is turned by a quarter. -/
def quarterTurned : Frame Rat where
  time := 0
  camera := ⟨⟨0, 1, 0⟩, ⟨-1, 0, 0⟩, ⟨0, 0, 1⟩⟩

/-- A compilation of billboards with a vertex and a direction. -/
def twoTargets : Compilation Rat :=
  ({ profile := .standard } : Compilation Rat).after
    (reset .baseline {} { billboard := true } ["va0", "va1"] ["vt2", "vt0"])

/-- The same compilation when the code of the billboard is written and its constants are staged. -/
def facingStaged : Compilation Rat :=
  ((twoTargets.after facing.vertexCode).after do
    [Phase.init, .primary, .combine, .post, .colorInit, .color, .colorCombine].forM enter
    finish).after (facing.writeConstants quarterTurned)

/-- A machine of which the constants are the staged rows. -/
def stagedMachine (c : Compilation Rat) : Machine Rat := fun kind index =>
  if kind = .vertexConstant then fun k => ((c.row? index).getD Vec4.zero).get k else fun _ => 1

theorem holds_stagedMachine (c : Compilation Rat) : (stagedMachine c).Holds id c := by
  intro index row _ hrow
  show (fun k => ((c.row? index).getD Vec4.zero).get k) = _
  rw [hrow]
  rfl

/-- The vertex and a direction are turned towards the camera. -/
theorem facing_turns_targets : ∃ p c',
    Leads (reset .baseline {} { billboard := true } ["va0", "va1"] ["vt2", "vt0"])
      { profile := .standard } () twoTargets ∧
    Leads facing.vertexCode twoTargets p c' ∧
    ∀ F : Primitives Rat, Turned (quarterTurned.camera.transpose.toMatrix id).mulVecLin [2, 0]
      twoTargets.free (stagedMachine facingStaged) (p.exec F (stagedMachine facingStaged)) := by
  obtain ⟨_, c₁, hreset⟩ := exists_leads
    (x := reset .baseline {} { billboard := true } ["va0", "va1"] ["vt2", "vt0"])
    (s := ({ profile := .standard } : Compilation Rat)) (by decide +kernel)
  obtain rfl : twoTargets = c₁ := hreset.after_eq
  obtain ⟨p, c', hcode⟩ := exists_leads (x := facing.vertexCode) (s := twoTargets)
    (by decide +kernel)
  obtain ⟨_, d, hd⟩ := exists_leads (x := do
      [Phase.init, .primary, .combine, .post, .colorInit, .color, .colorCombine].forM enter
      finish) (s := twoTargets.after facing.vertexCode) (by decide +kernel)
  obtain ⟨_, d', hstaged⟩ := exists_leads (x := facing.writeConstants quarterTurned)
    (s := (twoTargets.after facing.vertexCode).after do
      [Phase.init, .primary, .combine, .post, .colorInit, .color, .colorCombine].forM enter
      finish) (by decide +kernel)
  obtain rfl : facingStaged = d' := hstaged.after_eq
  have hprepares : (twoTargets.after facing.vertexCode).Prepares
      ((twoTargets.after facing.vertexCode).after do
        [Phase.init, .primary, .combine, .post, .colorInit, .color, .colorCombine].forM enter
        finish) facing.id := {
    features := by decide +kernel
    taken := by decide +kernel
    index := fun slot => rfl
    rows := by decide +kernel
    sized := (by decide +kernel : _ + _ ≤ _) }
  rw [hcode.after_eq] at hprepares hstaged
  have htargets : ["vt2", "vt0"].mapM Register.ofName = .ok ([2, 0].map Register.temporary) := rfl
  obtain ⟨shared, -, hturns⟩ := Node.turns_targets htargets (by decide) hreset (.refl _)
    (by exact trivial) hcode
  obtain ⟨hturned, hmatrix⟩ := hturns (stagedMachine facingStaged)
  obtain ⟨hfacing, -⟩ := hmatrix id _ _ _ hprepares hstaged (holds_stagedMachine _)
  refine ⟨p, c', hreset, hcode, fun F => ?_⟩
  have hhelper : stagedMachine facingStaged .vertexConstant 0 = .helper := by
    have hrow : facingStaged.row? 0 = some ⟨0, 1, 2, 0⟩ := by decide +kernel
    funext k
    show ((facingStaged.row? 0).getD Vec4.zero).get k = _
    rw [hrow]
    cases k <;> rfl
  have hmap : ∀ time velocity, facing.behavior.orientation F twoTargets.features.billboard
      (c'.inputs (stagedMachine facingStaged) facing) time velocity =
        (c'.inputs (stagedMachine facingStaged) facing).matrix.mulVecLin := fun _ _ => rfl
  have hall := hturned F hhelper
  rw [hmap, hfacing none rfl] at hall
  exact hall

end ParticleShader
