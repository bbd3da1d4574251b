import ParticleShader.Proofs.Instruction.Primitives
import ParticleShader.Proofs.Instruction.Within
import ParticleShader.Proofs.Node.Computation

/-!
# What orientations do to the targets

A rotation around an axis, a rotation along the velocity and a billboard have one linear map each.
Their programs work the map out and apply it to one target after another: the vertex, and every
direction. What a target held before goes through the map, and neither the code for one target nor
what it leaves in the scratch temporaries reaches another one (`turned_flatMap`). All of them find
what was worked out in front of them (`turned_prepared`).
-/

namespace ParticleShader

open Statement Matrix

variable {K : Type}

/-! ### Linear maps -/

section

variable [Field K]

/-- The rotation around an axis by an angle with this sine and cosine. -/
def spinMap (axis : Fin 3 → K) (sin cos : K) : (Fin 3 → K) →ₗ[K] Fin 3 → K where
  toFun := rotate axis sin cos
  map_add' u v := by
    simp only [rotate, map_add, dotProduct_add]
    module
  map_smul' k v := by
    simp only [rotate, map_smul, dotProduct_smul, smul_eq_mul, RingHom.id_apply]
    module

/-- The rotation in the plane of the screen, from the first axis to a heading. -/
def screenMap (heading : Fin 3 → K) : (Fin 3 → K) →ₗ[K] Fin 3 → K where
  toFun := turn heading
  map_add' u v := by
    ext i
    fin_cases i <;> simp [turn] <;> ring
  map_smul' k v := by
    ext i
    fin_cases i <;> simp [turn] <;> ring

/-- The map that takes the axes to a basis. -/
def basisMap (heading up side : Fin 3 → K) : (Fin 3 → K) →ₗ[K] Fin 3 → K where
  toFun := carry heading up side
  map_add' u v := by
    simp only [carry, Pi.add_apply]
    module
  map_smul' k v := by
    simp only [carry, Pi.smul_apply, smul_eq_mul, RingHom.id_apply]
    module

@[simp] theorem spinMap_apply (axis v : Fin 3 → K) (sin cos : K) :
    spinMap axis sin cos v = rotate axis sin cos v := rfl

@[simp] theorem screenMap_apply (heading v : Fin 3 → K) : screenMap heading v = turn heading v :=
  rfl

@[simp] theorem basisMap_apply (heading up side v : Fin 3 → K) :
    basisMap heading up side v = carry heading up side v := rfl

/-- The basis along a velocity: the direction beside it lies in the plane of the ground, and the
third is the vector product of the two. -/
def headingMap (F : Primitives K) (velocity : Fin 3 → K) : (Fin 3 → K) →ₗ[K] Fin 3 → K :=
  let heading := F.nrm velocity
  let side := F.nrm (vectorProduct heading ![0, 1, 0])
  basisMap heading (vectorProduct side heading) side

end

/-! ### What is turned -/

/-- Registers hold what they held, unless they are certain temporaries. -/
def Machine.SameOff (indices : List Nat) (m m' : Machine K) : Prop :=
  ∀ kind index, (kind = .vertexTemporary → index ∉ indices) → m' kind index = m kind index

/-- A map was applied to what every target held in its first three components. The fourth is what
it was, and nothing else has changed but scratch temporaries. -/
structure Turned (L : (Fin 3 → K) → Fin 3 → K) (targets scratch : List Nat)
    (m m' : Machine K) : Prop where
  /-- The first three components of the targets. -/
  xyz : ∀ t ∈ targets, (m' .vertexTemporary t).xyz = L (m .vertexTemporary t).xyz
  /-- The fourth component. -/
  w : ∀ t ∈ targets, m' .vertexTemporary t .w = m .vertexTemporary t .w
  /-- All other registers. -/
  others : m.SameOff (targets ++ scratch) m'

namespace Machine.SameOff

variable {m m' m'' : Machine K} {indices indices' : List Nat}

theorem refl (m : Machine K) : m.SameOff indices m := fun _ _ _ => rfl

theorem mono (h : m.SameOff indices m') (hsub : ∀ i ∈ indices, i ∈ indices') :
    m.SameOff indices' m' :=
  fun kind index hoff => h kind index fun hkind hi => hoff hkind (hsub index hi)

theorem trans (h : m.SameOff indices m') (h' : m'.SameOff indices m'') :
    m.SameOff indices m'' :=
  fun kind index hoff => (h' kind index hoff).trans (h kind index hoff)

theorem temporary (h : m.SameOff indices m') {index : Nat} (hindex : index ∉ indices) :
    m' .vertexTemporary index = m .vertexTemporary index :=
  h .vertexTemporary index fun _ => hindex

theorem other (h : m.SameOff indices m') {kind : Register.Kind} (hkind : kind ≠ .vertexTemporary)
    (index : Nat) : m' kind index = m kind index :=
  h kind index fun h' => absurd h' hkind

end Machine.SameOff

namespace Turned

variable {L : (Fin 3 → K) → Fin 3 → K} {targets scratch : List Nat} {m m' m'' : Machine K}
  {t : Nat}

theorem nil (m : Machine K) : Turned L [] scratch m m := ⟨nofun, nofun, .refl m⟩

/-- One target is turned and then the others. -/
theorem cons (h : Turned L [t] scratch m m') (h' : Turned L targets scratch m' m'')
    (hnodup : t ∉ targets) (hscratch : ∀ u ∈ t :: targets, u ∉ scratch) :
    Turned L (t :: targets) scratch m m'' := by
  have hlater : m'' .vertexTemporary t = m' .vertexTemporary t :=
    h'.others.temporary fun hi =>
      (List.mem_append.mp hi).elim hnodup (hscratch t List.mem_cons_self)
  have hfirst : ∀ u ∈ targets, m' .vertexTemporary u = m .vertexTemporary u := fun u hu =>
    h.others.temporary fun hi => (List.mem_append.mp hi).elim
      (fun hsame => hnodup (List.mem_singleton.mp hsame ▸ hu))
      (hscratch u (List.mem_cons_of_mem _ hu))
  refine ⟨List.forall_mem_cons.mpr ⟨?_, fun u hu => ?_⟩,
    List.forall_mem_cons.mpr ⟨?_, fun u hu => ?_⟩, ?_⟩
  · rw [hlater, h.xyz t List.mem_cons_self]
  · rw [h'.xyz u hu, hfirst u hu]
  · rw [hlater, h.w t List.mem_cons_self]
  · rw [h'.w u hu, hfirst u hu]
  · refine (h.others.mono fun i hi => ?_).trans (h'.others.mono fun i hi => ?_)
    · exact (List.mem_append.mp hi).elim
        (fun hsame => List.mem_append_left _ (List.mem_singleton.mp hsame ▸ List.mem_cons_self))
        (List.mem_append_right _)
    · exact List.mem_cons_of_mem _ hi

theorem mono {scratch' : List Nat} (h : Turned L targets scratch m m')
    (hsub : ∀ i ∈ scratch, i ∈ scratch') : Turned L targets scratch' m m' :=
  ⟨h.xyz, h.w, h.others.mono fun i hi => (List.mem_append.mp hi).elim (List.mem_append_left _)
    fun hi => List.mem_append_right _ (hsub i hi)⟩

end Turned

/-- What is worked out first may use scratch temporaries of its own. -/
theorem Machine.SameOff.turned {L : (Fin 3 → K) → Fin 3 → K} {targets scratch before : List Nat}
    {m m' m'' : Machine K} (hprepared : m.SameOff before m')
    (h : Turned L targets scratch m' m'') (hbefore : ∀ t ∈ targets, t ∉ before) :
    Turned L targets (before ++ scratch) m m'' := by
  refine ⟨fun t ht => ?_, fun t ht => ?_, ?_⟩
  · rw [h.xyz t ht, hprepared.temporary (hbefore t ht)]
  · rw [h.w t ht, hprepared.temporary (hbefore t ht)]
  · refine (hprepared.mono fun i hi => ?_).trans (h.others.mono fun i hi => ?_)
    · exact List.mem_append_right _ (List.mem_append_left _ hi)
    · exact (List.mem_append.mp hi).elim (List.mem_append_left _)
        fun hi => List.mem_append_right _ (List.mem_append_right _ hi)

section

variable [Field K] [LinearOrder K] [FloorRing K] {F : Primitives K} {m : Machine K}
  {L : (Fin 3 → K) → Fin 3 → K} {targets scratch : List Nat} {p : Program}

/-- A program that writes some temporaries alone leaves the rest as it is. -/
theorem Program.Within.sameOff (h : p.Within scratch) (hlocal : p.Local) :
    m.SameOff scratch (p.exec F m) :=
  fun _ _ hoff => exec_of_spares (h.spares hlocal hoff)

/-- **One target after another**: if the code of each target turns this target wherever all but the
targets and some scratch temporaries is what it was, the code of all of them turns every target. -/
theorem turned_flatMap {f : Nat → Program} (hnodup : targets.Nodup)
    (hscratch : ∀ t ∈ targets, t ∉ scratch)
    (hone : ∀ t ∈ targets, ∀ m', m.SameOff (targets ++ scratch) m' →
      Turned L [t] scratch m' ((f t).exec F m')) :
    Turned L targets scratch m (Program.exec F (targets.flatMap f) m) := by
  -- The induction is on the targets that are left, from any registers that the others may leave.
  suffices h : ∀ left : List Nat, left.Nodup → (∀ t ∈ left, t ∈ targets) → ∀ m',
      m.SameOff (targets ++ scratch) m' →
        Turned L left scratch m' (Program.exec F (left.flatMap f) m') from
    h targets hnodup (fun _ ht => ht) m (.refl m)
  intro left
  induction left with
  | nil => exact fun _ _ m' _ => .nil m'
  | cons t left ih =>
    intro hleft hsub m' hm'
    obtain ⟨ht, hrest⟩ := List.nodup_cons.mp hleft
    obtain ⟨htarget, htargets⟩ := List.forall_mem_cons.mp hsub
    have hfirst := hone t htarget m' hm'
    have hsame : m'.SameOff (targets ++ scratch) ((f t).exec F m') :=
      hfirst.others.mono fun i hi => (List.mem_append.mp hi).elim
        (fun hone => List.mem_append_left _ (List.mem_singleton.mp hone ▸ htarget))
        (List.mem_append_right _)
    rw [List.flatMap_cons, Program.exec_append]
    exact hfirst.cons (ih hrest htargets _ (hm'.trans hsame)) ht fun u hu =>
      hscratch u (hsub u hu)

/-- **Preparations first**: code in front of that of the targets may work out some temporaries, and
the code of each target finds them as they were left. -/
theorem turned_prepared {header : Program} {f : Nat → Program} {before : List Nat}
    (hwithin : header.Within before) (hlocal : header.Local) (hnodup : targets.Nodup)
    (hscratch : (before ++ scratch).Nodup) (hapart : ∀ t ∈ targets, t ∉ before ++ scratch)
    (hone : ∀ t ∈ targets, ∀ m' : Machine K,
      (∀ i ∈ before, m' .vertexTemporary i = header.exec F m .vertexTemporary i) →
      (∀ kind index, kind ≠ .vertexTemporary → m' kind index = m kind index) →
      Turned L [t] scratch m' ((f t).exec F m')) :
    Turned L targets (before ++ scratch) m (Program.exec F (header ++ targets.flatMap f) m) := by
  have hsame : m.SameOff before (header.exec F m) := hwithin.sameOff hlocal
  rw [Program.exec_append]
  refine hsame.turned (turned_flatMap hnodup (fun t ht hi => ?_) fun t ht m' hm' => ?_)
    fun t ht hi => hapart t ht (List.mem_append_left _ hi)
  · exact hapart t ht (List.mem_append_right _ hi)
  · refine hone t ht m' (fun i hi => hm'.temporary fun hi' => ?_) fun kind index hkind => ?_
    · exact (List.mem_append.mp hi').elim (fun h => hapart i h (List.mem_append_left _ hi))
        (List.disjoint_of_nodup_append hscratch hi)
    · rw [hm'.other hkind, hsame.other hkind]

end

/-! ### The programs -/

/-- A vector comes back out of the first three components. -/
theorem Value.xyz_ofVector [Zero K] (v : Fin 3 → K) : (Value.ofVector v).xyz = v := by
  ext i
  fin_cases i <;> rfl

namespace Behavior

variable [Field K] [LinearOrder K] [FloorRing K] {F : Primitives K} {m : Machine K} {P : Layout}
  {value matrix : Register} {targets : List Nat}
  {angle cross parallel heading side up sum temp t : Nat}

theorem turned_spinProgram (hdistinct : Distinct [t, angle, cross, parallel])
    (hvalue : value.kind ≠ .vertexTemporary) (hhelper : m .vertexConstant P.helper = .helper) :
    Turned (spinMap (m value.kind value.index).xyz (m .vertexTemporary angle .y)
      (m .vertexTemporary angle .z)) [t] [cross, parallel] m
      (Program.exec F (spinProgram value (.temporary angle) P.shared.one (.temporary cross)
        (.temporary parallel) (.temporary t)) m) := by
  simp only [Distinct, List.pairwise_cons, List.forall_mem_cons] at hdistinct
  refine ⟨List.forall_mem_singleton.mpr ?_, List.forall_mem_singleton.mpr ?_,
    Program.Within.sameOff (by simp [spinProgram]) (by simp [spinProgram])⟩
  · simp [spinProgram, rotate, crossProduct, Value.xyz, Value.ofVector, hhelper, Value.helper,
      hdistinct, hvalue]
    and_intros <;> ring
  · simp [spinProgram, hdistinct]

theorem turned_planeTurnProgram (hdistinct : Distinct [t, heading, temp]) :
    Turned (screenMap (m .vertexTemporary heading).xyz) [t] [temp] m
      (Program.exec F (planeTurnProgram (.temporary heading) (.temporary temp) (.temporary t))
        m) := by
  simp only [Distinct, List.pairwise_cons, List.forall_mem_cons] at hdistinct
  refine ⟨List.forall_mem_singleton.mpr ?_, List.forall_mem_singleton.mpr ?_,
    Program.Within.sameOff (by simp [planeTurnProgram]) (by simp [planeTurnProgram])⟩
  · simp [planeTurnProgram, turn, Value.xyz, hdistinct]
  · simp [planeTurnProgram, hdistinct]

theorem turned_basisProgram (hdistinct : Distinct [t, heading, side, up, sum, temp]) :
    Turned (basisMap (m .vertexTemporary heading).xyz (m .vertexTemporary up).xyz
      (m .vertexTemporary side).xyz) [t] [sum, temp] m
      (Program.exec F (basisProgram (.temporary heading) (.temporary up) (.temporary side)
        (.temporary sum) (.temporary temp) (.temporary t)) m) := by
  simp only [Distinct, List.pairwise_cons, List.forall_mem_cons] at hdistinct
  refine ⟨List.forall_mem_singleton.mpr ?_, List.forall_mem_singleton.mpr ?_,
    Program.Within.sameOff (by simp [basisProgram]) (by simp [basisProgram])⟩
  · simp [basisProgram, carry, Value.xyz, hdistinct, mul_comm]
  · simp [basisProgram, hdistinct]

/-- The rows of a matrix that lie in three registers one behind the other. -/
def matrixAt (m : Machine K) (r : Register) : Matrix (Fin 3) (Fin 3) K :=
  .of ![(m r.kind r.index).xyz, (m r.kind (r.index + 1)).xyz, (m r.kind (r.index + 2)).xyz]

theorem turned_facingProgram (hdistinct : Distinct [t, temp]) (hwhole : matrix.component = none) :
    Turned (matrixAt m matrix).mulVecLin [t] [temp] m
      (Program.exec F [m33 (Register.temporary temp).xyz (Register.temporary t).xyz matrix,
        mov (Register.temporary t).xyz (Register.temporary temp).xyz] m) := by
  simp only [Distinct, List.pairwise_cons, List.forall_mem_cons] at hdistinct
  refine ⟨List.forall_mem_singleton.mpr ?_, List.forall_mem_singleton.mpr ?_,
    Program.Within.sameOff (by simp) (by simp)⟩
  · rw [Matrix.mulVecLin_apply, matrixAt, Matrix.cons_mulVec, Matrix.cons_mulVec,
      Matrix.cons_mulVec, Matrix.empty_mulVec]
    simp [Value.xyz, Value.ofVector, Register.operand_of_whole hwhole]
  · simp [hdistinct]

/-! ### The programs for all targets -/

section

variable (horiented : P.shared.oriented = targets.map Register.temporary) (hnodup : targets.Nodup)
include horiented hnodup

theorem turned_rotationalVelocityProgram (hscratch : [angle, cross, parallel].Nodup)
    (hapart : ∀ t ∈ targets, t ∉ [angle, cross, parallel]) (hvalue : value.kind ≠ .vertexTemporary)
    (hhelper : m .vertexConstant P.helper = .helper) :
    let turned := m.read P.shared.time .x * m value.kind value.index .w
    Turned (spinMap (m value.kind value.index).xyz (F.sin turned) (F.cos turned)) targets
      [angle, cross, parallel] m
      (Program.exec F (rotationalVelocityProgram P.shared value (.temporary angle)
        (.temporary cross) (.temporary parallel)) m) := by
  intro turned
  rw [rotationalVelocityProgram, horiented, List.flatMap_map]
  obtain ⟨header, hheader⟩ : ∃ header : Program, header =
      [mul (Register.temporary angle).x P.shared.time value.w,
       sin (Register.temporary angle).y (Register.temporary angle).x,
       cos (Register.temporary angle).z (Register.temporary angle).x] := ⟨_, rfl⟩
  rw [← hheader]
  have hsin : header.exec F m .vertexTemporary angle .y = F.sin turned := by
    simp [hheader, turned]
  have hcos : header.exec F m .vertexTemporary angle .z = F.cos turned := by
    simp [hheader, turned]
  show Turned _ targets ([angle] ++ [cross, parallel]) m _
  refine turned_prepared (by simp [hheader]) (by simp [hheader]) hnodup hscratch hapart
    fun t ht m' hangle hother => ?_
  have hspin := turned_spinProgram (F := F) (m := m') (P := P)
    (distinct_iff_nodup.mpr (List.nodup_cons.mpr ⟨hapart t ht, hscratch⟩)) hvalue
    (by rw [hother _ _ Register.Kind.noConfusion, hhelper])
  rwa [hangle angle (.head _), hsin, hcos, hother _ _ hvalue] at hspin

theorem turned_screenHeadingProgram (total : Nat) (hscratch : [heading, temp].Nodup)
    (hapart : ∀ t ∈ targets, t ∉ [heading, temp]) (hwhole : matrix.component = none)
    (hhelper : m .vertexConstant P.helper = .helper) :
    Turned (screenMap (F.nrm (onScreen (matrixAt m matrix *ᵥ (m .vertexTemporary total).xyz))))
      targets [heading, temp] m
      (Program.exec F (screenHeadingProgram P.shared (.temporary total) matrix (.temporary heading)
        (.temporary temp)) m) := by
  rw [screenHeadingProgram, horiented, List.flatMap_map]
  obtain ⟨header, hheader⟩ : ∃ header : Program, header =
      [m33 (Register.temporary heading).xyz (Register.temporary total).xyz matrix,
       mov (Register.temporary heading).z P.shared.zero,
       nrm (Register.temporary heading).xyz (Register.temporary heading).xyz] := ⟨_, rfl⟩
  rw [← hheader]
  have hahead : (header.exec F m .vertexTemporary heading).xyz =
      F.nrm (onScreen (matrixAt m matrix *ᵥ (m .vertexTemporary total).xyz)) := by
    rw [matrixAt, Matrix.cons_mulVec, Matrix.cons_mulVec, Matrix.cons_mulVec, Matrix.empty_mulVec]
    simp [hheader, onScreen, Value.xyz, Value.ofVector, hhelper, Value.helper,
      Register.operand_of_whole hwhole]
    exact Value.xyz_ofVector _
  show Turned _ targets ([heading] ++ [temp]) m _
  refine turned_prepared (by simp [hheader]) (by simp [hheader]) hnodup hscratch hapart
    fun t ht m' hheading _ => ?_
  have hturn := turned_planeTurnProgram (F := F) (m := m')
    (distinct_iff_nodup.mpr (List.nodup_cons.mpr ⟨hapart t ht, hscratch⟩))
  rwa [hheading heading (.head _), hahead] at hturn

theorem turned_spaceHeadingProgram (total : Nat) (hscratch : [heading, side, up, sum, temp].Nodup)
    (hapart : ∀ t ∈ targets, t ∉ [heading, side, up, sum, temp])
    (hhelper : m .vertexConstant P.helper = .helper) :
    Turned (headingMap F (m .vertexTemporary total).xyz) targets [heading, side, up, sum, temp] m
      (Program.exec F (spaceHeadingProgram P.shared (.temporary total) (.temporary heading)
        (.temporary side) (.temporary up) (.temporary sum) (.temporary temp)) m) := by
  rw [spaceHeadingProgram, horiented, List.flatMap_map]
  obtain ⟨header, hheader⟩ : ∃ header : Program, header =
      [nrm (Register.temporary heading).xyz (Register.temporary total).xyz,
       crs (Register.temporary side).xyz (Register.temporary heading).xyz
         (P.shared.zero.select [.x, .y, .x]),
       nrm (Register.temporary side).xyz (Register.temporary side).xyz,
       crs (Register.temporary up).xyz (Register.temporary side).xyz
         (Register.temporary heading).xyz] := ⟨_, rfl⟩
  rw [← hheader]
  have hdistinct := distinct_iff_nodup.mpr hscratch
  simp only [Distinct, List.pairwise_cons, List.forall_mem_cons] at hdistinct
  have hahead : (header.exec F m .vertexTemporary heading).xyz =
      F.nrm (m .vertexTemporary total).xyz := by
    simp [hheader, Value.xyz, Value.ofVector, hdistinct]
    exact Value.xyz_ofVector _
  have hside : (header.exec F m .vertexTemporary side).xyz =
      F.nrm (vectorProduct (F.nrm (m .vertexTemporary total).xyz) ![0, 1, 0]) := by
    simp [hheader, Value.xyz, Value.ofVector, vectorProduct, crossProduct, hhelper, Value.helper,
      hdistinct]
    exact Value.xyz_ofVector _
  have hup : (header.exec F m .vertexTemporary up).xyz =
      vectorProduct (header.exec F m .vertexTemporary side).xyz
        (header.exec F m .vertexTemporary heading).xyz := by
    ext i
    fin_cases i <;>
      simp [hheader, Value.xyz, Value.ofVector, vectorProduct, crossProduct, hhelper,
        Value.helper, hdistinct]
  show Turned _ targets ([heading, side, up] ++ [sum, temp]) m _
  refine turned_prepared (by simp [hheader]) (by simp [hheader]) hnodup hscratch hapart
    fun t ht m' hkept _ => ?_
  have hbasis := turned_basisProgram (F := F) (m := m')
    (distinct_iff_nodup.mpr (List.nodup_cons.mpr ⟨hapart t ht, hscratch⟩))
  rw [hkept heading (by simp), hkept side (by simp), hkept up (by simp), hup, hside, hahead]
    at hbasis
  exact hbasis

theorem turned_billboardProgram (hapart : ∀ t ∈ targets, t ∉ [temp])
    (hwhole : matrix.component = none) (hmatrix : matrix.kind ≠ .vertexTemporary) :
    Turned (matrixAt m matrix).mulVecLin targets [temp] m
      (Program.exec F (billboardProgram P.shared matrix (.temporary temp)) m) := by
  rw [billboardProgram, horiented, List.flatMap_map]
  refine turned_flatMap hnodup hapart fun t ht m' hm' => ?_
  have hturn := turned_facingProgram (F := F) (m := m') (distinct_iff_nodup.mpr
    (List.nodup_cons.mpr ⟨hapart t ht, List.nodup_singleton temp⟩)) hwhole
  have hrows : matrixAt m' matrix = matrixAt m matrix := by
    simp only [matrixAt, hm'.other hmatrix]
  rwa [hrows] at hturn

end

end Behavior

end ParticleShader
