import Mathlib.Data.List.Basic
import ParticleShader.Geometry.Builder
import ParticleShader.Proofs.Outcome

/-!
# Runs of accepted geometry

What the checks of a geometry establish for its runs: they come in the order of
the particles, every particle that has a run is counted, and every run ends inside
its partition.
-/

namespace ParticleShader

/-- A run covers a vertex of a partition, given by its position. -/
def Run.Covers (r : Run) (position vertex : Nat) : Prop :=
  r.partition = position ∧ r.first ≤ vertex ∧ vertex < r.first + r.count

namespace ParticleGeometry

/-- The geometries that are accepted from parts or built. -/
inductive Made : ParticleGeometry → Prop where
  /-- A geometry of given partitions and runs. -/
  | ofParts {sizes : List Nat} {runs : List Run} {particles : Nat} {ids ids' : IdSupply}
    {g : ParticleGeometry} : (ofParts sizes runs particles).run ids = .ok g ids' → Made g
  /-- A geometry of collected particles. -/
  | build {b : GeometryBuilder} {ids ids' : IdSupply} {g : ParticleGeometry} :
    b.build.run ids = .ok g ids' → Made g

/-- The runs come in the order of the particles, belong to particles that are
counted, and end inside partitions that exist. -/
structure Ordered (g : ParticleGeometry) : Prop where
  /-- No run of an earlier particle stands behind one of a later particle. -/
  ascending : g.runs.Pairwise fun r r' => r.particle ≤ r'.particle
  /-- The particle of a run is counted. -/
  counted : ∀ r ∈ g.runs, r.particle < g.particles
  /-- A run ends inside its partition. -/
  inside : ∀ r ∈ g.runs, ∃ p, g.partitions[r.partition]? = some p ∧ r.first + r.count ≤ p.vertices

/-! ### What the checks establish -/

/-- The first run of a list that passes the check. -/
theorem checkRuns_cons_eq_ok {sizes filled : Array Nat} {last : Nat} {run : Run} {rest : List Run}
    (h : checkRuns sizes last filled (run :: rest) = .ok ()) :
    last ≤ run.particle ∧
      (∃ size, sizes[run.partition]? = some size ∧ run.first + run.count ≤ size) ∧
      ∃ filled, checkRuns sizes run.particle filled rest = .ok () := by
  unfold checkRuns at h
  by_cases hlast : run.particle < last
  · simp only [if_pos hlast, Outcome.bind_eq_ok, Outcome.throw_eq_ok, false_and,
      exists_false] at h
  · refine ⟨Nat.le_of_not_lt hlast, ?_⟩
    simp only [if_neg hlast] at h
    split at h
    · rename_i size used hsize hused
      obtain ⟨stop, hstop, h⟩ := Outcome.bind_eq_ok.mp h
      obtain ⟨-, rfl⟩ := Size.add_eq_ok.mp hstop
      split at h
      · simp at h
      · exact ⟨⟨size, hsize, by omega⟩, _, h⟩
    · simp at h

theorem checkRuns_eq_ok {sizes filled : Array Nat} {runs : List Run} {last : Nat}
    (h : checkRuns sizes last filled runs = .ok ()) :
    (∀ r ∈ runs, last ≤ r.particle) ∧ runs.Pairwise (fun r r' => r.particle ≤ r'.particle) ∧
      ∀ r ∈ runs, ∃ size, sizes[r.partition]? = some size ∧ r.first + r.count ≤ size := by
  induction runs generalizing last filled with
  | nil => simp
  | cons run rest ih =>
    obtain ⟨hlast, hplace, _, hrest⟩ := checkRuns_cons_eq_ok h
    obtain ⟨hfrom, hascending, hinside⟩ := ih hrest
    refine ⟨fun r hr => ?_, List.pairwise_cons.mpr ⟨hfrom, hascending⟩, fun r hr => ?_⟩
    · rcases List.mem_cons.mp hr with rfl | hr
      · exact hlast
      · exact Nat.le_trans hlast (hfrom r hr)
    · rcases List.mem_cons.mp hr with rfl | hr
      · exact hplace
      · exact hinside r hr

theorem particlesOf_eq_ok {particles count : Nat} {runs : List Run}
    (hascending : runs.Pairwise fun r r' => r.particle ≤ r'.particle)
    (h : particlesOf particles runs = .ok count) : ∀ r ∈ runs, r.particle < count := by
  unfold particlesOf at h
  cases hlast : runs.getLast? with
  | none =>
    rw [List.getLast?_eq_none_iff] at hlast
    simp [hlast]
  | some last =>
    simp only [hlast, Outcome.bind_eq_ok, Outcome.pure_eq_ok] at h
    obtain ⟨next, hnext, rfl⟩ := h
    obtain ⟨-, rfl⟩ := Size.add_eq_ok.mp hnext
    obtain ⟨front, rfl⟩ := List.getLast?_eq_some_iff.mp hlast
    intro r hr
    rcases List.mem_append.mp hr with hr | hr
    · have := (List.pairwise_append.mp hascending).2.2 r hr last (List.mem_singleton_self last)
      omega
    · rw [List.mem_singleton] at hr
      subst hr
      omega

end ParticleGeometry

/-! ### New identities -/

namespace IdSupply

variable {ids ids' : IdSupply}

/-- Whether identities are left for so many partitions. -/
def HasPartitions (ids : IdSupply) (count : Nat) : Prop :=
  count = 0 ∨ ids.partition + count ≤ limit

instance (count : Nat) : Decidable (ids.HasPartitions count) :=
  inferInstanceAs (Decidable (_ ∨ _))

/-- Whether identities are left for a geometry of so many partitions. -/
structure HasGeometry (ids : IdSupply) (partitions : Nat) : Prop where
  /-- For its partitions. -/
  partitions : ids.HasPartitions partitions
  /-- For the geometry. -/
  geometry : ids.geometry < limit

theorem hasPartitions_succ {count : Nat} :
    ids.HasPartitions (count + 1) ↔ ids.partition < limit ∧
      HasPartitions { ids with partition := ids.partition + 1 } count := by
  have hcount (next : Nat) : count + 1 = 0 ∨ next + (count + 1) ≤ limit ↔
      next < limit ∧ (count = 0 ∨ next + 1 + count ≤ limit) := by omega
  exact hcount ids.partition

end IdSupply

variable {ids ids' : IdSupply}

@[simp] theorem leads_freshPartition {vertices : Nat} {part : Partition} :
    Leads (freshPartition vertices) ids part ids' ↔
      ids.partition < IdSupply.limit ∧ part = ⟨ids.partition, vertices⟩ ∧
        ids' = { ids with partition := ids.partition + 1 } := by
  unfold freshPartition
  rw [leads_get_bind]
  by_cases hleft : ids.partition < IdSupply.limit
  · simp [hleft, eq_comm, and_comm]
  · simp [hleft]

@[simp] theorem leads_freshGeometry {id : GeometryId} :
    Leads freshGeometry ids id ids' ↔
      ids.geometry < IdSupply.limit ∧ id = ids.geometry ∧
        ids' = { ids with geometry := ids.geometry + 1 } := by
  unfold freshGeometry
  rw [leads_get_bind]
  by_cases hleft : ids.geometry < IdSupply.limit
  · simp [hleft, eq_comm, and_comm]
  · simp [hleft]

theorem run_freshPartition_of_not_lt {vertices : Nat} (h : ¬ ids.partition < IdSupply.limit) :
    (freshPartition vertices).run ids = .error .sizeOverflow ids := by
  show (if _ then _ else _ : Identified Partition).run ids = _
  rw [if_neg h]
  rfl

theorem run_freshGeometry_of_not_lt (h : ¬ ids.geometry < IdSupply.limit) :
    freshGeometry.run ids = .error .sizeOverflow ids := by
  show (if _ then _ else _ : Identified GeometryId).run ids = _
  rw [if_neg h]
  rfl

/-- Partitions of given sizes with consecutive identities. -/
def partitionsFrom (first : PartitionId) (sizes : List Nat) : List Partition :=
  (sizes.zipIdx first).map fun part => ⟨part.2, part.1⟩

theorem partitionsFrom_cons (first : PartitionId) (size : Nat) (sizes : List Nat) :
    partitionsFrom first (size :: sizes) = ⟨first, size⟩ :: partitionsFrom (first + 1) sizes := rfl

@[simp] theorem map_vertices_partitionsFrom (first : PartitionId) (sizes : List Nat) :
    (partitionsFrom first sizes).map (·.vertices) = sizes := by
  rw [partitionsFrom, List.map_map]
  exact List.zipIdx_map_fst ..

@[simp] theorem map_id_partitionsFrom (first : PartitionId) (sizes : List Nat) :
    (partitionsFrom first sizes).map (·.id) = List.range' first sizes.length := by
  rw [partitionsFrom, List.map_map]
  exact List.zipIdx_map_snd ..

@[simp] theorem length_partitionsFrom (first : PartitionId) (sizes : List Nat) :
    (partitionsFrom first sizes).length = sizes.length := by
  rw [partitionsFrom, List.length_map, List.length_zipIdx]

/-- New partitions get the next identities, one after the other, as long as there are any. -/
theorem run_mapM_freshPartition (sizes : List Nat) (ids : IdSupply) :
    (sizes.mapM freshPartition).run ids =
      if ids.HasPartitions sizes.length then
        .ok (partitionsFrom ids.partition sizes)
          { ids with partition := ids.partition + sizes.length }
      else .error .sizeOverflow { ids with partition := max ids.partition IdSupply.limit } := by
  induction sizes generalizing ids with
  | nil => rfl
  | cons size sizes ih =>
    rw [List.mapM_cons, EStateM.run_bind, List.length_cons]
    by_cases hleft : ids.partition < IdSupply.limit
    · have hfirst : (freshPartition size).run ids =
          .ok ⟨ids.partition, size⟩ { ids with partition := ids.partition + 1 } :=
        leads_freshPartition.mpr ⟨hleft, rfl, rfl⟩
      have hcount : ids.partition + 1 + sizes.length = ids.partition + (sizes.length + 1) :=
        Nat.add_right_comm ..
      have hmax : max (ids.partition + 1) IdSupply.limit = max ids.partition IdSupply.limit := by
        rw [Nat.max_eq_right hleft, Nat.max_eq_right (Nat.le_of_lt hleft)]
      rw [hfirst]
      show (sizes.mapM freshPartition >>= _ : Identified (List Partition)).run _ = _
      rw [EStateM.run_bind, ih]
      by_cases hrest : IdSupply.HasPartitions { ids with partition := ids.partition + 1 } sizes.length
      · rw [if_pos hrest, if_pos (IdSupply.hasPartitions_succ.mpr ⟨hleft, hrest⟩),
          partitionsFrom_cons, ← hcount]
        rfl
      · rw [if_neg hrest, if_neg fun hall => hrest (IdSupply.hasPartitions_succ.mp hall).2, ← hmax]
    · rw [run_freshPartition_of_not_lt hleft,
        if_neg fun hall => hleft (IdSupply.hasPartitions_succ.mp hall).1,
        Nat.max_eq_left (Nat.le_of_not_lt hleft)]

namespace ParticleGeometry

variable {sizes : List Nat} {runs : List Run} {particles : Nat} {g : ParticleGeometry}

/-! ### Geometry of parts -/

/-- What the checks of given parts say: how many particles there are, or what is wrong. -/
def checkedCount (sizes : List Nat) (runs : List Run) (particles : Nat) : Except Fault Nat := do
  checkRuns sizes.toArray 0 (Array.replicate sizes.length 0) runs
  particlesOf particles runs

/-- The answer to given parts. The identities of the partitions are used up whatever the checks
say. -/
theorem run_ofParts (sizes : List Nat) (runs : List Run) (particles : Nat) (ids : IdSupply) :
    (ofParts sizes runs particles).run ids =
      if ids.HasPartitions sizes.length then
        match checkedCount sizes runs particles with
        | .error fault => .error fault ⟨ids.geometry, ids.partition + sizes.length⟩
        | .ok count =>
          if ids.geometry < IdSupply.limit then
            .ok ⟨ids.geometry, partitionsFrom ids.partition sizes, runs, count⟩
              ⟨ids.geometry + 1, ids.partition + sizes.length⟩
          else .error .sizeOverflow ⟨ids.geometry, ids.partition + sizes.length⟩
      else .error .sizeOverflow ⟨ids.geometry, max ids.partition IdSupply.limit⟩ := by
  have hchecked : checkedCount sizes runs particles = (do
      checkRuns sizes.toArray 0 (Array.replicate sizes.length 0) runs
      particlesOf particles runs) := rfl
  unfold ofParts
  rw [EStateM.run_bind, run_mapM_freshPartition]
  by_cases hparts : ids.HasPartitions sizes.length
  · simp only [if_pos hparts, ← hchecked]
    cases checkedCount sizes runs particles with
    | error fault => rfl
    | ok count =>
      simp only
      rw [EStateM.run_bind]
      by_cases hleft : ids.geometry < IdSupply.limit
      · have hid : freshGeometry.run { ids with partition := ids.partition + sizes.length } =
            .ok ids.geometry ⟨ids.geometry + 1, ids.partition + sizes.length⟩ :=
          leads_freshGeometry.mpr ⟨hleft, rfl, rfl⟩
        rw [if_pos hleft, hid]
        rfl
      · have hnone : ¬ (⟨ids.geometry, ids.partition + sizes.length⟩ : IdSupply).geometry <
            IdSupply.limit := hleft
        rw [if_neg hleft, run_freshGeometry_of_not_lt hnone]
  · simp only [if_neg hparts]

/-- Parts become a geometry if they pass the checks and there are identities for it. -/
theorem leads_ofParts :
    Leads (ofParts sizes runs particles) ids g ids' ↔
      ids.HasGeometry sizes.length ∧ ∃ count, checkedCount sizes runs particles = .ok count ∧
        g = ⟨ids.geometry, partitionsFrom ids.partition sizes, runs, count⟩ ∧
        ids' = ⟨ids.geometry + 1, ids.partition + sizes.length⟩ := by
  rw [Leads, run_ofParts]
  constructor
  · intro h
    split at h
    · rename_i hparts
      split at h
      · cases h
      · rename_i count hchecked
        split at h
        · rename_i hleft
          obtain ⟨rfl, rfl⟩ := EStateM.Result.ok.inj h
          exact ⟨⟨hparts, hleft⟩, count, hchecked, rfl, rfl⟩
        · cases h
    · cases h
  · rintro ⟨⟨hparts, hleft⟩, count, hchecked, rfl, rfl⟩
    rw [if_pos hparts, hchecked]
    exact if_pos hleft

theorem ordered_ofParts (h : Leads (ofParts sizes runs particles) ids g ids') : g.Ordered := by
  obtain ⟨-, count, hchecked, rfl, -⟩ := leads_ofParts.mp h
  obtain ⟨_, hruns, hcount⟩ := Outcome.bind_eq_ok.mp hchecked
  obtain ⟨-, hascending, hinside⟩ := checkRuns_eq_ok hruns
  refine ⟨hascending, particlesOf_eq_ok hascending hcount, fun r hr => ?_⟩
  obtain ⟨size, hsize, hend⟩ := hinside r hr
  rw [List.getElem?_toArray, ← map_vertices_partitionsFrom ids.partition sizes,
    List.getElem?_map, Option.map_eq_some_iff] at hsize
  obtain ⟨p, hp, rfl⟩ := hsize
  exact ⟨p, hp, hend⟩

theorem Made.ordered {g : ParticleGeometry} (h : g.Made) : g.Ordered := by
  cases h with
  | ofParts h => exact ordered_ofParts h
  | build h => exact ordered_ofParts h

end ParticleGeometry

end ParticleShader
