import Mathlib.Data.List.Nodup
import ParticleShader.Proofs.Geometry.Runs

/-!
# Geometries of one supply

What holds of geometries whose identities come from one supply: no two partitions have
the same one, so a partition tells which geometry it belongs to and where (**`unique`**).
The runs of an accepted geometry continue its partitions one after the other, which a
count of the vertices in use can follow run by run.
-/

namespace ParticleShader

namespace ParticleGeometry

variable {sizes : List Nat} {runs : List Run} {particles : Nat} {ids ids' : IdSupply}
  {g : ParticleGeometry}

/-! ### Runs that continue their partitions -/

/-- Runs continue the partitions of a geometry, of which no vertex is in use before. -/
def Continues (g : ParticleGeometry) : Prop :=
  checkRuns (g.partitions.map (·.vertices)).toArray 0 (Array.replicate g.partitions.length 0)
    g.runs = .ok ()

/-- A run that passes the check begins where its partition is filled to, and fills it to
its end. -/
theorem first_of_checkRuns {sizes filled : Array Nat} {last : Nat} {run : Run} {rest : List Run}
    (h : checkRuns sizes last filled (run :: rest) = .ok ()) :
    filled[run.partition]? = some run.first ∧
      checkRuns sizes run.particle
        (filled.setIfInBounds run.partition (run.first + run.count)) rest = .ok () := by
  unfold checkRuns at h
  by_cases hlast : run.particle < last
  · simp only [if_pos hlast, Outcome.bind_eq_ok, Outcome.throw_eq_ok, false_and,
      exists_false] at h
  · simp only [if_neg hlast] at h
    split at h
    · rename_i size used hsize hused
      obtain ⟨stop, hstop, h⟩ := Outcome.bind_eq_ok.mp h
      obtain ⟨-, rfl⟩ := Size.add_eq_ok.mp hstop
      split at h
      · simp at h
      · rename_i hplaced
        have hfirst : run.first = used := by
          by_contra hne
          exact hplaced (.inl hne)
        exact ⟨by rw [hused, hfirst], h⟩
    · simp at h

/-! ### Identities -/

/-- What an accepted geometry has: new identities, and runs that continue its partitions. -/
theorem ofParts_eq_ok (h : Leads (ofParts sizes runs particles) ids g ids') :
    g.partitions.map (·.id) = List.range' ids.partition g.partitions.length ∧
      ids'.partition = ids.partition + g.partitions.length ∧ g.Continues := by
  obtain ⟨-, count, hchecked, rfl, rfl⟩ := leads_ofParts.mp h
  obtain ⟨_, hruns, -⟩ := Outcome.bind_eq_ok.mp hchecked
  rw [length_partitionsFrom]
  refine ⟨map_id_partitionsFrom .., rfl, ?_⟩
  rw [Continues, map_vertices_partitionsFrom, length_partitionsFrom]
  exact hruns

theorem Made.continues (h : g.Made) : g.Continues := by
  cases h with
  | ofParts h => exact (ofParts_eq_ok h).2.2
  | build h => exact (ofParts_eq_ok h).2.2

/-- A refused geometry has used up identities of partitions. -/
theorem ofParts_eq_error {fault : Fault}
    (h : (ofParts sizes runs particles).run ids = .error fault ids') :
    ids.partition ≤ ids'.partition := by
  have hmore : ids.partition ≤ ids.partition + sizes.length := Nat.le_add_right ..
  rw [run_ofParts] at h
  split at h
  · split at h
    · cases h
      exact hmore
    · split at h
      · cases h
      · cases h
        exact hmore
  · cases h
    exact Nat.le_max_left ..

end ParticleGeometry

/-! ### One supply -/

open ParticleGeometry

/-- The ways to make a geometry. -/
inductive ParticleGeometry.Maker : Identified ParticleGeometry → Prop where
  /-- From given partitions and runs. -/
  | ofParts (sizes : List Nat) (runs : List Run) (particles : Nat) :
    Maker (ParticleGeometry.ofParts sizes runs particles)
  /-- From collected particles. -/
  | build (b : GeometryBuilder) : Maker b.build

/-- The geometries that were made with the identities of one supply, which may be used for
other geometries as well. -/
inductive IdSupply.Supplies : IdSupply → List ParticleGeometry → Prop where
  /-- A supply of which no geometry was made. -/
  | start (ids : IdSupply) : Supplies ids []
  /-- The identity of another geometry. -/
  | geometry {ids ids' : IdSupply} {gs : List ParticleGeometry} {id : GeometryId} :
    Supplies ids gs → Leads freshGeometry ids id ids' → Supplies ids' gs
  /-- A partition of another geometry. -/
  | partition {ids ids' : IdSupply} {gs : List ParticleGeometry} {vertices : Nat}
    {part : Partition} :
    Supplies ids gs → Leads (freshPartition vertices) ids part ids' → Supplies ids' gs
  /-- A geometry that is accepted. -/
  | made {ids ids' : IdSupply} {gs : List ParticleGeometry} {g : ParticleGeometry}
    {x : Identified ParticleGeometry} :
    Supplies ids gs → Maker x → Leads x ids g ids' → Supplies ids' (g :: gs)
  /-- A geometry that is refused. -/
  | refused {ids ids' : IdSupply} {gs : List ParticleGeometry} {fault : Fault}
    {x : Identified ParticleGeometry} :
    Supplies ids gs → Maker x → x.run ids = .error fault ids' → Supplies ids' gs

namespace IdSupply.Supplies

variable {ids ids' : IdSupply} {gs : List ParticleGeometry} {g g' : ParticleGeometry}
  {x : Identified ParticleGeometry}

/-- Every way to make a geometry is one from parts. -/
theorem of_maker (hx : Maker x) :
    ∃ sizes runs particles, x = ParticleGeometry.ofParts sizes runs particles := by
  cases hx with
  | ofParts sizes runs particles => exact ⟨sizes, runs, particles, rfl⟩
  | build b => exact ⟨_, _, _, rfl⟩

/-- What holds of the geometries of a supply. -/
structure Known (ids : IdSupply) (gs : List ParticleGeometry) : Prop where
  /-- They were made. -/
  made : ∀ g ∈ gs, g.Made
  /-- Their runs continue their partitions. -/
  continues : ∀ g ∈ gs, g.Continues
  /-- The identities of their partitions were given out. -/
  below : ∀ g ∈ gs, ∀ part ∈ g.partitions, part.id < ids.partition
  /-- No two partitions of a geometry have the same identity. -/
  nodup : ∀ g ∈ gs, (g.partitions.map (·.id)).Nodup
  /-- Nor have partitions of different geometries. -/
  apart : ∀ g ∈ gs, ∀ g' ∈ gs, ∀ part ∈ g.partitions, ∀ part' ∈ g'.partitions,
    part.id = part'.id → g = g'

/-- Identities that are given out for something else change nothing. -/
theorem Known.later (h : Known ids gs) (hle : ids.partition ≤ ids'.partition) :
    Known ids' gs :=
  ⟨h.made, h.continues, fun g hg part hpart => Nat.lt_of_lt_of_le (h.below g hg part hpart) hle,
    h.nodup, h.apart⟩

/-- A geometry with new identities is known from all others. -/
theorem Known.made_geometry (h : Known ids gs) (hx : Maker x) (hg : Leads x ids g ids') :
    Known ids' (g :: gs) := by
  have hmade : g.Made := by
    cases hx with
    | ofParts sizes runs particles => exact .ofParts hg
    | build b => exact .build hg
  obtain ⟨sizes, runs, particles, rfl⟩ := of_maker hx
  obtain ⟨hnumbers, hids, hcontinues⟩ := ofParts_eq_ok hg
  have hnew : ∀ part ∈ g.partitions, ids.partition ≤ part.id ∧ part.id < ids'.partition := by
    intro part hpart
    have hmem : part.id ∈ g.partitions.map (·.id) := List.mem_map_of_mem hpart
    rw [hnumbers, List.mem_range'_1] at hmem
    rw [hids]
    exact hmem
  have hle : ids.partition ≤ ids'.partition := by
    rw [hids]
    exact Nat.le_add_right ..
  obtain ⟨hall, hruns, hbelow, hnodup, hapart⟩ := h.later hle
  -- an identity of the new geometry is not one of a geometry that was there before
  have hfresh : ∀ g' ∈ gs, ∀ part ∈ g.partitions, ∀ part' ∈ g'.partitions, part.id ≠ part'.id := by
    intro g' hg' part hpart part' hpart' heq
    have hlow := (hnew part hpart).1
    have hold := h.below g' hg' part' hpart'
    rw [heq] at hlow
    exact absurd hold (Nat.not_lt.mpr hlow)
  refine ⟨?_, ?_, ?_, ?_, ?_⟩
  · exact List.forall_mem_cons.mpr ⟨hmade, hall⟩
  · exact List.forall_mem_cons.mpr ⟨hcontinues, hruns⟩
  · exact List.forall_mem_cons.mpr ⟨fun part hpart => (hnew part hpart).2, hbelow⟩
  · refine List.forall_mem_cons.mpr ⟨?_, hnodup⟩
    rw [hnumbers]
    exact List.nodup_range'
  · intro g₁ hg₁ g₂ hg₂ part₁ hpart₁ part₂ hpart₂ heq
    rcases List.mem_cons.mp hg₁ with rfl | hold₁
    · rcases List.mem_cons.mp hg₂ with rfl | hold₂
      · rfl
      · exact absurd heq (hfresh g₂ hold₂ part₁ hpart₁ part₂ hpart₂)
    · rcases List.mem_cons.mp hg₂ with rfl | hold₂
      · exact absurd heq.symm (hfresh g₁ hold₁ part₂ hpart₂ part₁ hpart₁)
      · exact hapart g₁ hold₁ g₂ hold₂ part₁ hpart₁ part₂ hpart₂ heq

theorem known (h : ids.Supplies gs) : Known ids gs := by
  induction h with
  | start ids =>
    exact ⟨nofun, nofun, nofun, nofun, nofun⟩
  | geometry _ hid ih =>
    obtain ⟨-, -, rfl⟩ := leads_freshGeometry.mp hid
    exact ih.later (Nat.le_refl _)
  | partition _ hpart ih =>
    obtain ⟨-, -, rfl⟩ := leads_freshPartition.mp hpart
    exact ih.later (Nat.le_succ _)
  | made _ hx hg ih => exact ih.made_geometry hx hg
  | refused _ hx hrefused ih =>
    obtain ⟨sizes, runs, particles, rfl⟩ := of_maker hx
    exact ih.later (ofParts_eq_error hrefused)

/-- **An identity tells the partition**: the geometry that it belongs to, and where. -/
theorem Known.unique (h : Known ids gs) (hg : g ∈ gs) (hg' : g' ∈ gs) {i j : Nat}
    {part part' : Partition} (hpart : g.partitions[i]? = some part)
    (hpart' : g'.partitions[j]? = some part') (hid : part.id = part'.id) :
    g = g' ∧ i = j ∧ part = part' := by
  obtain rfl := h.apart g hg g' hg' part (List.mem_of_getElem? hpart) part'
    (List.mem_of_getElem? hpart') hid
  have hi : (g.partitions.map (·.id))[i]? = some part.id := by rw [List.getElem?_map, hpart]; rfl
  have hj : (g.partitions.map (·.id))[j]? = some part.id := by
    rw [List.getElem?_map, hpart', hid]
    rfl
  obtain ⟨hlt, -⟩ := List.getElem?_eq_some_iff.mp hi
  obtain rfl := (List.getElem?_inj hlt (h.nodup g hg)).mp (hi.trans hj.symm)
  rw [hpart, Option.some.injEq] at hpart'
  exact ⟨rfl, rfl, hpart'⟩

end IdSupply.Supplies

end ParticleShader
