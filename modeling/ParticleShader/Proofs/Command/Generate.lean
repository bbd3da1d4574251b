import Mathlib.Algebra.BigOperators.Ring.List
import Mathlib.Algebra.Ring.Nat
import ParticleShader.Command.Generate
import ParticleShader.Proofs.Animation.Sharing
import ParticleShader.Proofs.Geometry.Flat
import ParticleShader.Proofs.NodeSet.Described

/-!
# Generated data

What is reported of the data of a description for particles on a circle. The vertices of a
particle may lie in any number of partitions, but the data of all partitions, one behind the
other, is a record for every vertex in the order of the particles. So the largest size of a
partition decides how many partitions there are and where in them a particle begins, and
nothing else (**`generate_spec`**).
-/

namespace ParticleShader

open IdSupply.Supplies

/-! ### The geometry of equal particles -/

namespace GeometryBuilder

variable {m n k : Nat} {b : GeometryBuilder}

theorem exists_addParticle (hvertices : b.current + k < Size.bound)
    (hnext : b.next + 1 < Size.bound) : ∃ b', b.addParticle k = .ok (b', b.next) := by
  cases hadd : b.addParticle k with
  | error fault =>
    have hoverflow := ((addParticle_eq_error hvertices).mp hadd).2
    exact absurd hnext (Nat.not_lt.mpr hoverflow)
  | ok added =>
    obtain ⟨b', index⟩ := added
    obtain ⟨_, rfl, -⟩ := addParticle_eq_ok hadd
    exact ⟨b', rfl⟩

/-- Particles of equal size are all taken, as long as their vertices are a word. -/
theorem exists_foldlM_addParticle (m : Nat) (hfit : n * k < Size.bound) (hk : 0 < k) :
    ∃ b, (List.range n).foldlM (fun (b : GeometryBuilder) _ => do
        return (← b.addParticle k).1) (ofCapacity m) = .ok b ∧
      Collected m (equalParticles n k) b := by
  induction n with
  | zero => exact ⟨_, rfl, collected_ofCapacity m⟩
  | succ n ih =>
    have hfit' : n * k + k < Size.bound := by rwa [← Nat.succ_mul]
    obtain ⟨b, hfold, hcollected⟩ := ih (by omega)
    have hindex : b.next = n := hcollected.next.trans (foldl_max_equalParticles n k)
    have hvertices : b.current ≤ n * k := by
      rw [← vertices_equalParticles n k]
      exact hcollected.current_le
    have hcount : n ≤ n * k := Nat.le_mul_of_pos_right n hk
    obtain ⟨b', hadd⟩ := exists_addParticle (b := b) (k := k) (by omega) (by omega)
    have hcall : b.call (.particle k) = .ok (some ⟨n, k⟩, b') := by
      simp only [call, hadd, hindex]
      rfl
    refine ⟨b', ?_, ?_⟩
    · rw [List.range_succ, List.foldlM_append, Outcome.bind_eq_ok]
      refine ⟨b, hfold, ?_⟩
      rw [List.foldlM_cons, hadd]
      rfl
    · rw [equalParticles_succ]
      exact hcollected.call hcall

end GeometryBuilder

/-- The geometry of equal particles is built, if their vertices are a word and there are
identities for its partitions. -/
theorem Command.circleGeometry_cases {options : Command.GenerateOptions}
    (hfit : options.particles * options.vertices < Size.bound) (hk : 0 < options.vertices)
    (hcapacity : options.capacity < Size.bound) :
    ∃ g, GeometryBuilder.Builds options.capacity
        (GeometryBuilder.equalParticles options.particles options.vertices) g ∧
      (g.partitions.length ≤ IdSupply.limit →
        Command.circleGeometry options = .ok g ∧ ∃ ids, IdSupply.Supplies ids [g]) ∧
      (¬ g.partitions.length ≤ IdSupply.limit →
        ∃ fault, Command.circleGeometry options = .error fault) := by
  obtain ⟨b, hfold, hcollected⟩ :=
    GeometryBuilder.exists_foldlM_addParticle options.capacity hfit hk
  have hleft : IdSupply.HasGeometry {} b.sizes.length ↔ b.sizes.length ≤ IdSupply.limit := by
    refine ⟨fun h => ?_, fun h => ⟨.inr (by rwa [Nat.zero_add]), by decide⟩⟩
    rcases h.partitions with hnone | hsome
    · exact hnone ▸ Nat.zero_le _
    · rwa [Nat.zero_add] at hsome
  refine ⟨_, hcollected.builds 0 0, fun hcount => ?_, fun hcount => ?_⟩
  · rw [length_partitionsFrom] at hcount
    have hleads := ParticleGeometry.leads_ofParts.mpr
      ⟨hleft.mpr hcount, b.next, hcollected.checkedCount hcapacity, rfl, rfl⟩
    have hbuild : b.build {} = .ok _ _ := hleads
    refine ⟨?_, _, .made (.start {}) (.build b) hleads⟩
    exact Outcome.bind_eq_ok.mpr ⟨b, hfold, by rw [hbuild]; rfl⟩
  · rw [length_partitionsFrom] at hcount
    cases hbuild : b.build {} with
    | error fault ids =>
      exact ⟨fault, Outcome.bind_eq_error.mpr (.inr ⟨b, hfold, by rw [hbuild]; rfl⟩)⟩
    | ok g ids =>
      exact absurd (hleft.mp ((hcollected.build hcapacity {}).1.mp ⟨g, ids, hbuild⟩)) hcount

/-! ### The data of equal particles -/

namespace Animation

variable {α : Type} [Scalar α] {set : NodeSet α} {particles : List (Particle α)}
  {rows : List (List α)} {g : ParticleGeometry}

omit [Scalar α] in
/-- If the total is left alone, every particle is told the same one. -/
theorem sequence_eq_map {effect : Nat → Nat → Particle α}
    (heffect : ∀ index total, (effect index total).total = total) (total : Nat)
    (indices : List Nat) : sequence effect total indices = indices.map (effect · total) := by
  induction indices with
  | nil => rfl
  | cons index rest ih => rw [sequence, heffect, ih, List.map_cons]

/-- There is a record for each particle. -/
theorem records_eq_ok (h : records set particles = .ok rows) :
    rows.length = particles.length ∧ ∀ (i : Nat) row, rows[i]? = some row →
      ∃ p, particles[i]? = some p ∧ record (set.nodesIn .baked) set.stride p = .ok row := by
  unfold records at h
  induction particles generalizing rows with
  | nil =>
    cases h
    exact ⟨rfl, nofun⟩
  | cons p particles ih =>
    simp only [List.mapM_cons, Outcome.bind_eq_ok, Outcome.pure_eq_ok] at h
    obtain ⟨row, hrow, rest, hrest, rfl⟩ := h
    obtain ⟨hlength, hall⟩ := ih hrest
    refine ⟨congrArg (· + 1) hlength, fun i row' hi => ?_⟩
    cases i with
    | zero =>
      obtain rfl := Option.some.inj hi
      exact ⟨p, rfl, hrow⟩
    | succ i => exact hall i row' hi

/-- The rows of the data of a partition: a vertex of a run has the record of the particle. -/
theorem Baked.rows_eq (hset : set.Built) (hg : g.Ordered) (hrows : records set particles = .ok rows)
    {position : Nat} {part : Partition} {b : Bake α}
    (hpart : g.partitions[position]? = some part)
    (h : Baked set particles g position part b) :
    b.stride = set.stride ∧ b.rows.size = part.vertices ∧
      ∀ r ∈ g.runs, ∀ v, r.Covers position v → b.rows[v]? = rows[r.particle]? := by
  obtain ⟨d, rfl, hholds, rfl⟩ := h
  have hbakes := bakes_of_holds hset hg hpart hholds
  refine ⟨rfl, hbakes.rows, fun r hr v hv => ?_⟩
  obtain ⟨p, row, hp, hrow, hat⟩ := hholds.covered r hr v hv
  obtain ⟨hlength, hall⟩ := records_eq_ok hrows
  have hlt : r.particle < rows.length := hlength ▸ (List.getElem?_eq_some_iff.mp hp).1
  obtain ⟨p', hp', hrow'⟩ := hall r.particle _ (List.getElem?_eq_getElem hlt)
  obtain rfl := Option.some.inj (hp.symm.trans hp')
  obtain rfl := Except.ok.inj (hrow.symm.trans hrow')
  rw [Draft.bake, Array.getElem?_append_left (Array.getElem?_eq_some_iff.mp hat).1, hat,
    List.getElem?_eq_getElem hlt]

end Animation

namespace Command

open Animation

variable {sin cos : Float32 → Float32} {description : Description Float32}
  {options : GenerateOptions} {a : Animation Unit Float32} {set : NodeSet Float32}
  {g : ParticleGeometry} {ids : IdSupply}

/-- The particle of an index on the circle. -/
def circleAt (sin cos : Float32 → Float32) (options : GenerateOptions) (index : Nat) :
    Particle Float32 :=
  circleParticle sin cos options.interval options.duration (.default index options.particles)

/-- The records of the particles on the circle. -/
def circleRecords (sin cos : Float32 → Float32) (options : GenerateOptions)
    (set : NodeSet Float32) : Except Fault (List (List Float32)) :=
  records set ((List.range options.particles).map (circleAt sin cos options))

/-- The bakes are the data of the partitions of a geometry, from records of the particles. -/
def BakesOf (set : NodeSet Float32) (rows : List (List Float32)) (g : ParticleGeometry)
    (bakes : List (Bake Float32)) : Prop :=
  bakes.length = g.partitions.length ∧ ∀ (position : Nat) part,
    g.partitions[position]? = some part → ∃ b, bakes[position]? = some b ∧
      b.stride = set.stride ∧ b.rows.size = part.vertices ∧
      ∀ r ∈ g.runs, ∀ v, r.Covers position v → b.rows[v]? = rows[r.particle]?

/-- The particle that the command makes for an index among a total. -/
def circleEffect (sin cos : Float32 → Float32) (options : GenerateOptions) (index total : Nat) :
    Particle Float32 :=
  circleParticle sin cos options.interval options.duration (.default index total)

/-- The animation, with its particles on the circle. -/
def circling (sin cos : Float32 → Float32) (options : GenerateOptions)
    (a : Animation Unit Float32) : Animation Unit Float32 :=
  { a with
    initializer := some fun p =>
      pure (circleParticle sin cos options.interval options.duration p) }

theorem particlesIn_circle
    (h : GeometryBuilder.Builds options.capacity
      (GeometryBuilder.equalParticles options.particles options.vertices) g) :
    particlesIn (circleEffect sin cos options) g =
      (List.range options.particles).map (circleAt sin cos options) := by
  rw [particlesIn, sequence_eq_map fun _ _ => rfl, h.particles_eq]
  rfl

/-- The records of equal particles are for buffers of which the lengths have to fit in a word. -/
theorem recordsFor_circle
    (h : GeometryBuilder.Builds options.capacity
      (GeometryBuilder.equalParticles options.particles options.vertices) g) :
    recordsFor set (circleEffect sin cos options) g =
      if ∀ part ∈ g.partitions, part.vertices * set.stride < Size.bound then
        circleRecords sin cos options set
      else .error .sizeOverflow := by
  rw [recordsFor, particlesIn_circle h]
  rfl

/-- Data of equal particles is admitted if there are vertices and a record for each particle. -/
theorem admits_circle
    (h : GeometryBuilder.Builds options.capacity
      (GeometryBuilder.equalParticles options.particles options.vertices) g)
    (hpos : 0 < options.particles * options.vertices)
    (hfit : options.particles * options.vertices < Size.bound) :
    admits set (circleEffect sin cos options) g =
      (recordsFor set (circleEffect sin cos options) g).map fun _ => () := by
  have hvertices : g.vertices = .ok (options.particles * options.vertices) := by
    rw [ParticleGeometry.vertices, Size.sum_eq, h.sum_vertices, Size.check_eq_ok]
    exact ⟨hfit, rfl⟩
  unfold admits
  rw [hvertices]
  exact if_neg (Nat.ne_of_gt hpos)

/-- **Data is made exactly if there is a record for each particle**, and from these records. -/
theorem slots_circling (sin cos : Float32 → Float32)
    (ha : description.animation = .ok a)
    (hbuilds : GeometryBuilder.Builds options.capacity
      (GeometryBuilder.equalParticles options.particles options.vertices) g)
    (hknown : Known ids [g]) (hpos : 0 < options.particles * options.vertices)
    (hfit : options.particles * options.vertices < Size.bound) :
    let made := slots <|
      outcome ((circling sin cos options a).generate (.ofGeometry (.particles g) true) 0) ()
    match recordsFor a.nodes (circleEffect sin cos options) g with
    | .error fault => made = .error fault
    | .ok rows => ∃ bakes, BakesOf a.nodes rows g bakes ∧ made = .ok (bakes.map some) := by
  have hg := List.mem_singleton_self g
  obtain ⟨hbuilt, hkept⟩ := Description.built_animation ha
  have hsteady : Steady (fun p => (pure (circleParticle sin cos options.interval options.duration p)
      : StateM Unit (Particle Float32))) (circleEffect sin cos options) := fun _ _ _ => rfl
  have hsound : Sound _ (circleEffect sin cos options) [g] (circling sin cos options a) :=
    ⟨rfl, fun k hk => absurd hk (by simp [circling, hkept])⟩
  have hmesh : (Mesh.ofGeometry (.particles g) true : Mesh Float32).geometry = .particles g := rfl
  obtain ⟨r, hanswers, hslots⟩ := hsound.answers hsteady hknown hg hmesh 0 ()
  unfold Answers at hanswers
  rw [show (circling sin cos options a).nodes = a.nodes from rfl,
    admits_circle hbuilds hpos hfit] at hanswers
  cases hrows : recordsFor a.nodes (circleEffect sin cos options) g with
  | error fault =>
    rw [hrows] at hanswers
    obtain rfl : r = .error fault := hanswers
    exact hslots
  | ok rows =>
    rw [hrows] at hanswers
    obtain ⟨bakes, rfl, hlength, hbaked⟩ := hanswers
    refine ⟨bakes, ⟨hlength, fun position part hpart => ?_⟩, hslots⟩
    obtain ⟨b, hat, hb⟩ := hbaked position part hpart
    exact ⟨b, hat, hb.rows_eq hbuilt (hknown.made g hg).ordered (recordsFor_eq_ok.mp hrows).2 hpart⟩

/-- The report, if there is a geometry. -/
theorem generate_of_geometry (ha : description.animation = .ok a)
    (hgeometry : circleGeometry options = .ok g) :
    generate sin cos description options =
      match ((circling sin cos options a).generate (.ofGeometry (.particles g) true) 0).run () with
      | (.error fault, _) => .failed (.faultDuring "Animation data generation failed" fault)
      | (.ok (a', mesh, _), _) =>
        dataReport options a'.nodes g.runs (mesh.bakes.filterMap (·.map (·.bake))) := by
  unfold generate
  simp only [ha, hgeometry]
  rfl

/-- What is said of a geometry that was built: the fault, if there are no records for its particles,
or else the data from these records. -/
theorem generate_of_recordsFor (sin cos : Float32 → Float32) (ha : description.animation = .ok a)
    (hgeometry : circleGeometry options = .ok g)
    (hbuilds : GeometryBuilder.Builds options.capacity
      (GeometryBuilder.equalParticles options.particles options.vertices) g)
    (hknown : Known ids [g]) (hpos : 0 < options.particles * options.vertices)
    (hfit : options.particles * options.vertices < Size.bound) :
    match recordsFor a.nodes (circleEffect sin cos options) g with
    | .error fault => generate sin cos description options =
      .failed (.faultDuring "Animation data generation failed" fault)
    | .ok rows => ∃ bakes, BakesOf a.nodes rows g bakes ∧
      generate sin cos description options = dataReport options a.nodes g.runs bakes := by
  have hslots := slots_circling sin cos ha hbuilds hknown hpos hfit
  rw [generate_of_geometry ha hgeometry]
  rcases hrun : ((circling sin cos options a).generate
    (.ofGeometry (.particles g) true) 0).run () with ⟨result, u⟩
  rw [show outcome ((circling sin cos options a).generate (.ofGeometry (.particles g) true) 0) ()
    = result from congrArg Prod.fst hrun] at hslots
  cases hrows : recordsFor a.nodes (circleEffect sin cos options) g with
  | error fault =>
    rw [hrows] at hslots
    cases result with
    | error fault' =>
      obtain rfl : fault' = fault := Except.error.inj hslots
      rfl
    | ok made => cases hslots
  | ok rows =>
    rw [hrows] at hslots
    obtain ⟨bakes, hbakes, hslots⟩ := hslots
    cases result with
    | error fault => cases hslots
    | ok made =>
      obtain ⟨a', mesh, next⟩ := made
      have hyields : Yields ((circling sin cos options a).generate
        (.ofGeometry (.particles g) true) 0) () (a', mesh, next) u := hrun
      obtain ⟨_, _, _, kept, -, -, -, -, rfl, -, -⟩ := generate_eq_ok hyields
      refine ⟨bakes, hbakes, ?_⟩
      have hfilled : mesh.bakes.map (Option.map (·.bake)) = bakes.map some :=
        Except.ok.inj hslots
      have hmade : mesh.bakes.filterMap (·.map (·.bake)) = bakes := by
        calc mesh.bakes.filterMap (·.map (·.bake))
            = (mesh.bakes.map (Option.map (·.bake))).filterMap id := by
              rw [List.filterMap_map]
              rfl
          _ = (bakes.map some).filterMap id := by rw [hfilled]
          _ = bakes := by simp
      rw [← hmade]
      rfl

/-- What a geometry needs words for: its partitions have identities, and the lengths of their
buffers fit. -/
def Fits (set : NodeSet Float32) (sizes : List Nat) : Prop :=
  sizes.length ≤ IdSupply.limit ∧ ∀ size ∈ sizes, size * set.stride < Size.bound

/-- **The two reports**: the fault, if a particle has no record, or else what is said of the
data. This is so whatever the largest size of a partition is, as long as the partitions fit. -/
theorem generate_cases (options : GenerateOptions) (ha : description.animation = .ok a)
    (hpos : 0 < options.particles * options.vertices)
    (hfit : options.particles * options.vertices < Size.bound)
    (hcapacity : options.capacity < Size.bound) : ∃ g,
      GeometryBuilder.Builds options.capacity
        (GeometryBuilder.equalParticles options.particles options.vertices) g ∧
      (Fits a.nodes (g.partitions.map (·.vertices)) →
        match circleRecords sin cos options a.nodes with
        | .error fault => generate sin cos description options =
          .failed (.faultDuring "Animation data generation failed" fault)
        | .ok rows => ∃ bakes, BakesOf a.nodes rows g bakes ∧
          generate sin cos description options = dataReport options a.nodes g.runs bakes) ∧
      (¬ Fits a.nodes (g.partitions.map (·.vertices)) →
        ∃ failure, generate sin cos description options = .failed failure) := by
  have hk : 0 < options.vertices := Nat.pos_of_mul_pos_left hpos
  obtain ⟨g, hbuilds, hbuilt, hunbuilt⟩ := circleGeometry_cases hfit hk hcapacity
  refine ⟨g, hbuilds, ?_⟩
  simp only [Fits, List.length_map, List.forall_mem_map]
  by_cases hcount : g.partitions.length ≤ IdSupply.limit
  · obtain ⟨hgeometry, ids, hsupply⟩ := hbuilt hcount
    have hreport := generate_of_recordsFor sin cos ha hgeometry hbuilds
      hsupply.known hpos hfit
    rw [and_iff_right hcount]
    rw [recordsFor_circle hbuilds] at hreport
    refine ⟨fun hsizes => ?_, fun hsizes => ?_⟩
    · rwa [if_pos hsizes] at hreport
    · rw [if_neg hsizes] at hreport
      exact ⟨_, hreport⟩
  · obtain ⟨fault, hgeometry⟩ := hunbuilt hcount
    refine ⟨fun hfits => absurd hfits.1 hcount, fun _ =>
      ⟨.faultDuring "Failed to build particle geometry" fault, ?_⟩⟩
    unfold generate
    simp only [ha, hgeometry]

/-! ### The first run of every particle -/

theorem leadingRuns_of_eq {first second : Run} (h : first.particle = second.particle)
    (rest : List Run) : leadingRuns (first :: second :: rest) = leadingRuns (first :: rest) := by
  rw [leadingRuns, if_pos h]

theorem leadingRuns_of_ne {first second : Run} (h : first.particle ≠ second.particle)
    (rest : List Run) :
    leadingRuns (first :: second :: rest) = first :: leadingRuns (second :: rest) := by
  rw [leadingRuns, if_neg h]

theorem leadingRuns_nil : leadingRuns [] = [] := by
  rw [leadingRuns]
  intro first second rest h
  cases h

theorem leadingRuns_singleton (r : Run) : leadingRuns [r] = [r] := by
  rw [leadingRuns]
  intro first second rest h
  cases h

/-- Runs of other particles have first runs of their own. -/
theorem leadingRuns_append {before after : List Run}
    (h : ∀ r ∈ before, ∀ r' ∈ after, r.particle ≠ r'.particle) :
    leadingRuns (before ++ after) = leadingRuns before ++ leadingRuns after := by
  induction before using leadingRuns.induct with
  | case1 first second rest hsame ih =>
    have hfewer : ∀ r ∈ first :: rest, r ∈ first :: second :: rest := fun r hr =>
      List.mem_cons.mpr ((List.mem_cons.mp hr).imp_right (List.mem_cons_of_mem _))
    rw [leadingRuns_of_eq hsame, ← ih fun r hr => h r (hfewer r hr)]
    exact leadingRuns_of_eq hsame _
  | case2 first second rest hother ih =>
    show leadingRuns (first :: second :: (rest ++ after)) = _
    rw [leadingRuns_of_ne hother, leadingRuns_of_ne hother, List.cons_append,
      ← ih fun r hr => h r (List.mem_cons_of_mem _ hr)]
    rfl
  | case3 runs hshort =>
    cases runs with
    | nil => rw [leadingRuns_nil, List.nil_append, List.nil_append]
    | cons r rest =>
      obtain rfl : rest = [] := by
        cases rest with
        | nil => rfl
        | cons second rest => exact (hshort r second rest rfl).elim
      cases after with
      | nil => rw [leadingRuns_nil, List.append_nil, List.append_nil, leadingRuns_singleton]
      | cons r' after =>
        rw [leadingRuns_singleton]
        exact leadingRuns_of_ne (h r List.mem_cons_self r' List.mem_cons_self) after

/-- Runs of one particle have one first run. -/
theorem leadingRuns_of_particle {runs : List Run} {p : Nat} (h : ∀ r ∈ runs, r.particle = p) :
    leadingRuns runs = runs.head?.toList := by
  induction runs using leadingRuns.induct with
  | case1 first second rest hsame ih =>
    have hfewer : ∀ r ∈ first :: rest, r ∈ first :: second :: rest := fun r hr =>
      List.mem_cons.mpr ((List.mem_cons.mp hr).imp_right (List.mem_cons_of_mem _))
    rw [leadingRuns_of_eq hsame, ih fun r hr => h r (hfewer r hr)]
    rfl
  | case2 first second rest hother ih =>
    exact absurd ((h first (by simp)).trans (h second (by simp)).symm) hother
  | case3 runs hshort =>
    cases runs with
    | nil => exact leadingRuns_nil
    | cons r rest =>
      cases rest with
      | nil => exact leadingRuns_singleton r
      | cons second rest => exact (hshort r second rest rfl).elim

/-- In the order of the particles, each has its first run. -/
theorem leadingRuns_filter_lt {runs : List Run}
    (h : runs.Pairwise fun r r' => r.particle ≤ r'.particle) (n : Nat) :
    leadingRuns (runs.filter (·.particle < n)) =
      (List.range n).flatMap fun p => (runs.find? (·.particle = p)).toList := by
  induction n with
  | zero =>
    rw [List.filter_eq_nil_iff.mpr (by simp), leadingRuns_nil]
    rfl
  | succ n ih =>
    have hother : ∀ r ∈ runs.filter (·.particle < n), ∀ r' ∈ runs.filter (·.particle = n),
        r.particle ≠ r'.particle := by
      intro r hr r' hr'
      have hlt := of_decide_eq_true (List.mem_filter.mp hr).2
      have heq := of_decide_eq_true (List.mem_filter.mp hr').2
      omega
    have hlast : leadingRuns (runs.filter (·.particle = n)) =
        (runs.filter (·.particle = n)).head?.toList :=
      leadingRuns_of_particle fun r hr => of_decide_eq_true (List.mem_filter.mp hr).2
    rw [filter_key_lt_succ h, leadingRuns_append hother, ih, hlast, List.head?_filter,
      List.range_succ, List.flatMap_append, List.flatMap_singleton]

/-- **The first runs of equal particles**: one for each, which begins where the vertices of the
particles before it end. -/
theorem getElem?_leadingRuns {m n k : Nat}
    (h : GeometryBuilder.Builds m (GeometryBuilder.equalParticles n k) g) (hk : 0 < k) :
    (leadingRuns g.runs).length = n ∧ ∀ p < n, ∃ r ∈ g.runs,
      (leadingRuns g.runs)[p]? = some r ∧ r.particle = p ∧
        ((g.partitions.map (·.vertices)).take r.partition).sum + r.first = p * k := by
  have hall : (leadingRuns g.runs).map some =
      (List.range n).map fun p => g.runs.find? (·.particle = p) := by
    have hruns := leadingRuns_filter_lt (h.ascending.imp And.left) n
    rw [List.filter_eq_self.mpr fun r hr => decide_eq_true (h.counted r hr)] at hruns
    rw [hruns, List.map_flatMap, ← List.flatMap_pure_eq_map]
    refine List.flatMap_congr fun p hp => ?_
    obtain ⟨r, -, hr, -⟩ := h.exists_first hk (List.mem_range.mp hp)
    simp only [Function.comp_apply, hr]
    rfl
  have hlength : (leadingRuns g.runs).length = n := by
    simpa using congrArg List.length hall
  refine ⟨hlength, fun p hp => ?_⟩
  obtain ⟨r, hmem, hr, hparticle, hstart⟩ := h.exists_first hk hp
  have hat := congrArg (·[p]?) hall
  simp only [List.getElem?_map, List.getElem?_range hp, Option.map_some, hr] at hat
  obtain ⟨r', hr', hsame⟩ := Option.map_eq_some_iff.mp hat
  obtain rfl := Option.some.inj hsame
  exact ⟨r', hmem, hr', hparticle, hstart⟩

/-! ### The report -/

/-- Where the vertices of a particle begin. -/
structure Start where
  /-- The position of the partition. -/
  partition : Nat
  /-- The vertex. -/
  vertex : Nat

/-- Where the vertices of the particles begin that lie in these runs. -/
def startsOf (runs : List Run) : List Start :=
  (leadingRuns runs).map fun r => ⟨r.partition, r.first⟩

/-- Equal particles begin within their partitions, each behind the particles before it. -/
theorem getElem?_startsOf {m n k : Nat}
    (h : GeometryBuilder.Builds m (GeometryBuilder.equalParticles n k) g) (hk : 0 < k) {i : Nat}
    {start : Start} (hstart : (startsOf g.runs)[i]? = some start) :
    (∃ size, (g.partitions.map (·.vertices))[start.partition]? = some size ∧
      start.vertex < size) ∧
    ((g.partitions.map (·.vertices)).take start.partition).sum + start.vertex = i * k := by
  obtain ⟨hcount, hfirst⟩ := getElem?_leadingRuns h hk
  rw [startsOf, List.getElem?_map] at hstart
  obtain ⟨r, hr, rfl⟩ := Option.map_eq_some_iff.mp hstart
  obtain ⟨r', hmem, hr', -, hplace⟩ := hfirst i (hcount ▸ (List.getElem?_eq_some_iff.mp hr).1)
  obtain rfl := Option.some.inj (hr'.symm.trans hr)
  have hpart := List.getElem?_eq_getElem (h.placed r' hmem)
  have hend := (h.tiled r'.partition _ hpart).le_stop (List.mem_filter.mpr ⟨hmem, by simp⟩)
  refine ⟨⟨_, by rw [List.getElem?_map, hpart]; rfl, ?_⟩, hplace⟩
  exact Nat.lt_of_lt_of_le (Nat.lt_add_of_pos_right (h.nonempty r' hmem)) hend

/-- The line of a particle. -/
def particleLine (index : Nat) (start : Start) (record : List Float32) : String :=
  let particle := Text.padLeft 4 (toString index)
  let vertex := Text.padRight 5 (toString start.vertex)
  s!"  particle {particle} p{start.partition} v{vertex} {Scalar.listText record}"

/-- What is reported of the records of particles that begin in some of the partitions, and of
the records of all vertices. -/
def reportOf (options : GenerateOptions) (set : NodeSet Float32) (partitions : Nat)
    (starts : List Start) (records written : List (List Float32)) : Report :=
  let floats := options.particles * options.vertices * set.stride
  let size := Text.byteSize (4 * floats)
  let summary :=
    [s!"Particles:      {options.particles}",
     s!"Vertices:       {options.particles * options.vertices}",
     s!"Partitions:     {partitions}",
     s!"Record stride:  {set.stride}",
     s!"Dynamic stride: {set.dynamicStride}",
     s!"Buffer length:  {floats} floats ({size})"]
  let lines :=
    if options.dump then
      (starts.zip records).mapIdx fun index particle => particleLine index particle.1 particle.2
    else []
  { printed := printLines (summary ++ lines)
    file := options.output.map fun path =>
      { path
        values := written.flatten
        confirmation := printLines [s!"Wrote {size} to {path}"] } }

section

variable {rows : List (List Float32)} {bakes : List (Bake Float32)}

/-- The buffers have a record for every vertex. -/
theorem floats_eq
    (h : GeometryBuilder.Builds options.capacity
      (GeometryBuilder.equalParticles options.particles options.vertices) g)
    (hbakes : BakesOf set rows g bakes) :
    (bakes.map fun b => b.stride * b.rows.size).foldl (· + ·) 0 =
      options.particles * options.vertices * set.stride := by
  have hsizes : (bakes.map fun b => b.stride * b.rows.size) =
      (g.partitions.map (·.vertices)).map (set.stride * ·) := by
    refine List.ext_getElem? fun i => ?_
    simp only [List.getElem?_map]
    by_cases hi : i < g.partitions.length
    · have hpart := List.getElem?_eq_getElem hi
      obtain ⟨b, hb, hstride, hsize, -⟩ := hbakes.2 i _ hpart
      rw [hb, hpart, Option.map_some, Option.map_some, Option.map_some, hstride, hsize]
    · rw [List.getElem?_eq_none (hbakes.1 ▸ Nat.not_lt.mp hi),
        List.getElem?_eq_none (Nat.not_lt.mp hi)]
      rfl
  rw [hsizes, ← List.sum_eq_foldl, List.sum_map_mul_left, List.map_id', h.sum_vertices,
    Nat.mul_comm]

/-- The records of the buffers, one buffer after the other, are those of the first particle for
each of its vertices, then those of the second one, and so on. -/
theorem rows_eq
    (h : GeometryBuilder.Builds options.capacity
      (GeometryBuilder.equalParticles options.particles options.vertices) g)
    (hrows : rows.length = options.particles) (hbakes : BakesOf set rows g bakes) :
    (bakes.map (·.rows.toList)).flatten = rows.flatMap (List.replicate options.vertices) := by
  have hall : rows = (List.range options.particles).map fun p => rows.getD p [] := by
    refine List.ext_getElem? fun p => ?_
    rw [List.getElem?_map]
    by_cases hp : p < options.particles
    · rw [List.getElem?_range hp, Option.map_some, List.getD_eq_getElem?_getD,
        List.getElem?_eq_getElem (hrows ▸ hp), Option.getD_some]
    · rw [List.getElem?_eq_none (by omega), List.getElem?_eq_none (by simpa using hp)]
      rfl
  rw [h.flatten_buffers (fun r => rows.getD r.particle []) (by rw [List.length_map, hbakes.1]),
    h.flatMap_runs fun p => rows.getD p []]
  · conv_rhs => rw [hall, List.flatMap_map]
  · intro i part hpart
    obtain ⟨b, hb, -, hsize, hat⟩ := hbakes.2 i part hpart
    refine ⟨b.rows.toList, by rw [List.getElem?_map, hb]; rfl, hsize, fun r hr v hv => ?_⟩
    have hlt : r.particle < rows.length := hrows ▸ h.counted r hr
    rw [Array.getElem?_toList, hat r hr v hv, List.getD_eq_getElem?_getD,
      List.getElem?_eq_getElem hlt, Option.getD_some]

/-- The line of a run shows the record of its particle. -/
theorem recordLine_eq
    (h : GeometryBuilder.Builds options.capacity
      (GeometryBuilder.equalParticles options.particles options.vertices) g)
    (hbakes : BakesOf set rows g bakes) {r : Run} (hr : r ∈ g.runs) {row : List Float32}
    (hrow : rows[r.particle]? = some row) (hlength : row.length = set.stride) :
    recordLine bakes.toArray r =
      some (particleLine r.particle ⟨r.partition, r.first⟩ row) := by
  have hplaced := List.getElem?_eq_getElem (h.placed r hr)
  obtain ⟨b, hb, hstride, -, hat⟩ := hbakes.2 r.partition _ hplaced
  have hfirst : b.rows[r.first]? = some row := by
    rw [hat r hr r.first ⟨rfl, Nat.le_refl _, Nat.lt_add_of_pos_right (h.nonempty r hr)⟩, hrow]
  have hvertex : b.vertex? r.first = some row := by
    unfold Bake.vertex? recordOf
    split
    · rename_i hzero
      rw [List.length_eq_zero_iff.mp (hlength.trans (hstride.symm.trans hzero))]
    · exact hfirst
  unfold recordLine
  rw [List.getElem?_toArray, hb]
  simp only [bind, Option.bind, hvertex]
  rfl

/-- The lines show the records of the particles in order. -/
theorem lines_eq
    (h : GeometryBuilder.Builds options.capacity
      (GeometryBuilder.equalParticles options.particles options.vertices) g)
    (hk : 0 < options.vertices) (hrows : rows.length = options.particles)
    (hlength : ∀ row ∈ rows, row.length = set.stride) (hbakes : BakesOf set rows g bakes) :
    (leadingRuns g.runs).filterMap (recordLine bakes.toArray) =
      ((startsOf g.runs).zip rows).mapIdx
        fun index particle => particleLine index particle.1 particle.2 := by
  obtain ⟨hcount, hfirst⟩ := getElem?_leadingRuns h hk
  have hrow : ∀ r ∈ g.runs, rows[r.particle]? = some (rows.getD r.particle []) := by
    intro r hr
    rw [List.getD_eq_getElem?_getD, List.getElem?_eq_getElem (hrows ▸ h.counted r hr),
      Option.getD_some]
  have hline : ∀ r ∈ leadingRuns g.runs, recordLine bakes.toArray r =
      some (particleLine r.particle ⟨r.partition, r.first⟩ (rows.getD r.particle [])) := by
    intro r hr
    obtain ⟨p, hp⟩ := List.mem_iff_getElem?.mp hr
    obtain ⟨r', hmem, hat, -⟩ := hfirst p (hcount ▸ (List.getElem?_eq_some_iff.mp hp).1)
    obtain rfl := Option.some.inj (hat.symm.trans hp)
    have hat := hrow r' hmem
    exact recordLine_eq h hbakes hmem hat (hlength _ (List.mem_of_getElem? hat))
  rw [List.filterMap_congr hline, List.filterMap_eq_map']
  refine List.ext_getElem? fun p => ?_
  rw [List.getElem?_map, List.getElem?_mapIdx]
  by_cases hp : p < options.particles
  · obtain ⟨r, hmem, hat, rfl, -⟩ := hfirst p hp
    have hzip : ((startsOf g.runs).zip rows)[r.particle]? =
        some (⟨r.partition, r.first⟩, rows.getD r.particle []) := by
      rw [List.getElem?_zip_eq_some, startsOf, List.getElem?_map, hat]
      exact ⟨rfl, hrow r hmem⟩
    rw [hat, hzip]
    rfl
  · rw [List.getElem?_eq_none (by omega), List.getElem?_eq_none (by simp [startsOf]; omega)]
    rfl

/-- What is reported of the data. -/
theorem dataReport_eq
    (h : GeometryBuilder.Builds options.capacity
      (GeometryBuilder.equalParticles options.particles options.vertices) g)
    (hk : 0 < options.vertices) (hrows : rows.length = options.particles)
    (hlength : ∀ row ∈ rows, row.length = set.stride) (hbakes : BakesOf set rows g bakes) :
    dataReport options set g.runs bakes =
      reportOf options set g.partitions.length (startsOf g.runs) rows
        (rows.flatMap (List.replicate options.vertices)) := by
  have hvalues : (bakes.flatMap fun b => b.rows.toList.flatten) =
      (rows.flatMap (List.replicate options.vertices)).flatten := by
    rw [← rows_eq h hrows hbakes, List.flatten_flatten, List.map_map, List.flatMap_def]
    rfl
  unfold dataReport reportOf
  rw [floats_eq h hbakes, lines_eq h hk hrows hlength hbakes, hvalues, hbakes.1]

end

/-- What stands at a place if everything is repeated. -/
theorem getElem?_flatMap_replicate {β : Type} {k : Nat} (hk : 0 < k) (xs : List β) (j : Nat) :
    (xs.flatMap (List.replicate k))[j]? = xs[j / k]? := by
  induction xs generalizing j with
  | nil => rfl
  | cons x xs ih =>
    rw [List.flatMap_cons]
    by_cases hj : j < k
    · rw [List.getElem?_append_left (by simpa using hj), List.getElem?_replicate, if_pos hj,
        Nat.div_eq_of_lt hj, List.getElem?_cons_zero]
    · have hle := Nat.not_lt.mp hj
      rw [List.getElem?_append_right (by simpa using hle), List.length_replicate, ih,
        Nat.div_eq_sub_div hk hle, List.getElem?_cons_succ]

/-- The records of the particles are there, each with the values of all nodes. -/
theorem circleRecords_eq_ok (ha : description.animation = .ok a) {rows : List (List Float32)}
    (h : circleRecords sin cos options a.nodes = .ok rows) :
    rows.length = options.particles ∧ ∀ (i : Nat) row, rows[i]? = some row →
      row.length = a.nodes.stride ∧
        ∀ n ∈ a.nodes.nodesIn .baked, Holds row (circleAt sin cos options i) n := by
  obtain ⟨hbuilt, -⟩ := Description.built_animation ha
  obtain ⟨hlength, hall⟩ := records_eq_ok h
  refine ⟨by simpa using hlength, fun i row hi => ?_⟩
  obtain ⟨p, hp, hrow⟩ := hall i row hi
  rw [List.getElem?_map, Option.map_eq_some_iff] at hp
  obtain ⟨index, hindex, rfl⟩ := hp
  obtain ⟨hlt, rfl⟩ := List.getElem?_eq_some_iff.mp hindex
  rw [List.getElem_range] at hrow
  exact record_eq_ok hbuilt hrow

/-- If data is made for partitions of some largest size, every particle has a record. -/
theorem exists_circleRecords (ha : description.animation = .ok a)
    (hpos : 0 < options.particles * options.vertices)
    (hfit : options.particles * options.vertices < Size.bound)
    (hmade : ∃ capacity < Size.bound,
      (generate sin cos description { options with capacity }).failure = none) :
    ∃ rows, circleRecords sin cos options a.nodes = .ok rows := by
  obtain ⟨capacity, hcapacity, hok⟩ := hmade
  obtain ⟨g, -, hcases, hunfit⟩ := generate_cases { options with capacity } ha hpos hfit hcapacity
  by_cases hfits : Fits a.nodes (g.partitions.map (·.vertices))
  · have hcases := hcases hfits
    have hsame : circleRecords sin cos { options with capacity } a.nodes =
        circleRecords sin cos options a.nodes := rfl
    cases hrows : circleRecords sin cos options a.nodes with
    | ok rows => exact ⟨rows, rfl⟩
    | error fault =>
      rw [hsame, hrows] at hcases
      rw [show generate sin cos description { options with capacity } = _ from hcases] at hok
      cases hok
  · obtain ⟨failure, hfailed⟩ := hunfit hfits
    rw [hfailed] at hok
    cases hok

/-- **Generated data**: if it can be made for partitions of some largest size, then it can for all
that lead to partitions which fit. Whatever the size is, the buffers of all partitions hold, one
behind the other, a record for each vertex, which is that of the particle that the vertex belongs
to and has the values of all nodes for it; their length is shown, and so is, on request, a line for
each particle in order, with its record and the place where its vertices begin. Of all that only
the number of partitions and these places depend on the size. -/
theorem generate_spec (sin cos : Float32 → Float32) (ha : description.animation = .ok a)
    (hpos : 0 < options.particles * options.vertices)
    (hfit : options.particles * options.vertices < Size.bound)
    (hmade : ∃ capacity < Size.bound,
      (generate sin cos description { options with capacity }).failure = none) :
    ∃ records written : List (List Float32),
      (records.length = options.particles ∧ ∀ (i : Nat) record, records[i]? = some record →
        record.length = a.nodes.stride ∧
          ∀ n ∈ a.nodes.nodesIn .baked, Holds record (circleAt sin cos options i) n) ∧
      (written.length = options.particles * options.vertices ∧
        ∀ j < options.particles * options.vertices,
          written[j]? = records[j / options.vertices]?) ∧
      ∀ capacity < Size.bound, ∃ (sizes : List Nat) (starts : List Start),
        (Fits a.nodes sizes → generate sin cos description { options with capacity } =
          reportOf options a.nodes sizes.length starts records written) ∧
        (¬ Fits a.nodes sizes →
          (generate sin cos description { options with capacity }).failure ≠ none) ∧
        sizes.sum = options.particles * options.vertices ∧
        (∀ size ∈ sizes, 0 < size ∧ size ≤ max capacity 1) ∧
        starts.length = options.particles ∧
        ∀ (i : Nat) start, starts[i]? = some start →
          (∃ size, sizes[start.partition]? = some size ∧ start.vertex < size) ∧
          (sizes.take start.partition).sum + start.vertex = i * options.vertices := by
  have hk : 0 < options.vertices := Nat.pos_of_mul_pos_left hpos
  obtain ⟨records, hrecords⟩ := exists_circleRecords ha hpos hfit hmade
  obtain ⟨hlength, hrows⟩ := circleRecords_eq_ok ha hrecords
  refine ⟨records, records.flatMap (List.replicate options.vertices), ⟨hlength, hrows⟩,
    ⟨?_, fun j _ => getElem?_flatMap_replicate hk records j⟩, fun capacity hcapacity => ?_⟩
  · rw [List.length_flatMap, List.map_congr_left fun _ _ => List.length_replicate,
      List.map_const', List.sum_replicate_nat, hlength]
  · obtain ⟨g, hbuilds, hcases, hunfit⟩ :=
      generate_cases { options with capacity } ha hpos hfit hcapacity
    have hsame : circleRecords sin cos { options with capacity } a.nodes = .ok records := hrecords
    rw [hsame] at hcases
    have hstride : ∀ row ∈ records, row.length = a.nodes.stride := by
      intro row hrow
      obtain ⟨i, hi⟩ := List.mem_iff_getElem?.mp hrow
      exact (hrows i row hi).1
    refine ⟨g.partitions.map (·.vertices), startsOf g.runs, fun hfits => ?_, fun hlong hok => ?_,
      hbuilds.sum_vertices, fun size hsize => ?_,
      (List.length_map _).trans (getElem?_leadingRuns hbuilds hk).1,
      fun _ _ => getElem?_startsOf hbuilds hk⟩
    · obtain ⟨bakes, hbakes, hgenerate⟩ := hcases hfits
      rw [List.length_map]
      exact hgenerate.trans (dataReport_eq hbuilds hk hlength hstride hbakes)
    · obtain ⟨failure, hfailed⟩ := hunfit hlong
      rw [hfailed] at hok
      cases hok
    · have hfilled := hbuilds.filled
      rw [GeometryBuilder.vertices_equalParticles, if_neg (Nat.ne_of_gt hpos)] at hfilled
      obtain ⟨part, hpart, rfl⟩ := List.mem_map.mp hsize
      exact ⟨hfilled part hpart, hbuilds.bounded part hpart⟩

/-- A set that is accelerated and colored, particle by particle. -/
def falling : Description Float32 where
  nodes := [.acceleration none none, .color none true false none none none none]

/-- Two particles of three vertices, which are shown. -/
def twoTriangles : GenerateOptions where
  particles := 2
  vertices := 3
  dump := true

/-- Particles that are larger than a partition may be. -/
theorem falling_generate : ∃ (a : Animation Unit Float32) (records written : List (List Float32))
    (sizes : List Nat) (starts : List Start),
      falling.animation = .ok a ∧ a.nodes.stride = 15 ∧ records.length = 2 ∧
      written.length = 6 ∧ written[4]? = records[1]? ∧
      generate id id falling { twoTriangles with capacity := 2 } =
        reportOf twoTriangles a.nodes sizes.length starts records written ∧
      sizes.sum = 6 ∧ (∀ size ∈ sizes, 0 < size ∧ size ≤ 2) ∧ starts.length = 2 := by
  obtain ⟨a, ha⟩ : ∃ a, falling.animation (σ := Unit) = .ok a := ⟨_, rfl⟩
  have hmade : (generate id id falling { twoTriangles with capacity := 2 }).failure = none :=
    Option.isNone_iff_eq_none.mp (by decide +kernel)
  have hpos : 0 < twoTriangles.particles * twoTriangles.vertices := by decide
  obtain ⟨records, written, ⟨hrecords, -⟩, ⟨hwritten, hat⟩, hreport⟩ :=
    generate_spec id id ha hpos (by decide) ⟨2, by decide, hmade⟩
  obtain ⟨sizes, starts, hgenerate, hunfit, hsum, hsizes, hstarts, -⟩ := hreport 2 (by decide)
  have hgenerate := hgenerate (by_contra fun hlong => hunfit hlong hmade)
  refine ⟨a, records, written, sizes, starts, ha, ?_, hrecords, hwritten, hat 4 (by decide),
    hgenerate, hsum, hsizes, hstarts⟩
  cases ha
  rfl

end Command

end ParticleShader
