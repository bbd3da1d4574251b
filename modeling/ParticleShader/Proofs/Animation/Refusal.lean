import ParticleShader.Proofs.Animation.Sharing
import ParticleShader.Proofs.Geometry.Building
import ParticleShader.Proofs.Node.Refusal

/-!
# Data that cannot be made

When the data of a mesh is not made, and how far it got. There has to be an initializer,
and a geometry of particles with vertices. After that only a particle can be at fault: the
first one that does not suit the nodes ends the attempt, with the fault of the first node
that has no values for it, and the initializer was called for the particles up to it. The
runs of an accepted geometry continue the drafts, so they are never refused, whichever
partitions need data. Nothing is attached before all particles are done.

All this is so if the vertices, and the values of each new buffer, can be counted in a word
(`Countable`). If they cannot, the attempt ends before the first particle (**`generate_refusal`**,
`uncounted_refused`).
-/

namespace ParticleShader

variable {σ α : Type} [Scalar α]

/-! ### Particles and nodes -/

/-- A particle suits a set: every node that is kept in the baked records has values for it. -/
def Particle.Suits (p : Particle α) (set : NodeSet α) : Prop :=
  ∀ n ∈ set.nodesIn .baked, ∃ values, n.behavior.values p = .ok values

/-- A particle does not suit a set: the first node that has no values for it gives the
fault. -/
def Particle.Misfits (p : Particle α) (set : NodeSet α) (fault : Fault) : Prop :=
  ∃ before n after, set.nodesIn .baked = before ++ n :: after ∧
    (∀ m ∈ before, ∃ values, m.behavior.values p = .ok values) ∧
    n.behavior.values p = .error fault

/-- A fault that is about a property of a particle. -/
def Fault.OfProperty : Fault → Prop
  | .missingProperty _ _ | .invalidProperty _ _ => True
  | _ => False

namespace Behavior

variable {fault : Fault}

theorem ofProperty_of_checks {β : Type} {values : Except Fault β} (h : Checks values)
    (hfault : values = .error fault) : fault.OfProperty := by
  obtain ⟨node, cause, rfl⟩ := h fault hfault
  exact trivial

omit [Scalar α] in
theorem ofProperty_of_required {β : Type} {node property : String} {value : Option β}
    (h : required node property value = .error fault) : fault.OfProperty := by
  cases value with
  | none =>
    cases h
    exact trivial
  | some value => cases h

/-- A node of the baked records has no values for a particle only because of a property. -/
theorem ofProperty_of_values {b : Behavior α} (hb : b.IsCatalogue)
    (hmode : b.mode = .perParticle .baked) {p : Particle α} (h : b.values p = .error fault) :
    fault.OfProperty := by
  cases b
  case custom => exact hb.elim
  case rotateToHeading | billboard | follow | spriteSheet => cases hmode
  all_goals
    simp only [values, Outcome.bind_eq_error, Outcome.pure_eq_error, and_false, exists_false,
      or_false] at h
  case time =>
    simp only [lifeValues, Outcome.bind_eq_error, Outcome.pure_eq_error, and_false, exists_false,
      or_false] at h
    exact ofProperty_of_checks (checks_positive _ _ _) h
  case position | velocity | acceleration => exact ofProperty_of_required h
  case scale curve value =>
    rcases h with h | ⟨scale, -, h⟩
    · exact ofProperty_of_required h
    · exact ofProperty_of_checks (checks_scaleValues curve scale) h
  case rotationalVelocity =>
    rcases h with h | ⟨spin, -, h⟩
    · exact ofProperty_of_required h
    · exact ofProperty_of_checks (checks_spinValues spin) h
  case uv =>
    rcases h with h | ⟨uv, -, h⟩
    · exact ofProperty_of_required h
    · simp only [uvValues, Outcome.bind_eq_error, Outcome.pure_eq_error, and_false, exists_false,
        or_false] at h
      exact ofProperty_of_checks (checks_positive _ _ _) h
  case color animation =>
    rcases h with h | ⟨first, -, h | ⟨last, -, h⟩⟩
    · exact ofProperty_of_required h
    · exact ofProperty_of_required h
    · split at h <;> cases h

end Behavior

/-! ### Places -/

namespace NodeSet

/-- The values of the nodes for the vertices of a geometry lie in the buffers of its
partitions, which have a record for each vertex. -/
def InBounds (set : NodeSet α) (g : ParticleGeometry) : Prop :=
  ∀ r ∈ g.runs, ∃ part, g.partitions[r.partition]? = some part ∧
    ∀ n ∈ set.nodesIn .baked, ∀ p values, n.behavior.values p = .ok values →
      values.length = n.behavior.length ∧ ∀ v, r.Covers r.partition v →
        v * set.stride + n.offset + values.length ≤ part.vertices * set.stride

theorem Built.inBounds {set : NodeSet α} {g : ParticleGeometry} (h : set.Built) (hg : g.Ordered) :
    set.InBounds g := by
  intro r hr
  obtain ⟨part, hpart, hend⟩ := hg.inside r hr
  refine ⟨part, hpart, fun n hn p values hvalues => ?_⟩
  obtain ⟨hmem, hmode⟩ := mem_nodesIn.mp hn
  have hlength := Behavior.length_values (h.isCatalogue n hmem) hmode hvalues
  have hinside : n.offset + n.behavior.length ≤ set.stride := (h.laid .baked).inside n hn
  refine ⟨hlength, fun v hv => ?_⟩
  obtain ⟨-, -, hlt⟩ := hv
  calc v * set.stride + n.offset + values.length
      ≤ v * set.stride + set.stride := by rw [hlength, Nat.add_assoc]; omega
    _ = (v + 1) * set.stride := (Nat.succ_mul ..).symm
    _ ≤ part.vertices * set.stride := Nat.mul_le_mul_right _ (by omega)

end NodeSet

namespace Animation

variable {p : Particle α} {set : NodeSet α} {fault : Fault}

/-- Values are written node by node, if all nodes have values. -/
theorem exists_foldlM_overwrite {nodes : List (Node α)} {start : List α} :
    (∃ row, nodes.foldlM
      (fun record n => return overwrite record n.offset (← n.behavior.values p)) start =
        Except.ok row) ↔ ∀ n ∈ nodes, ∃ values, n.behavior.values p = .ok values := by
  induction nodes generalizing start with
  | nil => exact ⟨fun _ => nofun, fun _ => ⟨start, rfl⟩⟩
  | cons n nodes ih =>
    rw [List.foldlM_cons, List.forall_mem_cons]
    cases hvalues : n.behavior.values p with
    | error cause => simp [bind, Except.bind]
    | ok values =>
      rw [and_iff_right ⟨values, rfl⟩]
      exact ih

/-- The first node without values gives the fault. -/
theorem foldlM_overwrite_eq_error {nodes : List (Node α)} {start : List α} :
    nodes.foldlM (fun record n => return overwrite record n.offset (← n.behavior.values p))
      start = Except.error fault ↔
    ∃ before n after, nodes = before ++ n :: after ∧
      (∀ m ∈ before, ∃ values, m.behavior.values p = .ok values) ∧
      n.behavior.values p = .error fault := by
  induction nodes generalizing start with
  | nil => simp [pure, Except.pure]
  | cons n nodes ih =>
    rw [List.foldlM_cons]
    constructor
    · cases hvalues : n.behavior.values p with
      | error cause =>
        rintro ⟨⟩
        exact ⟨[], n, nodes, rfl, nofun, hvalues⟩
      | ok values =>
        intro hrest
        obtain ⟨before, m, after, rfl, hbefore, hfault⟩ := ih.mp hrest
        exact ⟨n :: before, m, after, rfl,
          List.forall_mem_cons.mpr ⟨⟨values, hvalues⟩, hbefore⟩, hfault⟩
    · rintro ⟨before, m, after, hnodes, hbefore, hfault⟩
      cases before with
      | nil =>
        obtain ⟨rfl, rfl⟩ := List.cons.inj hnodes
        rw [hfault]
        rfl
      | cons first before =>
        obtain ⟨rfl, rfl⟩ := List.cons.inj hnodes
        obtain ⟨⟨values, hvalues⟩, hothers⟩ := List.forall_mem_cons.mp hbefore
        rw [hvalues]
        exact ih.mpr ⟨before, m, after, rfl, hothers, hfault⟩

theorem suits_iff : p.Suits set ↔ ∃ row, record (set.nodesIn .baked) set.stride p = .ok row :=
  exists_foldlM_overwrite.symm

theorem misfits_iff :
    p.Misfits set fault ↔ record (set.nodesIn .baked) set.stride p = .error fault :=
  foldlM_overwrite_eq_error.symm

/-! ### The first particle that does not suit -/

variable {f : Initializer σ α} {total index : Nat} {indices : List Nat} {s s' s₁ : σ}

/-- The first of the given particles that does not suit a set gives the fault: it is
initialized, and so are those before it, but no others. -/
def FirstMisfit (set : NodeSet α) (f : Initializer σ α) (total : Nat) (indices : List Nat) (s : σ)
    (fault : Fault) (s' : σ) : Prop :=
  ∃ k particles p, k < indices.length ∧
    ((initializeAll f total (indices.take (k + 1))).run s).run = (particles ++ [p], s') ∧
    (∀ q ∈ particles, q.Suits set) ∧ p.Misfits set fault

theorem length_initializeAll (f : Initializer σ α) (total : Nat) (indices : List Nat) (s : σ) :
    ((initializeAll f total indices).run s).run.1.length = indices.length := by
  induction indices generalizing total s with
  | nil => rfl
  | cons index rest ih =>
    simp only [initializeAll, StateT.run_bind, StateT.run_pure, Id.run_bind, Id.run_pure,
      List.length_cons, ih]

theorem firstMisfit_cons (hcall : ((f (Particle.default index total)).run s).run = (p, s₁)) :
    FirstMisfit set f total (index :: indices) s fault s' ↔
      (p.Misfits set fault ∧ s₁ = s') ∨
        (p.Suits set ∧ FirstMisfit set f p.total indices s₁ fault s') := by
  constructor
  · rintro ⟨k, particles, q, hk, hcalls, hsuit, hmisfit⟩
    rw [List.take_succ_cons, initializeAll_cons hcall, Prod.mk.injEq] at hcalls
    obtain ⟨hparticles, hstate⟩ := hcalls
    have hlength := length_initializeAll f p.total (indices.take k) s₁
    cases particles with
    | nil =>
      obtain ⟨rfl, hnone⟩ := List.cons.inj hparticles
      rw [hnone, List.length_nil, List.length_take] at hlength
      have hzero : k = 0 := by
        rw [List.length_cons] at hk
        omega
      subst hzero
      exact .inl ⟨hmisfit, hstate⟩
    | cons first particles =>
      obtain ⟨rfl, hmore⟩ := List.cons.inj hparticles
      obtain ⟨hfirst, hothers⟩ := List.forall_mem_cons.mp hsuit
      cases k with
      | zero =>
        rw [hmore] at hlength
        simp at hlength
      | succ k =>
        exact .inr ⟨hfirst, k, particles, q, Nat.lt_of_succ_lt_succ hk,
          Prod.ext hmore hstate, hothers, hmisfit⟩
  · rintro (⟨hmisfit, rfl⟩ | ⟨hfirst, k, particles, q, hk, hcalls, hsuit, hmisfit⟩)
    · refine ⟨0, [], p, Nat.succ_pos _, ?_, nofun, hmisfit⟩
      exact initializeAll_cons hcall
    · refine ⟨k + 1, p :: particles, q, Nat.succ_lt_succ hk, ?_,
        List.forall_mem_cons.mpr ⟨hfirst, hsuit⟩, hmisfit⟩
      rw [List.take_succ_cons, initializeAll_cons hcall, hcalls]
      rfl

variable {filled sizes : Array Nat} {drafts : Array (Option (Draft α))} {runs : List Run}
  {last : Nat}

/-- **Only particles are refused**: drafts cannot be made exactly if a particle does not suit,
whatever partitions they are of and whatever the initializer does. -/
theorem fails_draftParticles (h : Fits filled drafts)
    (hruns : ParticleGeometry.checkRuns sizes last filled runs = .ok ()) :
    Fails (draftParticles set f total indices runs drafts) s fault s' ↔
      FirstMisfit set f total indices s fault s' := by
  induction indices generalizing total runs drafts filled last s with
  | nil =>
    rw [draftParticles, fails_pure, false_iff]
    rintro ⟨k, _, _, hk, -⟩
    exact Nat.not_lt_zero k hk
  | cons index rest ih =>
    rcases hcall : ((f (Particle.default index total)).run s).run with ⟨p, s₁⟩
    have hsplit : runs = runs.takeWhile (·.particle == index) ++
        runs.dropWhile (·.particle == index) := List.takeWhile_append_dropWhile.symm
    rw [hsplit] at hruns
    rw [firstMisfit_cons hcall, misfits_iff, suits_iff]
    simp only [draftParticles, fails_bind, fails_lift, yields_lift, fails_outcome, yields_outcome,
      List.span_eq_takeWhile_dropWhile, hcall, false_or, Prod.mk.injEq]
    cases hrow : record (set.nodesIn .baked) set.stride p with
    | error cause => simp [hrow]
    | ok row =>
      obtain ⟨next, _, _, hfold, hfits, hrest⟩ := h.foldlM hruns p row set.hasDynamic
      simp [hrow, hfold, ih hfits hrest]

/-! ### The attempt -/

variable {a : Animation σ α} {mesh : Mesh α} {g : ParticleGeometry}

omit [Scalar α] in
/-- What is made for a mesh can be counted in words: the vertices of its geometry, and the values
in each buffer that has to be made. -/
def Countable (a : Animation σ α) (mesh : Mesh α) : Prop :=
  ∀ g, mesh.geometry = .particles g →
    (∃ vertices, g.vertices = .ok vertices) ∧ a.HasSizes mesh g.partitions

/-- Why the data of a mesh is not made, and where the state of the initializer is left. The
reasons are looked for in this order. -/
inductive Refuses (a : Animation σ α) (mesh : Mesh α) (s : σ) : Fault → σ → Prop
  /-- There is no initializer. -/
  | noInitializer : a.initializer = none → Refuses a mesh s .missingInitializer s
  /-- The geometry has no particles. -/
  | noParticles {f : Initializer σ α} {id : GeometryId} {partitions : List Partition} :
    a.initializer = some f → mesh.geometry = .static id partitions →
      Refuses a mesh s .notParticleGeometry s
  /-- There are no vertices. -/
  | noVertices {f : Initializer σ α} {g : ParticleGeometry} : a.initializer = some f →
    mesh.geometry = .particles g → g.vertices = .ok 0 → Refuses a mesh s .emptyGeometry s
  /-- Some partition needs data, and some particle does not suit the nodes. -/
  | misfit {f : Initializer σ α} {g : ParticleGeometry} {vertices : Nat} {fault : Fault}
    {s' : σ} : a.initializer = some f → mesh.geometry = .particles g →
      g.vertices = .ok vertices → vertices ≠ 0 →
      (∃ part ∈ g.partitions, a.reusable? mesh part = none) →
      FirstMisfit a.nodes f g.particles (List.range g.particles) s fault s' →
        Refuses a mesh s fault s'

theorem fails_drafting (hg : g.Made) (hsizes : a.HasSizes mesh g.partitions) :
    Fails (a.drafting f mesh g) s fault s' ↔
      (∃ part ∈ g.partitions, a.reusable? mesh part = none) ∧
        FirstMisfit a.nodes f g.particles (List.range g.particles) s fault s' := by
  rw [drafting, (a.newDrafts_eq mesh _).1 hsizes, outcome_ok_bind, ← any_blankDrafts]
  split
  · rename_i hany
    rw [fails_map, fails_draftParticles (fits_blankDrafts a mesh g.partitions) hg.continues,
      and_iff_right hany]
  · rename_i hnone
    rw [fails_pure, false_iff]
    exact fun h => hnone h.1

theorem fails_generate_particles (hf : a.initializer = some f)
    (hmesh : mesh.geometry = .particles g) (hg : g.Made)
    (hsizes : a.HasSizes mesh g.partitions) {vertices : Nat}
    (hvertices : g.vertices = .ok vertices) (hsome : vertices ≠ 0) (buffer : Nat) :
    Fails (a.generate mesh buffer) s fault s' ↔
      (∃ part ∈ g.partitions, a.reusable? mesh part = none) ∧
        FirstMisfit a.nodes f g.particles (List.range g.particles) s fault s' := by
  rw [generate_eq hf hmesh, attempt, hvertices, outcome_ok_bind, if_neg hsome,
    ← fails_drafting hg hsizes]
  simp

theorem Refuses.fails (hmade : ∀ g, mesh.geometry = .particles g → g.Made)
    (hcount : a.Countable mesh) (h : a.Refuses mesh s fault s') (buffer : Nat) :
    Fails (a.generate mesh buffer) s fault s' := by
  cases h with
  | noInitializer hf =>
    rw [generate_none hf]
    exact fails_throw.mpr ⟨rfl, rfl⟩
  | noParticles hf hmesh =>
    rw [generate_static hf hmesh]
    exact fails_throw.mpr ⟨rfl, rfl⟩
  | noVertices hf hmesh hvertices =>
    rw [generate_eq hf hmesh, attempt, hvertices]
    rfl
  | misfit hf hmesh hvertices hsome hneed hfirst =>
    exact (fails_generate_particles hf hmesh (hmade _ hmesh) (hcount _ hmesh).2 hvertices hsome
      buffer).mpr ⟨hneed, hfirst⟩

theorem refuses_of_fails (hmade : ∀ g, mesh.geometry = .particles g → g.Made)
    (hcount : a.Countable mesh) {buffer : Nat}
    (h : Fails (a.generate mesh buffer) s fault s') : a.Refuses mesh s fault s' := by
  cases hf : a.initializer with
  | none =>
    rw [generate_none hf, fails_throw] at h
    obtain ⟨rfl, rfl⟩ := h
    exact .noInitializer hf
  | some f =>
    cases hmesh : mesh.geometry with
    | static id partitions =>
      rw [generate_static hf hmesh, fails_throw] at h
      obtain ⟨rfl, rfl⟩ := h
      exact .noParticles hf hmesh
    | particles g =>
      obtain ⟨⟨vertices, hvertices⟩, hsizes⟩ := hcount g hmesh
      by_cases hzero : vertices = 0
      · subst hzero
        rw [generate_eq hf hmesh, attempt, hvertices] at h
        cases h
        exact .noVertices hf hmesh hvertices
      · obtain ⟨hneed, hfirst⟩ :=
          (fails_generate_particles hf hmesh (hmade g hmesh) hsizes hvertices hzero buffer).mp h
        exact .misfit hf hmesh hvertices hzero hneed hfirst

omit [Scalar α] in
/-- Without vertices no buffer is too long. -/
theorem hasSizes_of_vertices (h : g.vertices = .ok 0) : a.HasSizes mesh g.partitions := by
  rw [ParticleGeometry.vertices, Size.sum_eq, Size.check_eq_ok, List.sum_eq_zero_iff_forall_eq_nat]
    at h
  intro part hpart _
  rw [h.2 _ (List.mem_map_of_mem hpart), Nat.zero_mul]
  decide

/-- What cannot be counted is refused before anything is done. -/
theorem fails_of_not_countable (hf : a.initializer = some f) (hcount : ¬ a.Countable mesh)
    (buffer : Nat) (s : σ) : Fails (a.generate mesh buffer) s .sizeOverflow s := by
  simp only [Countable, not_forall, not_and] at hcount
  obtain ⟨g, hmesh, hcount⟩ := hcount
  rw [generate_eq hf hmesh, attempt]
  cases hvertices : g.vertices with
  | error fault =>
    rw [ParticleGeometry.vertices, Size.sum_eq, Size.check_eq_error] at hvertices
    obtain ⟨rfl, -⟩ := hvertices
    rfl
  | ok vertices =>
    have hlong : ¬ a.HasSizes mesh g.partitions := hcount ⟨vertices, hvertices⟩
    have hsome : vertices ≠ 0 := by
      rintro rfl
      exact hlong (hasSizes_of_vertices hvertices)
    rw [outcome_ok_bind, if_neg hsome, drafting, (a.newDrafts_eq mesh _).2 hlong]
    rfl

/-- Data is refused for no disagreement of runs and partitions. -/
theorem Refuses.ne_geometryMismatch (ha : a.nodes.Built) (h : a.Refuses mesh s fault s')
    (cause : GeometryFault) : fault ≠ .geometryMismatch cause := by
  rintro rfl
  cases h with
  | misfit _ _ _ _ _ hfirst =>
    obtain ⟨_, _, p, -, -, -, before, n, after, hnodes, -, hfault⟩ := hfirst
    have hn : n ∈ a.nodes.nodesIn .baked := by
      rw [hnodes]
      exact List.mem_append_right _ List.mem_cons_self
    obtain ⟨hn, hmode⟩ := NodeSet.mem_nodesIn.mp hn
    exact Behavior.ofProperty_of_values (ha.isCatalogue n hn) hmode hfault

/-- **A fault changes nothing** but the state of the initializer. -/
theorem run_make_eq_error {buffer : Nat} {w : Workshop σ α} :
    make.run ⟨a, mesh, buffer, s⟩ = .error fault w ↔
      Fails (a.generate mesh buffer) s fault w.memory ∧ w = ⟨a, mesh, buffer, w.memory⟩ := by
  have hfails : Fails (a.generate mesh buffer) s fault w.memory ↔
      ∃ w', make.run ⟨a, mesh, buffer, s⟩ = .error fault w' ∧ w'.memory = w.memory := by
    unfold Fails
    rw [run_generate]
    cases make.run ⟨a, mesh, buffer, s⟩ <;> simp
  have hkeeps : ∀ w', make.run ⟨a, mesh, buffer, s⟩ = .error fault w' →
      w' = ⟨a, mesh, buffer, w'.memory⟩ := by
    intro w' h
    cases hf : a.initializer with
    | none =>
      rw [run_make_none hf] at h
      cases h
      rfl
    | some f =>
      cases hmesh : mesh.geometry with
      | static id partitions =>
        rw [run_make_static hf hmesh] at h
        cases h
        rfl
      | particles g =>
        rw [run_make hf hmesh] at h
        split at h
        · cases h
        · cases h
          rfl
  rw [hfails]
  constructor
  · exact fun h => ⟨⟨w, h, rfl⟩, hkeeps w h⟩
  · rintro ⟨⟨w', h, hmemory⟩, hw⟩
    rwa [hw, ← hmemory, ← hkeeps w' h]

/-- **Data that cannot be made**: what can be counted is refused for one of the reasons and with
the calls of the initializer that `Refuses` lists, and for no others; what cannot be counted is
refused before the first call. The data that was drafted never disagrees with the runs, all
values go to places inside the buffers, and at a fault the animation and the mesh are left as
they were. -/
theorem generate_refusal (ha : a.nodes.Built)
    (hmade : ∀ g, mesh.geometry = .particles g → g.Made) (buffer : Nat) (s : σ) :
    (a.Countable mesh → ∀ fault w, make.run ⟨a, mesh, buffer, s⟩ = .error fault w ↔
      a.Refuses mesh s fault w.memory ∧ w = ⟨a, mesh, buffer, w.memory⟩) ∧
    (a.initializer.isSome → ¬ a.Countable mesh →
      make.run ⟨a, mesh, buffer, s⟩ = .error .sizeOverflow ⟨a, mesh, buffer, s⟩) ∧
    (∀ cause w, make.run ⟨a, mesh, buffer, s⟩ ≠ .error (.geometryMismatch cause) w) ∧
    ∀ g, mesh.geometry = .particles g → a.nodes.InBounds g := by
  have hlisted (hcount : a.Countable mesh) (fault : Fault) (w : Workshop σ α) :
      make.run ⟨a, mesh, buffer, s⟩ = .error fault w ↔
        a.Refuses mesh s fault w.memory ∧ w = ⟨a, mesh, buffer, w.memory⟩ := by
    rw [run_make_eq_error]
    exact and_congr_left fun _ =>
      ⟨refuses_of_fails hmade hcount, fun h => h.fails hmade hcount buffer⟩
  have hlong {f : Initializer σ α} (hf : a.initializer = some f) (hcount : ¬ a.Countable mesh) :
      make.run ⟨a, mesh, buffer, s⟩ = .error .sizeOverflow ⟨a, mesh, buffer, s⟩ :=
    run_make_eq_error.mpr ⟨fails_of_not_countable hf hcount buffer s, rfl⟩
  refine ⟨hlisted, fun hsome hcount => ?_, fun cause w h => ?_,
    fun g hmesh => ha.inBounds (hmade g hmesh).ordered⟩
  · obtain ⟨f, hf⟩ := Option.isSome_iff_exists.mp hsome
    exact hlong hf hcount
  · by_cases hcount : a.Countable mesh
    · exact ((hlisted hcount _ w).mp h).1.ne_geometryMismatch ha cause rfl
    · cases hf : a.initializer with
      | none => cases (run_make_none hf buffer s).symm.trans h
      | some f => cases (hlong hf hcount).symm.trans h

/-- Puts the first particle in its place and counts the calls. -/
def placeFirst : Initializer Nat Rat := fun p => do
  modify (· + 1)
  return if p.index = 0 then { p with position := some Vec3.zero } else p

/-- The second particle has no position, and the third one is not initialized. -/
theorem triple_refused :
    let a := { placed with initializer := some placeFirst }
    let mesh := Mesh.ofGeometry (.particles triple) false
    a.Countable mesh ∧ a.Refuses mesh 0 (.missingProperty "position" "position") 2 ∧
      make.run ⟨a, mesh, 0, 0⟩ =
        .error (.missingProperty "position" "position") ⟨a, mesh, 0, 2⟩ := by
  intro a mesh
  have hbuilt : a.nodes.Built :=
    .add (b := .position (.perParticle .baked)) (.empty {}) (by exact trivial) rfl
  have hparts : (ParticleGeometry.ofParts [3] triple.runs 3).run {} = .ok triple ⟨1, 1⟩ := rfl
  have hmade : ∀ g, mesh.geometry = .particles g → g.Made := by
    rintro g ⟨⟩
    exact .ofParts hparts
  have hcount : a.Countable mesh := by
    rintro g ⟨⟩
    refine ⟨⟨3, rfl⟩, fun part hpart _ => ?_⟩
    obtain rfl := List.mem_singleton.mp hpart
    decide
  have hrefused : make.run ⟨a, mesh, 0, 0⟩ =
      .error (.missingProperty "position" "position") ⟨a, mesh, 0, 2⟩ := rfl
  have hlisted := (generate_refusal hbuilt hmade 0 0).1 hcount
  exact ⟨hcount, ((hlisted _ _).mp hrefused).1, hrefused⟩

/-- Nothing that is looked for is the matter with vertices that belong to no particle. -/
theorem not_refuses_of_no_particles (hf : a.initializer.isSome)
    (hmesh : mesh.geometry = .particles g) (hnone : g.particles = 0) (hsome : g.vertices ≠ .ok 0)
    (fault : Fault) (s s' : σ) : ¬ a.Refuses mesh s fault s' := by
  intro h
  cases h with
  | noInitializer hf' => simp [hf'] at hf
  | noParticles _ hmesh' => exact nomatch hmesh.symm.trans hmesh'
  | noVertices _ hmesh' hvertices =>
    obtain rfl := Geometry.particles.inj (hmesh.symm.trans hmesh')
    exact hsome hvertices
  | misfit _ hmesh' _ _ _ hfirst =>
    obtain rfl := Geometry.particles.inj (hmesh.symm.trans hmesh')
    obtain ⟨k, _, _, hk, -⟩ := hfirst
    rw [hnone] at hk
    exact Nat.not_lt_zero k hk

/-- A geometry without particles is refused, although nothing of what is looked for is the matter
with it. -/
def Unlisted (a : Animation Nat Rat) (sizes : List Nat) : Prop :=
  ∃ g ids, (ParticleGeometry.ofParts sizes [] 0).run {} = .ok g ids ∧
    let mesh := Mesh.ofGeometry (.particles g) false
    make.run ⟨a, mesh, 0, 0⟩ = .error .sizeOverflow ⟨a, mesh, 0, 0⟩ ∧
      ∀ fault s, ¬ a.Refuses mesh 0 fault s

/-- More vertices than a word can count are refused, and so are those whose values it cannot
count. -/
theorem uncounted_refused :
    placed.Unlisted [Size.bound - 1, 1] ∧ placed.Unlisted [Nat.pow 2 62] :=
  ⟨⟨_, _, rfl, rfl, fun fault s => not_refuses_of_no_particles rfl rfl rfl (by decide) fault 0 s⟩,
    ⟨_, _, rfl, rfl, fun fault s =>
      not_refuses_of_no_particles rfl rfl rfl (by decide) fault 0 s⟩⟩

end Animation

end ParticleShader
