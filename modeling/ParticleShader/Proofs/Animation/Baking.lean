import Mathlib.Data.List.TakeDrop
import Mathlib.Data.List.TakeWhile
import ParticleShader.Proofs.Geometry.Runs
import ParticleShader.Proofs.Rational
import ParticleShader.Proofs.Records.Slices

/-!
# Making data

What a mesh is given when the data of an animation is made. The initializer is
called once for every particle, in order, and whatever it does to its state is
done by these calls and no others. Each partition that needs data gets a record
for each of its vertices: the record of the particle whose run covers the vertex,
zeros where no run does.

A particle is told the total that the one before it has left, so all are told the same one as
long as nobody changes it (**`generate_bakes`**, `total_not_kept`).

The invariant is kept run by run: a draft holds the records of the runs that were
put in so far and nothing else. The runs of a particle are those at the front of
the runs that are left, since the runs come in the order of the particles.
-/

namespace ParticleShader

variable {σ α : Type} [Scalar α]

/-! ### The calls of the initializer -/

/-- The particles of the given indices, initialized one after the other. Each
starts from the defaults and is told the total that the one before it leaves. -/
def Animation.initializeAll (f : Initializer σ α) : Nat → List Nat → StateM σ (List (Particle α))
  | _, [] => pure []
  | total, index :: rest => do
    let p ← f (Particle.default index total)
    return p :: (← initializeAll f p.total rest)

theorem Animation.initializeAll_cons {f : Initializer σ α} {total index : Nat}
    {indices : List Nat} {s s₁ : σ} {p : Particle α}
    (hcall : ((f (Particle.default index total)).run s).run = (p, s₁)) :
    ((initializeAll f total (index :: indices)).run s).run =
      (p :: ((initializeAll f p.total indices).run s₁).run.1,
        ((initializeAll f p.total indices).run s₁).run.2) := by
  simp only [initializeAll, StateT.run_bind, StateT.run_pure, Id.run_bind, Id.run_pure, hcall]

/-- As long as no particle changes the total, the next one is told the same. -/
theorem Animation.mapM_eq_initializeAll {f : Initializer σ α} {total : Nat} {indices : List Nat}
    {s s' : σ} {particles : List (Particle α)}
    (hcalls : ((initializeAll f total indices).run s).run = (particles, s'))
    (htotal : ∀ p ∈ particles.dropLast, p.total = total) :
    ((indices.mapM fun index => f (Particle.default index total)).run s).run =
      (particles, s') := by
  induction indices generalizing s particles with
  | nil => exact hcalls
  | cons index rest ih =>
    rcases hcall : ((f (Particle.default index total)).run s).run with ⟨p, s₁⟩
    rw [initializeAll_cons hcall] at hcalls
    rcases hmore : ((initializeAll f p.total rest).run s₁).run with ⟨more, s₂⟩
    rw [hmore] at hcalls
    cases hcalls
    cases rest with
    | nil =>
      cases hmore
      simp only [List.mapM_cons, List.mapM_nil, StateT.run_bind, StateT.run_pure, Id.run_bind,
        Id.run_pure, hcall]
    | cons next rest =>
      have hne : more ≠ [] := by
        rintro rfl
        rcases hnext : ((f (Particle.default next p.total)).run s₁).run with ⟨q, s₃⟩
        rw [initializeAll_cons hnext] at hmore
        cases hmore
      rw [List.dropLast_cons_of_ne_nil hne] at htotal
      obtain ⟨hp, hrest⟩ := List.forall_mem_cons.mp htotal
      rw [hp] at hmore
      have hall := ih hmore hrest
      rw [List.mapM_cons]
      simp only [StateT.run_bind, StateT.run_pure, Id.run_bind, Id.run_pure, hcall]
      simp only [hall]

/-! ### Drafts -/

/-- The lives of runs in a partition. -/
def livesOf (particles : List (Particle α)) (partition : PartitionId) (runs : List Run) :
    List (RunRecord α) :=
  runs.filterMap fun r => particles[r.particle]?.map (r.recordFor partition)

/-- The draft of the partition at a position holds the given runs and nothing
else. -/
structure Draft.Holds (set : NodeSet α) (particles : List (Particle α)) (done : List Run)
    (position : Nat) (d : Draft α) : Prop where
  /-- A vertex of a run has the record of its particle. -/
  covered : ∀ r ∈ done, ∀ v, r.Covers position v → ∃ p row, particles[r.particle]? = some p ∧
    Animation.record (set.nodesIn .baked) set.stride p = .ok row ∧ d.rows[v]? = some row
  /-- All vertices so far belong to runs. -/
  only : ∀ v < d.rows.size, ∃ r ∈ done, r.Covers position v
  /-- The lives of the runs are kept if some node is evaluated for every frame. -/
  lives : d.runs.toList = if set.hasDynamic then
    livesOf particles d.partition.id (done.filter (·.partition = position)) else []

namespace Draft.Holds

variable {set : NodeSet α} {particles : List (Particle α)} {done : List Run} {position : Nat}
  {d : Draft α} {run : Run} {p : Particle α} {row : List α}

theorem new (partition : Partition) :
    Draft.Holds set particles [] position ({ partition } : Draft α) :=
  ⟨fun _ hr => by simp at hr, fun v hv => by simp at hv, by simp [livesOf]⟩

/-- One more run of the partition. -/
theorem push (h : d.Holds set particles done position) (hpart : run.partition = position)
    (hfirst : d.rows.size = run.first) (hp : particles[run.particle]? = some p)
    (hrow : Animation.record (set.nodesIn .baked) set.stride p = .ok row) :
    (d.push run p row set.hasDynamic).Holds set particles (done ++ [run]) position := by
  refine ⟨fun r hr v hv => ?_, fun v hv => ?_, ?_⟩
  · rcases List.mem_append.mp hr with hr | hr
    · obtain ⟨q, qrow, hq, hqrow, hat⟩ := h.covered r hr v hv
      refine ⟨q, qrow, hq, hqrow, ?_⟩
      obtain ⟨hlt, -⟩ := Array.getElem?_eq_some_iff.mp hat
      rw [Draft.push, Array.getElem?_append_left hlt, hat]
    · rw [List.mem_singleton] at hr
      subst hr
      obtain ⟨-, hle, hlt⟩ := hv
      refine ⟨p, row, hp, hrow, ?_⟩
      rw [Draft.push, Array.getElem?_append_right (by omega), Array.getElem?_replicate,
        if_pos (by omega)]
  · by_cases hlt : v < d.rows.size
    · obtain ⟨r, hr, hcover⟩ := h.only v hlt
      exact ⟨r, List.mem_append_left _ hr, hcover⟩
    · simp only [Draft.push, Array.size_append, Array.size_replicate] at hv
      exact ⟨run, by simp, hpart, by omega, by omega⟩
  · simp only [Draft.push, List.filter_append, List.filter_singleton, hpart, decide_true]
    cases hdynamic : set.hasDynamic
    · simpa [hdynamic] using h.lives
    · have hlives := h.lives
      simp only [hdynamic, if_true] at hlives
      simp [hlives, livesOf, hp]

/-- A run of another partition. -/
theorem skip (h : d.Holds set particles done position) (hpart : run.partition ≠ position) :
    d.Holds set particles (done ++ [run]) position := by
  refine ⟨fun r hr v hv => ?_, fun v hv => ?_, ?_⟩
  · rcases List.mem_append.mp hr with hr | hr
    · exact h.covered r hr v hv
    · rw [List.mem_singleton] at hr
      subst hr
      exact absurd hv.1 hpart
  · obtain ⟨r, hr, hcover⟩ := h.only v hv
    exact ⟨r, List.mem_append_left _ hr, hcover⟩
  · simpa [hpart] using h.lives

/-- More particles change nothing, if those of the runs are known. -/
theorem mono (h : d.Holds set particles done position)
    (hknown : ∀ r ∈ done, r.particle < particles.length) (more : List (Particle α)) :
    d.Holds set (particles ++ more) done position := by
  refine ⟨fun r hr v hv => ?_, h.only, ?_⟩
  · rw [List.getElem?_append_left (hknown r hr)]
    exact h.covered r hr v hv
  · rw [h.lives]
    congr 1
    refine List.filterMap_congr fun r hr => ?_
    rw [List.getElem?_append_left (hknown r (List.mem_filter.mp hr).1)]

end Draft.Holds

/-! ### Runs -/

/-- The drafts of the wanted partitions hold the given runs. -/
structure Drafted (set : NodeSet α) (wanted : Array (Option Partition))
    (particles : List (Particle α)) (done : List Run) (drafts : Array (Option (Draft α))) :
    Prop where
  /-- Each wanted partition has a draft, and only those have one. -/
  partitions : drafts.map (Option.map (·.partition)) = wanted
  /-- The particles of the runs are known. -/
  known : ∀ r ∈ done, r.particle < particles.length
  /-- A draft holds the runs of its partition. -/
  holds : ∀ position (d : Draft α), drafts[position]? = some (some d) →
    d.Holds set particles done position

variable {set : NodeSet α} {wanted : Array (Option Partition)} {particles : List (Particle α)}
  {done runs : List Run} {drafts drafts' : Array (Option (Draft α))} {run : Run}
  {p : Particle α} {row : List α}

namespace Animation

omit [Scalar α] in
/-- A run goes into the draft of its partition, where it continues what is there. -/
theorem draftRun_eq_ok {keep : Bool} (h : draftRun p row keep drafts run = .ok drafts') :
    drafts' = drafts.modify run.partition (Option.map (·.push run p row keep)) ∧
      ∀ d, drafts[run.partition]? = some (some d) → d.rows.size = run.first := by
  unfold draftRun at h
  cases hat : drafts[run.partition]?.join with
  | none =>
    simp only [hat, Option.map_none, Except.ok.injEq] at h
    subst h
    refine ⟨Array.ext_getElem? fun i => ?_, fun d hd => by simp [hd] at hat⟩
    rw [Array.getElem?_modify]
    split
    · rename_i hi
      subst hi
      rcases hslot : drafts[run.partition]? with _ | _ | d
      · rfl
      · rfl
      · simp [hslot] at hat
    · rfl
  | some d =>
    simp only [hat, Option.map_some] at h
    split at h
    · rename_i hfirst
      cases h
      refine ⟨rfl, fun d' hd' => ?_⟩
      rw [hd', Option.join_some, Option.some.injEq] at hat
      rw [hat, hfirst]
    · cases h

end Animation

namespace Drafted

open Animation

theorem mono (h : Drafted set wanted particles done drafts) (more : List (Particle α)) :
    Drafted set wanted (particles ++ more) done drafts := by
  refine ⟨h.partitions, fun r hr => ?_,
    fun position d hd => (h.holds position d hd).mono h.known more⟩
  rw [List.length_append]
  exact Nat.lt_add_right _ (h.known r hr)

/-- One run. -/
theorem draftRun (h : Drafted set wanted particles done drafts)
    (hp : particles[run.particle]? = some p)
    (hrow : Animation.record (set.nodesIn .baked) set.stride p = .ok row)
    (hrun : Animation.draftRun p row set.hasDynamic drafts run = .ok drafts') :
    Drafted set wanted particles (done ++ [run]) drafts' := by
  obtain ⟨rfl, hfirst⟩ := draftRun_eq_ok hrun
  refine ⟨?_, fun r hr => ?_, fun position d' hd' => ?_⟩
  · rw [← h.partitions]
    refine Array.ext_getElem? fun i => ?_
    rw [Array.getElem?_map, Array.getElem?_map, Array.getElem?_modify]
    split
    · rw [Option.map_map]
      congr 1
      funext slot
      cases slot <;> rfl
    · rfl
  · rcases List.mem_append.mp hr with hr | hr
    · exact h.known r hr
    · rw [List.mem_singleton] at hr
      subst hr
      exact (List.getElem?_eq_some_iff.mp hp).1
  · rw [Array.getElem?_modify] at hd'
    split at hd'
    · rename_i hpart
      rw [Option.map_eq_some_iff] at hd'
      obtain ⟨slot, hslot, hmap⟩ := hd'
      obtain ⟨d, rfl, rfl⟩ := Option.map_eq_some_iff.mp hmap
      exact (h.holds position d hslot).push hpart (hfirst d (hpart ▸ hslot)) hp hrow
    · rename_i hpart
      exact (h.holds position d' hd').skip hpart

/-- The runs of one particle. -/
theorem foldlM (h : Drafted set wanted particles done drafts)
    (hp : ∀ r ∈ runs, particles[r.particle]? = some p)
    (hrow : Animation.record (set.nodesIn .baked) set.stride p = .ok row)
    (hruns : runs.foldlM (Animation.draftRun p row set.hasDynamic) drafts = .ok drafts') :
    Drafted set wanted particles (done ++ runs) drafts' := by
  induction runs generalizing done drafts with
  | nil =>
    rw [List.foldlM_nil, Outcome.pure_eq_ok] at hruns
    rw [List.append_nil, ← hruns]
    exact h
  | cons run rest ih =>
    rw [List.foldlM_cons, Outcome.bind_eq_ok] at hruns
    obtain ⟨next, hrun, hrest⟩ := hruns
    have hstep := h.draftRun (hp run List.mem_cons_self) hrow hrun
    have hall := ih hstep (fun r hr => hp r (List.mem_cons_of_mem _ hr)) hrest
    rwa [List.append_assoc, List.singleton_append] at hall

theorem exists_draft {position : Nat} {part : Partition}
    (h : Drafted set wanted particles done drafts) (hpart : wanted[position]? = some (some part)) :
    ∃ d : Draft α, drafts[position]? = some (some d) ∧ d.partition = part := by
  rw [← h.partitions, Array.getElem?_map, Option.map_eq_some_iff] at hpart
  obtain ⟨slot, hslot, hpart⟩ := hpart
  obtain ⟨d, rfl, rfl⟩ := Option.map_eq_some_iff.mp hpart
  exact ⟨d, hslot, rfl⟩

end Drafted

/-! ### Particles -/

omit [Scalar α] in
/-- The runs of the next particle stand before those of the others. -/
theorem dropWhile_particle_lt {k : Nat}
    (hascending : runs.Pairwise fun r r' => r.particle ≤ r'.particle)
    (hfrom : ∀ r ∈ runs, k ≤ r.particle) :
    ∀ r ∈ runs.dropWhile (·.particle == k), k + 1 ≤ r.particle := by
  induction runs with
  | nil => simp
  | cons run rest ih =>
    obtain ⟨hfirst, hrest⟩ := List.pairwise_cons.mp hascending
    by_cases hk : run.particle = k
    · rw [List.dropWhile_cons_of_pos (by simp [hk])]
      exact ih hrest fun r hr => hfrom r (List.mem_cons_of_mem _ hr)
    · rw [List.dropWhile_cons_of_neg (by simp [hk])]
      have hlt : k < run.particle := Nat.lt_of_le_of_ne (hfrom run List.mem_cons_self) (Ne.symm hk)
      intro r hr
      rcases List.mem_cons.mp hr with rfl | hr
      · exact hlt
      · exact Nat.le_trans hlt (hfirst r hr)

/-- The particles from `k` on and all runs that are left. -/
theorem Drafted.draftParticles {f : Initializer σ α} {k m total : Nat} {s s' : σ}
    (hd : Drafted set wanted particles done drafts) (hk : particles.length = k)
    (hascending : runs.Pairwise fun r r' => r.particle ≤ r'.particle)
    (hrange : ∀ r ∈ runs, k ≤ r.particle ∧ r.particle < k + m)
    (h : Yields (Animation.draftParticles set f total (List.range' k m) runs drafts) s drafts' s') :
    ∃ more, ((Animation.initializeAll f total (List.range' k m)).run s).run = (more, s') ∧
      more.length = m ∧ Drafted set wanted (particles ++ more) (done ++ runs) drafts' := by
  induction m generalizing k total runs particles done drafts s with
  | zero =>
    rw [List.range'_zero, Animation.draftParticles, yields_pure] at h
    obtain ⟨rfl, rfl⟩ := h
    have hnone : runs = [] := List.eq_nil_iff_forall_not_mem.mpr fun r hr => by
      have := hrange r hr
      omega
    exact ⟨[], rfl, rfl, by simpa [hnone] using hd⟩
  | succ m ih =>
    rw [List.range'_succ] at h ⊢
    simp only [Animation.draftParticles, yields_bind, yields_lift, yields_outcome,
      List.span_eq_takeWhile_dropWhile] at h
    obtain ⟨p, s₁, hcall, row, _, ⟨hrow, rfl⟩, next, _, ⟨hmine, rfl⟩, hrest⟩ := h
    have hparticle : (particles ++ [p])[k]? = some p := by
      rw [← hk, List.getElem?_concat_length]
    have hown : ∀ r ∈ runs.takeWhile (·.particle == k), r.particle = k := fun r hr => by
      simpa using List.mem_takeWhile_imp hr
    have hnext := (hd.mono [p]).foldlM (fun r hr => by rw [hown r hr, hparticle]) hrow hmine
    obtain ⟨more, hcalls, hlen, hall⟩ := ih hnext (by simp [hk])
      (hascending.sublist (List.dropWhile_sublist _))
      (fun r hr => ⟨dropWhile_particle_lt hascending (fun r hr => (hrange r hr).1) r hr, by
        have := (hrange r ((List.dropWhile_sublist _).subset hr)).2
        omega⟩) hrest
    refine ⟨p :: more, ?_, by simp [hlen], ?_⟩
    · simp only [Animation.initializeAll, StateT.run_bind, StateT.run_pure, Id.run_bind,
        Id.run_pure, hcall, hcalls]
    · rwa [List.append_assoc, List.append_assoc, List.takeWhile_append_dropWhile] at hall

/-! ### Attaching -/

namespace Animation

variable {a a' : Animation σ α} {mesh mesh' : Mesh α} {g : ParticleGeometry}

/-- A partition keeps the data that may be used again; any other one gets the data
of its draft. -/
theorem attach_getElem? {slots : List (Option (SharedBake α))} {drafted : List (Option (Draft α))}
    (hlen : slots.length = drafted.length)
    (hnew : ∀ i : Nat, slots[i]? = some none → ∃ d, drafted[i]? = some (some d))
    (buffer position : Nat) :
    (∀ used, slots[position]? = some (some used) →
      (a.attach buffer slots drafted).1[position]? = some used) ∧
    ∀ d, slots[position]? = some none → drafted[position]? = some (some d) → ∃ fresh,
      (a.attach buffer slots drafted).1[position]? =
        some ⟨fresh, d.bake a.nodes.stride a.nodes.dynamicStride⟩ := by
  induction slots generalizing drafted buffer position with
  | nil => simp
  | cons slot slots ih =>
    obtain _ | ⟨draft, drafted⟩ := drafted
    · simp at hlen
    · have hrest := ih (Nat.succ.inj hlen) fun i hi => hnew (i + 1) hi
      cases slot with
      | some used =>
        cases position with
        | zero => simp [attach]
        | succ position => simpa [attach] using hrest buffer position
      | none =>
        obtain ⟨d, hd⟩ := hnew 0 rfl
        rw [List.getElem?_cons_zero, Option.some.injEq] at hd
        subst hd
        cases position with
        | zero => simp [attach]
        | succ position => simpa [attach] using hrest (buffer + 1) position

/-- The data made for the partition at a position of a geometry from its
particles. -/
structure Bakes (set : NodeSet α) (g : ParticleGeometry) (particles : List (Particle α))
    (position : Nat) (part : Partition) (b : Bake α) : Prop where
  /-- It is the data of the partition. -/
  partition : b.partition = part.id ∧ b.vertices = part.vertices
  /-- It has the layout of the set. -/
  layout : b.stride = set.stride ∧ b.dynamicStride = set.dynamicStride
  /-- There is a record for every vertex. -/
  rows : b.rows.size = part.vertices
  /-- The buffer has the records one after the other and nothing else. -/
  floats : b.rows.toList.flatten.length = part.vertices * set.stride
  /-- A vertex of a run has the values of the particle in the places of the nodes. -/
  covered : ∀ r ∈ g.runs, ∀ v, r.Covers position v → ∃ p row, particles[r.particle]? = some p ∧
    b.rows[v]? = some row ∧ ∀ n ∈ set.nodesIn .baked, Holds row p n
  /-- A vertex of no run has zeros. -/
  uncovered : ∀ v < part.vertices, (∀ r ∈ g.runs, ¬ r.Covers position v) →
    b.rows[v]? = some (zeroRecord set.stride)
  /-- The lives of the runs are kept, in order, if some node is evaluated for every
  frame. -/
  lives : b.runs = if set.hasDynamic then
    livesOf particles part.id (g.runs.filter (·.partition = position)) else []

omit [Scalar α] in
theorem length_flatten_of_length {rows : List (List α)} {stride : Nat}
    (h : ∀ row ∈ rows, row.length = stride) : rows.flatten.length = rows.length * stride := by
  rw [List.length_flatten, List.map_eq_replicate_iff.mpr h, List.sum_replicate_nat]

/-- The data of a draft that holds all runs. -/
theorem bakes_of_holds {set : NodeSet α} (hset : set.Built) (hg : g.Ordered)
    {particles : List (Particle α)} {position : Nat} {d : Draft α}
    (hpart : g.partitions[position]? = some d.partition)
    (h : d.Holds set particles g.runs position) :
    Bakes set g particles position d.partition (d.bake set.stride set.dynamicStride) := by
  have hsize : d.rows.size ≤ d.partition.vertices := by
    by_contra hlt
    obtain ⟨r, hr, hposition, -, hend⟩ := h.only (d.rows.size - 1) (by omega)
    obtain ⟨part, hat, hinside⟩ := hg.inside r hr
    rw [hposition, hpart, Option.some.injEq] at hat
    subst hat
    omega
  have hrows : (d.bake set.stride set.dynamicStride).rows.size = d.partition.vertices := by
    simp only [Draft.bake, Array.size_append, Array.size_replicate]
    omega
  have hfront : ∀ v < d.rows.size,
      (d.bake set.stride set.dynamicStride).rows[v]? = d.rows[v]? := by
    intro v hlt
    rw [Draft.bake, Array.getElem?_append_left hlt]
  have hrest : ∀ v, d.rows.size ≤ v → v < d.partition.vertices →
      (d.bake set.stride set.dynamicStride).rows[v]? = some (zeroRecord set.stride) := by
    intro v hle hlt
    rw [Draft.bake, Array.getElem?_append_right hle, Array.getElem?_replicate, if_pos (by omega)]
  refine ⟨⟨rfl, rfl⟩, ⟨rfl, rfl⟩, hrows, ?_, ?_, ?_, h.lives⟩
  · rw [length_flatten_of_length, Array.length_toList, hrows]
    intro row hrow
    obtain ⟨v, hat⟩ := List.mem_iff_getElem?.mp hrow
    rw [Array.getElem?_toList] at hat
    by_cases hlt : v < d.rows.size
    · obtain ⟨r, hr, hv⟩ := h.only v hlt
      obtain ⟨p, row', -, hrow', hat'⟩ := h.covered r hr v hv
      rw [hfront v hlt, hat', Option.some.injEq] at hat
      rw [← hat, (record_eq_ok hset hrow').1]
    · have hv := (Array.getElem?_eq_some_iff.mp hat).1
      rw [hrest v (Nat.le_of_not_lt hlt) (hrows ▸ hv), Option.some.injEq] at hat
      rw [← hat, zeroRecord, List.length_replicate]
  · intro r hr v hv
    obtain ⟨p, row, hp, hrow, hat⟩ := h.covered r hr v hv
    have hlt := (Array.getElem?_eq_some_iff.mp hat).1
    exact ⟨p, row, hp, by rw [hfront v hlt, hat], (record_eq_ok hset hrow).2⟩
  · intro v hv hnone
    refine hrest v ?_ hv
    by_contra hlt
    obtain ⟨r, hr, hcover⟩ := h.only v (by omega)
    exact hnone r hr hcover

/-! ### The data of a mesh -/

variable {f : Initializer σ α}

/-- The partitions that need data, each in its position. -/
def needed (a : Animation σ α) (mesh : Mesh α) (partitions : List Partition) :
    Array (Option Partition) :=
  (partitions.map fun part => if (a.reusable? mesh part).isSome then none else some part).toArray

omit [Scalar α] in
theorem needed_getElem? {position : Nat} {part : Partition} {partitions : List Partition}
    (hpart : partitions[position]? = some part) (hnone : a.reusable? mesh part = none) :
    (a.needed mesh partitions)[position]? = some (some part) := by
  simp [needed, hpart, hnone]

omit [Scalar α] in
/-- The buffers of the partitions that need data have lengths that fit in a word. -/
def HasSizes (a : Animation σ α) (mesh : Mesh α) (partitions : List Partition) : Prop :=
  ∀ part ∈ partitions, a.reusable? mesh part = none →
    part.vertices * a.nodes.stride < Size.bound

omit [Scalar α] in
/-- An empty draft for every partition that needs data, whatever its length is. -/
def blankDrafts (a : Animation σ α) (mesh : Mesh α) (partitions : List Partition) :
    List (Option (Draft α)) :=
  partitions.map fun part =>
    if (a.reusable? mesh part).isSome then none else some { partition := part }

omit [Scalar α] in
theorem any_blankDrafts (a : Animation σ α) (mesh : Mesh α) (partitions : List Partition) :
    (a.blankDrafts mesh partitions).any Option.isSome = true ↔
      ∃ part ∈ partitions, a.reusable? mesh part = none := by
  simp only [blankDrafts, List.any_map, List.any_eq_true, Function.comp_apply]
  refine exists_congr fun part => and_congr_right fun _ => ?_
  cases a.reusable? mesh part <;> simp

omit [Scalar α] in
theorem ofPartition_eq {part : Partition} {stride : Nat} :
    (Draft.ofPartition part stride : Except Fault (Draft α)) =
      if part.vertices * stride < Size.bound then .ok { partition := part }
      else .error .sizeOverflow := by
  unfold Draft.ofPartition Size.mul Size.check
  split <;> rfl

omit [Scalar α] in
/-- **Empty drafts** are given out unless the buffer of one of them is too long. -/
theorem newDrafts_eq (a : Animation σ α) (mesh : Mesh α) (partitions : List Partition) :
    (a.HasSizes mesh partitions →
      a.newDrafts mesh partitions = .ok (a.blankDrafts mesh partitions)) ∧
    (¬ a.HasSizes mesh partitions → a.newDrafts mesh partitions = .error .sizeOverflow) := by
  unfold newDrafts HasSizes
  induction partitions with
  | nil => exact ⟨fun _ => rfl, fun h => absurd nofun h⟩
  | cons part partitions ih =>
    obtain ⟨hok, herror⟩ := ih
    rw [List.forall_mem_cons, List.mapM_cons, blankDrafts, List.map_cons, ofPartition_eq]
    cases hreusable : a.reusable? mesh part with
    | some used =>
      refine ⟨fun h => ?_, fun h => ?_⟩
      · rw [hok h.2]
        rfl
      · rw [herror fun hrest => h ⟨nofun, hrest⟩]
        rfl
    | none =>
      by_cases hsize : part.vertices * a.nodes.stride < Size.bound
      · rw [if_pos hsize]
        refine ⟨fun h => ?_, fun h => ?_⟩
        · rw [hok h.2]
          rfl
        · rw [herror fun hrest => h ⟨fun _ => hsize, hrest⟩]
          rfl
      · rw [if_neg hsize]
        exact ⟨fun h => absurd (h.1 rfl) hsize, fun _ => rfl⟩

omit [Scalar α] in
theorem newDrafts_eq_ok {partitions : List Partition} {drafts : List (Option (Draft α))} :
    a.newDrafts mesh partitions = .ok drafts ↔
      a.HasSizes mesh partitions ∧ a.blankDrafts mesh partitions = drafts := by
  obtain ⟨hok, herror⟩ := newDrafts_eq a mesh partitions
  by_cases h : a.HasSizes mesh partitions
  · rw [hok h, and_iff_right h, Except.ok.injEq]
  · simp [herror h, h]

/-- At the beginning no run is in a draft. -/
theorem drafted_blankDrafts (set : NodeSet α) (partitions : List Partition) :
    Drafted set (a.needed mesh partitions) [] [] (a.blankDrafts mesh partitions).toArray := by
  refine ⟨?_, fun r hr => by simp at hr, fun position d hd => ?_⟩
  · rw [blankDrafts, needed, List.map_toArray, List.map_map]
    congr 2
    funext part
    rw [Function.comp_apply]
    split <;> rfl
  · rw [List.getElem?_toArray, blankDrafts, List.getElem?_map, Option.map_eq_some_iff] at hd
    obtain ⟨part, -, hd⟩ := hd
    split at hd
    · cases hd
    · cases hd
      exact .new part

/-- When all particles are done, all runs are in the drafts. -/
theorem drafted_all {drafts : Array (Option (Draft α))} {s s' : σ} (hg : g.Ordered)
    (h : Yields (draftParticles a.nodes f g.particles (List.range g.particles) g.runs
      (a.blankDrafts mesh g.partitions).toArray) s drafts s') :
    ∃ particles,
      ((initializeAll f g.particles (List.range g.particles)).run s).run = (particles, s') ∧
      particles.length = g.particles ∧
      Drafted a.nodes (a.needed mesh g.partitions) particles g.runs drafts := by
  rw [List.range_eq_range'] at h ⊢
  exact (drafted_blankDrafts a.nodes g.partitions).draftParticles (k := 0) rfl hg.ascending
    (fun r hr => ⟨Nat.zero_le _, by simpa using hg.counted r hr⟩) h

/-- What the partitions get when all runs are in the drafts. -/
theorem attach_drafted {particles : List (Particle α)} {drafts : Array (Option (Draft α))}
    {position : Nat} {part : Partition} (ha : a.nodes.Built) (hg : g.Ordered)
    (hall : Drafted a.nodes (a.needed mesh g.partitions) particles g.runs drafts) (buffer : Nat)
    (hpart : g.partitions[position]? = some part) :
    match a.reusable? mesh part with
    | some used =>
      (a.attach buffer (g.partitions.map (a.reusable? mesh)) drafts.toList).1[position]? = some used
    | none => ∃ made,
      (a.attach buffer (g.partitions.map (a.reusable? mesh)) drafts.toList).1[position]? =
        some made ∧ Bakes a.nodes g particles position part made.bake := by
  have hlength : (g.partitions.map (a.reusable? mesh)).length = drafts.toList.length := by
    rw [List.length_map, Array.length_toList, ← Array.size_map, hall.partitions, needed,
      List.size_toArray, List.length_map]
  have hnew : ∀ i : Nat, (g.partitions.map (a.reusable? mesh))[i]? = some none →
      ∃ d, drafts.toList[i]? = some (some d) := by
    intro i hi
    rw [List.getElem?_map, Option.map_eq_some_iff] at hi
    obtain ⟨part, hpart, hnone⟩ := hi
    obtain ⟨d, hd, -⟩ := hall.exists_draft (needed_getElem? hpart hnone)
    exact ⟨d, by rw [Array.getElem?_toList, hd]⟩
  obtain ⟨hkept, hmade⟩ := attach_getElem? (a := a) hlength hnew buffer position
  split
  · rename_i used hused
    exact hkept used (by rw [List.getElem?_map, hpart, Option.map_some, hused])
  · rename_i hnone
    obtain ⟨d, hd, rfl⟩ := hall.exists_draft (needed_getElem? hpart hnone)
    obtain ⟨fresh, hat⟩ := hmade d (by rw [List.getElem?_map, hpart, Option.map_some, hnone])
      (by rw [Array.getElem?_toList, hd])
    exact ⟨_, hat, bakes_of_holds ha hg hpart (hall.holds position d hd)⟩

/-! ### Making data, step by step -/

/-- The drafts that are made for a mesh: of all particles, unless no partition needs data. -/
def drafting (a : Animation σ α) (f : Initializer σ α) (mesh : Mesh α) (g : ParticleGeometry) :
    ExceptT Fault (StateM σ) (List (Option (Draft α))) := do
  let drafts ← ExceptT.mk (pure (a.newDrafts mesh g.partitions))
  if drafts.any Option.isSome then
    Array.toList <$> draftParticles a.nodes f g.particles (List.range g.particles) g.runs
      drafts.toArray
  else pure drafts

/-- Making the data of a geometry of particles, as far as the state of the initializer goes: all
drafts are made before anything is handed over. -/
def attempt (a : Animation σ α) (f : Initializer σ α) (mesh : Mesh α) (g : ParticleGeometry)
    (buffer : Nat) : ExceptT Fault (StateM σ) (Animation σ α × Mesh α × Nat) := do
  if (← ExceptT.mk (pure g.vertices)) = 0 then throw .emptyGeometry
  let drafts ← a.drafting f mesh g
  let (all, fresh, next) :=
    a.attach buffer (g.partitions.map (a.reusable? mesh)) drafts
  let kept := if mesh.share then fresh ++ a.kept else a.kept
  return ({ a with kept }, { mesh with bakes := all.map some }, next)

theorem run_fillDrafts {drafts : List (Option (Draft α))} (w : Workshop σ α) :
    (fillDrafts f g drafts).run w =
      if drafts.any Option.isSome then
        match ((draftParticles w.animation.nodes f g.particles (List.range g.particles) g.runs
          drafts.toArray).run.run w.memory).run with
        | (.ok filled, memory) => .ok filled.toList { w with memory }
        | (.error fault, memory) => .error fault { w with memory }
      else .ok drafts w := by
  unfold fillDrafts EStateM.run
  cases drafts.any Option.isSome with
  | false => rfl
  | true =>
    rcases hrun : ((draftParticles w.animation.nodes f g.particles (List.range g.particles)
      g.runs drafts.toArray).run.run w.memory).run with ⟨_ | filled, memory⟩ <;>
    · simp only [if_true]
      rw [show (draftParticles w.animation.nodes f g.particles (List.range g.particles)
        g.runs drafts.toArray).run w.memory = _ from hrun]

theorem run_make (hf : a.initializer = some f) (hmesh : mesh.geometry = .particles g)
    (buffer : Nat) (s : σ) :
    make.run ⟨a, mesh, buffer, s⟩ =
      match ((a.attempt f mesh g buffer).run.run s).run with
      | (.ok (a', mesh', next), s') => .ok ⟨⟩ ⟨a', mesh', next, s'⟩
      | (.error fault, s') => .error fault ⟨a, mesh, buffer, s'⟩ := by
  have hmake : make.run (⟨a, mesh, buffer, s⟩ : Workshop σ α) = (do
      if (← MonadExcept.ofExcept g.vertices) = 0 then throw .emptyGeometry
      let drafts ← MonadExcept.ofExcept (a.newDrafts mesh g.partitions)
      let drafts ← fillDrafts f g drafts
      handOver g drafts : Making σ α Unit).run ⟨a, mesh, buffer, s⟩ := by
    obtain ⟨nodes, _, kept⟩ := a
    obtain ⟨_, share, bakes, dynamics⟩ := mesh
    cases hf
    cases hmesh
    rfl
  rw [hmake]
  unfold attempt drafting
  cases hvertices : g.vertices with
  | error fault => rfl
  | ok vertices =>
    simp only [ofExcept_ok_bind, outcome_ok_bind]
    by_cases hzero : vertices = 0
    · simp only [hzero, if_true]
      rfl
    · simp only [hzero, if_false]
      cases hnew : a.newDrafts mesh g.partitions with
      | error fault => rfl
      | ok drafts =>
        simp only [ofExcept_ok_bind, outcome_ok_bind]
        rw [EStateM.run_bind, run_fillDrafts]
        cases hany : drafts.any Option.isSome with
        | false => rfl
        | true =>
          simp only [if_true]
          rw [ExceptT.run_bind, StateT.run_bind, Id.run_bind, ExceptT.run_map, StateT.run_map,
            Id.run_map]
          rcases ((draftParticles a.nodes f g.particles (List.range g.particles) g.runs
            drafts.toArray).run.run s).run with ⟨_ | filled, memory⟩ <;> rfl

/-- Without an initializer nothing is done. -/
theorem run_make_none (hf : a.initializer = none) (buffer : Nat) (s : σ) :
    make.run ⟨a, mesh, buffer, s⟩ = .error .missingInitializer ⟨a, mesh, buffer, s⟩ := by
  obtain ⟨nodes, _, kept⟩ := a
  cases hf
  rfl

/-- Without particles nothing is done. -/
theorem run_make_static {id : GeometryId} {parts : List Partition} (hf : a.initializer = some f)
    (hmesh : mesh.geometry = .static id parts) (buffer : Nat) (s : σ) :
    make.run ⟨a, mesh, buffer, s⟩ = .error .notParticleGeometry ⟨a, mesh, buffer, s⟩ := by
  obtain ⟨nodes, _, kept⟩ := a
  obtain ⟨_, share, bakes, dynamics⟩ := mesh
  cases hf
  cases hmesh
  rfl

theorem run_generate (a : Animation σ α) (mesh : Mesh α) (buffer : Nat) (s : σ) :
    ((a.generate mesh buffer).run.run s).run =
      match make.run (⟨a, mesh, buffer, s⟩ : Workshop σ α) with
      | .ok _ w => (.ok (w.animation, w.mesh, w.buffer), w.memory)
      | .error fault w => (.error fault, w.memory) := rfl

theorem generate_none (hf : a.initializer = none) (buffer : Nat) :
    a.generate mesh buffer = throw .missingInitializer := by
  funext s
  have hrun := run_generate a mesh buffer s
  rwa [run_make_none hf] at hrun

theorem generate_static {id : GeometryId} {parts : List Partition} (hf : a.initializer = some f)
    (hmesh : mesh.geometry = .static id parts) (buffer : Nat) :
    a.generate mesh buffer = throw .notParticleGeometry := by
  funext s
  have hrun := run_generate a mesh buffer s
  rwa [run_make_static hf hmesh] at hrun

theorem generate_eq (hf : a.initializer = some f) (hmesh : mesh.geometry = .particles g)
    (buffer : Nat) : a.generate mesh buffer = a.attempt f mesh g buffer := by
  funext s
  have hrun := run_generate a mesh buffer s
  rw [run_make hf hmesh] at hrun
  refine hrun.trans ?_
  show _ = ((a.attempt f mesh g buffer).run.run s).run
  rcases ((a.attempt f mesh g buffer).run.run s).run with ⟨_ | made, s'⟩ <;> rfl

/-- What it takes to make data, and exactly what comes of it. -/
theorem yields_generate {buffer next : Nat} {s s' : σ}
    (h : Yields (a.generate mesh buffer) s (a', mesh', next) s') :
    ∃ f g vertices drafts all fresh, a.initializer = some f ∧ mesh.geometry = .particles g ∧
      g.vertices = .ok vertices ∧ vertices ≠ 0 ∧ Yields (a.drafting f mesh g) s drafts s' ∧
      a.attach buffer (g.partitions.map (a.reusable? mesh)) drafts = (all, fresh, next) ∧
      a' = { a with kept := if mesh.share then fresh ++ a.kept else a.kept } ∧
      mesh' = { mesh with bakes := all.map some } := by
  cases hf : a.initializer with
  | none =>
    rw [generate_none hf, yields_throw] at h
    exact h.elim
  | some f =>
    cases hmesh : mesh.geometry with
    | static id parts =>
      rw [generate_static hf hmesh, yields_throw] at h
      exact h.elim
    | particles g =>
      rw [generate_eq hf hmesh, attempt] at h
      simp only [yields_bind, yields_outcome] at h
      obtain ⟨vertices, _, ⟨hvertices, rfl⟩, h⟩ := h
      split at h
      · simp at h
      · rename_i hzero
        simp only [yields_bind, yields_pure, Prod.mk.injEq] at h
        obtain ⟨drafts, _, hdrafts, ⟨rfl, rfl, rfl⟩, rfl⟩ := h
        exact ⟨f, g, vertices, drafts, _, _, rfl, rfl, hvertices, hzero, hdrafts, rfl,
          by rw [hf], by rw [hmesh]⟩

/-- If some partition needs data, the drafts are those of all particles. -/
theorem yields_drafting (hneed : ∃ part ∈ g.partitions, a.reusable? mesh part = none)
    {drafts : List (Option (Draft α))} {s s' : σ} (h : Yields (a.drafting f mesh g) s drafts s') :
    a.HasSizes mesh g.partitions ∧ ∃ filled,
      Yields (draftParticles a.nodes f g.particles (List.range g.particles) g.runs
        (a.blankDrafts mesh g.partitions).toArray) s filled s' ∧ filled.toList = drafts := by
  have hany := (any_blankDrafts a mesh g.partitions).mpr hneed
  unfold drafting at h
  simp only [yields_bind, yields_outcome, newDrafts_eq_ok] at h
  obtain ⟨_, _, ⟨⟨hsizes, rfl⟩, rfl⟩, h⟩ := h
  rw [if_pos hany, yields_map] at h
  exact ⟨hsizes, h⟩

/-- **Made data**: if some partition needs data, the initializer is called once for
each particle, in order, every time on the defaults of that particle; the first one is told the
number of particles as their total, and so is every other one as long as no particle before it
changed the total. Every such partition gets its data, and the others keep the data that is used
again. -/
theorem generate_bakes {buffer next : Nat} {s s' : σ} (ha : a.nodes.Built)
    (hf : a.initializer = some f) (hmesh : mesh.geometry = .particles g) (hg : g.Made)
    (hneed : ∃ part ∈ g.partitions, a.reusable? mesh part = none)
    (h : ((a.generate mesh buffer).run.run s).run = (.ok (a', mesh', next), s')) :
    ∃ particles, ((initializeAll f g.particles (List.range g.particles)).run s).run =
        (particles, s') ∧
      ((∀ p ∈ particles.dropLast, p.total = g.particles) →
        (((List.range g.particles).mapM fun index => f (.default index g.particles)).run s).run =
          (particles, s')) ∧
      particles.length = g.particles ∧
      ∀ (position : Nat) part, g.partitions[position]? = some part →
        match a.reusable? mesh part with
        | some used => mesh'.bake? position = some used
        | none => ∃ made, mesh'.bake? position = some made ∧
          Bakes a.nodes g particles position part made.bake := by
  obtain ⟨f', g', _, drafts, _, _, hf', hmesh', -, -, hdrafts, hattached, rfl, rfl⟩ :=
    yields_generate h
  obtain rfl : f = f' := Option.some.inj (hf.symm.trans hf')
  obtain rfl : g = g' := Geometry.particles.inj (hmesh.symm.trans hmesh')
  obtain ⟨-, filled, hfilled, rfl⟩ := yields_drafting hneed hdrafts
  obtain ⟨particles, hcalls, hlength, hall⟩ := drafted_all hg.ordered hfilled
  refine ⟨particles, hcalls, mapM_eq_initializeAll hcalls, hlength, fun position part hpart => ?_⟩
  have hattach := attach_drafted ha hg.ordered hall buffer hpart
  rw [hattached] at hattach
  simp only [Mesh.bake?, List.getElem?_map]
  split at hattach
  · rw [hattach]
    rfl
  · obtain ⟨made, hat, hmade⟩ := hattach
    exact ⟨made, by rw [hat]; rfl, hmade⟩

/-- Puts a particle at its index and counts the call. -/
def countCall : Initializer Nat Rat := fun p => do
  modify (· + 1)
  return { p with position := some ⟨Scalar.nat p.index, Scalar.one, Scalar.zero⟩ }

/-- A set with a position for each particle. -/
def placed : Animation Nat Rat where
  nodes :=
    { nodes :=
        [{ behavior := .time {}, id := 0 },
         { behavior := .position (.perParticle .baked), id := 1, offset := 4 }]
      stride := 7 }
  initializer := some countCall

/-- One particle of two vertices, of the three in its partition. -/
def pair : ParticleGeometry where
  id := 0
  partitions := [⟨0, 3⟩]
  runs := [⟨0, 0, 0, 2⟩]
  particles := 1

theorem placed_generate_pair : ∃ a' mesh' next,
    ((placed.generate (.ofGeometry (.particles pair) true) 0).run.run 0).run =
      (.ok (a', mesh', next), 1) ∧
    ∃ particles made,
      (((List.range 1).mapM fun index => countCall (.default index 1)).run 0).run =
        (particles, 1) ∧
      mesh'.bake? 0 = some made ∧ Bakes placed.nodes pair particles 0 ⟨0, 3⟩ made.bake := by
  have hadd : (NodeSet.empty {}).add (.position (.perParticle .baked)) = .ok (placed.nodes, 1) :=
    rfl
  have hparts : (ParticleGeometry.ofParts [3] pair.runs 1).run {} = .ok pair ⟨1, 1⟩ := rfl
  have hneed : ∃ part ∈ pair.partitions,
      placed.reusable? (.ofGeometry (.particles pair) true) part = none :=
    ⟨⟨0, 3⟩, List.mem_singleton_self _, rfl⟩
  have hbuilt : placed.nodes.Built := .add (.empty {}) (by exact trivial) hadd
  obtain ⟨a', mesh', next, hmade⟩ : ∃ a' mesh' next,
      ((placed.generate (.ofGeometry (.particles pair) true) 0).run.run 0).run =
        (.ok (a', mesh', next), 1) := ⟨_, _, _, rfl⟩
  refine ⟨a', mesh', next, hmade, ?_⟩
  obtain ⟨particles, -, htold, hlength, hbakes⟩ :=
    generate_bakes hbuilt rfl rfl (.ofParts hparts) hneed hmade
  obtain ⟨made, hat, hbake⟩ := hbakes 0 ⟨0, 3⟩ rfl
  have honly : particles.dropLast = [] := by
    rw [← List.length_eq_zero_iff, List.length_dropLast, hlength]
    rfl
  exact ⟨particles, made, htold (by simp [honly]), hat, hbake⟩

/-- Notes the totals that particles are told, and sets another one. -/
def setTotal : Initializer (List Nat) Rat := fun p => do
  modify (· ++ [p.total])
  return { p with total := 7, position := some Vec3.zero }

/-- Three particles of one vertex each. -/
def triple : ParticleGeometry where
  id := 0
  partitions := [⟨0, 3⟩]
  runs := [⟨0, 0, 0, 1⟩, ⟨1, 0, 1, 1⟩, ⟨2, 0, 2, 1⟩]
  particles := 3

/-- Only the first of three particles is told that there are three of them if the initializer sets
the total; and vertices that are a word may have records that are not. -/
theorem total_not_kept :
    ((generate { nodes := placed.nodes, initializer := some setTotal }
      (.ofGeometry (.particles triple) true) 0).run.run []).run.2 = [3, 7, 7] ∧
    ((placed.generate (.ofGeometry (.particles
      { id := 0, partitions := [⟨0, Nat.pow 2 62⟩], runs := [], particles := 0 }) true) 0).run.run
        0).run.1.toOption.isNone := by
  refine ⟨rfl, ?_⟩
  rw [generate_eq rfl rfl, attempt]
  rfl

end Animation

end ParticleShader
