import ParticleShader.Proofs.Animation.Sharing

/-!
# Meshes that are given data

What a mesh holds after anything that may happen to it: its geometry is replaced, it shares
data or not, animations of any layout make data for it or fail to, and write into it for a
frame. Its slots are all empty or all filled, with data of one layout, and the data in a slot
belongs to the partition there (**`Reached.intact`**).

Writing goes from partition to partition and looks at each one only when it gets there. Since
the slots agree, it is refused at the first one or not at all, so a refused write has done
nothing; and since the records tell of runs inside the partition, no write leaves its buffer
(**`writes_spec`**). The one thing that may go wrong later is the length of a new buffer, if it
is no word.
-/

namespace ParticleShader

open IdSupply.Supplies

variable {σ α : Type} [Scalar α]

/-! ### Data and its partition -/

omit [Scalar α] in
/-- Data belongs to the partition at a position of a geometry. -/
structure Bake.Fits (b : Bake α) (g : ParticleGeometry) (position : Nat) (part : Partition) :
    Prop where
  /-- It has the identity of the partition. -/
  partition : b.partition = part.id
  /-- It has as many vertices. -/
  vertices : b.vertices = part.vertices
  /-- Its records tell of runs of the geometry in that partition. -/
  runs : ∀ r ∈ b.runs, ∃ run ∈ g.runs, ∃ p : Particle α,
    run.partition = position ∧ r = run.recordFor part.id p
  /-- The runs lie among the vertices. -/
  inside : ∀ r ∈ b.runs, r.first + r.count ≤ b.vertices

/-- The data of a draft that holds the runs of a partition belongs to it. -/
theorem Draft.Holds.fits {set : NodeSet α} {particles : List (Particle α)} {g : ParticleGeometry}
    {position : Nat} {d : Draft α} (h : d.Holds set particles g.runs position) (hg : g.Ordered)
    (hpart : g.partitions[position]? = some d.partition) (stride dynamicStride : Nat) :
    (d.bake stride dynamicStride).Fits g position d.partition := by
  have hruns : ∀ r ∈ d.runs.toList, ∃ run ∈ g.runs, ∃ p : Particle α,
      run.partition = position ∧ r = run.recordFor d.partition.id p := by
    intro r hr
    rw [h.lives] at hr
    split at hr
    · obtain ⟨run, hrun, hlife⟩ := List.mem_filterMap.mp hr
      obtain ⟨hmem, hposition⟩ := List.mem_filter.mp hrun
      obtain ⟨p, -, rfl⟩ := Option.map_eq_some_iff.mp hlife
      exact ⟨run, hmem, p, of_decide_eq_true hposition, rfl⟩
    · exact absurd hr List.not_mem_nil
  refine ⟨rfl, rfl, hruns, fun r hr => ?_⟩
  obtain ⟨run, hrun, p, hposition, rfl⟩ := hruns r hr
  obtain ⟨part, hat, hend⟩ := hg.inside run hrun
  rw [hposition, hpart, Option.some.injEq] at hat
  subst hat
  exact hend

omit [Scalar α] in
/-- The slots hold data of one layout for every partition of a geometry. -/
structure ParticleGeometry.Filled (g : ParticleGeometry) (stride dynamicStride : Nat)
    (slots : List (Option (SharedBake α))) : Prop where
  /-- There is a slot for every partition. -/
  length : slots.length = g.partitions.length
  /-- A slot holds data of the layout that belongs to its partition. -/
  slot : ∀ (position : Nat) part, g.partitions[position]? = some part →
    ∃ shared, slots[position]? = some (some shared) ∧ shared.bake.stride = stride ∧
      shared.bake.dynamicStride = dynamicStride ∧ shared.bake.Fits g position part

omit [Scalar α] in
/-- What a slot holds belongs to the partition there. -/
theorem ParticleGeometry.Filled.fits {g : ParticleGeometry} {stride dynamicStride position : Nat}
    {slots : List (Option (SharedBake α))} {slot : Option (SharedBake α)}
    (h : g.Filled stride dynamicStride slots) (hslot : slots[position]? = some slot) :
    ∃ shared part, slot = some shared ∧ g.partitions[position]? = some part ∧
      shared.bake.dynamicStride = dynamicStride ∧ shared.bake.Fits g position part := by
  obtain ⟨hlt, -⟩ := List.getElem?_eq_some_iff.mp hslot
  have hpart := List.getElem?_eq_getElem (h.length ▸ hlt)
  obtain ⟨shared, hat, -, hdynamic, hfits⟩ := h.slot position _ hpart
  rw [hslot, Option.some.injEq] at hat
  exact ⟨shared, _, hat, hpart, hdynamic, hfits⟩

/-! ### Making data with any initializer -/

namespace Animation

variable {a a' : Animation σ α} {mesh mesh' : Mesh α} {g : ParticleGeometry}
  {gs : List ParticleGeometry} {ids : IdSupply} {f : Initializer σ α}
  {drafts : List (Option (Draft α))} {buffer next : Nat} {s s' : σ}

/-- Particles as an effect: whatever an initializer made of them, they are what they are. -/
theorem sequence_getD (particles : List (Particle α)) {k m : Nat} (total : Nat)
    (hlength : k + m = particles.length) :
    sequence (fun index total => particles.getD index (.default index total)) total
      (List.range' k m) = particles.drop k := by
  induction m generalizing k total with
  | zero => rw [List.drop_eq_nil_of_le (by omega)]; rfl
  | succ m ih =>
    have hlt : k < particles.length := by omega
    rw [List.range'_succ, sequence, ih _ (by omega), List.drop_eq_getElem_cons hlt,
      List.getD_eq_getElem?_getD, List.getElem?_eq_getElem hlt, Option.getD_some]

/-- Drafts that are made are complete, for some effect. -/
theorem exists_complete (hg : g.Ordered) (h : Yields (a.drafting f mesh g) s drafts s') :
    ∃ effect, Complete a mesh effect g drafts := by
  unfold drafting at h
  simp only [yields_bind, yields_outcome, newDrafts_eq_ok] at h
  obtain ⟨_, _, ⟨⟨-, rfl⟩, rfl⟩, h⟩ := h
  cases hany : (a.blankDrafts mesh g.partitions).any Option.isSome with
  | false =>
    simp only [hany, Bool.false_eq_true, if_false, yields_pure] at h
    obtain ⟨rfl, -⟩ := h
    exact ⟨Particle.default, complete_blankDrafts hany⟩
  | true =>
    simp only [hany, if_true, yields_map] at h
    obtain ⟨made, hmade, rfl⟩ := h
    obtain ⟨particles, -, hlength, hall⟩ := drafted_all hg hmade
    refine ⟨fun index total => particles.getD index (.default index total), complete_of_drafted ?_⟩
    rw [particlesIn, List.range_eq_range', sequence_getD _ _ (by rw [hlength, Nat.zero_add]),
      List.drop_zero]
    exact hall

/-! ### What is kept -/

omit [Scalar α] in
/-- Everything that is kept belongs to a partition of one of the geometries. -/
def Keeps (gs : List ParticleGeometry) (a : Animation σ α) : Prop :=
  ∀ k ∈ a.kept, ∃ g ∈ gs, ∃ (position : Nat) (part : Partition),
    g.partitions[position]? = some part ∧ k.bake.Fits g position part

omit [Scalar α] in
/-- Data that is used again for a partition belongs to it, and has the layout of the set. -/
theorem Keeps.fits (h : a.Keeps gs) (hknown : Known ids gs) (hg : g ∈ gs) {position : Nat}
    {part : Partition} (hpart : g.partitions[position]? = some part) {used : SharedBake α}
    (hused : a.reusable? mesh part = some used) :
    used.bake.stride = a.nodes.stride ∧ used.bake.dynamicStride = a.nodes.dynamicStride ∧
      used.bake.Fits g position part := by
  unfold reusable? at hused
  split at hused
  · have hkey := List.find?_some hused
    simp only [Bool.and_eq_true, beq_iff_eq] at hkey
    obtain ⟨⟨hid, hstride⟩, hdynamic⟩ := hkey
    obtain ⟨g', hg', position', part', hpart', hfits⟩ := h used (List.mem_of_find?_eq_some hused)
    obtain ⟨rfl, rfl, rfl⟩ :=
      hknown.unique hg' hg hpart' hpart (hfits.partition.symm.trans hid)
    exact ⟨hstride, hdynamic, hfits⟩
  · cases hused

/-- Complete drafts fill the slots with data of the layout of the set. -/
theorem Keeps.filled (h : a.Keeps gs) (hknown : Known ids gs) (hg : g ∈ gs)
    {effect : Nat → Nat → Particle α} (hdrafts : Complete a mesh effect g drafts) (buffer : Nat) :
    g.Filled a.nodes.stride a.nodes.dynamicStride
      ((a.attach buffer (g.partitions.map (a.reusable? mesh)) drafts).1.map some) := by
  obtain ⟨hlength, hattached⟩ := hdrafts.attached buffer
  refine ⟨(List.length_map ..).trans hlength, fun position part hpart => ?_⟩
  obtain ⟨made, hat, hslot⟩ := hattached position part hpart
  refine ⟨made, by rw [List.getElem?_map, hat]; rfl, ?_⟩
  rcases hslot with hused | ⟨d, rfl, hholds, hbake⟩
  · exact h.fits hknown hg hpart hused
  · rw [hbake]
    exact ⟨rfl, rfl, hholds.fits (hknown.made g hg).ordered hpart ..⟩

/-- Data that was made for a mesh fills its slots, and is kept for its partitions. -/
theorem Keeps.generate (h : a.Keeps gs) (hknown : Known ids gs)
    (hmesh : ∀ g, mesh.geometry = .particles g → g ∈ gs)
    (hmade : Yields (a.generate mesh buffer) s (a', mesh', next) s') :
    a'.Keeps gs ∧ ∃ g bakes, mesh.geometry = .particles g ∧ mesh' = { mesh with bakes } ∧
      g.Filled a.nodes.stride a.nodes.dynamicStride bakes := by
  obtain ⟨f, g, drafts, kept, -, hgeometry, -, hdrafts, rfl, hkept, rfl⟩ := generate_eq_ok hmade
  have hg := hmesh g hgeometry
  have hordered := (hknown.made g hg).ordered
  obtain ⟨effect, hcomplete⟩ := exists_complete hordered hdrafts
  refine ⟨fun k hk => ?_, g, _, hgeometry, rfl, h.filled hknown hg hcomplete buffer⟩
  rcases hkept k hk with hold | ⟨position, d, hd, hbake⟩
  · exact h k hold
  · obtain ⟨hpart, hholds⟩ := hcomplete.holds position d hd
    refine ⟨g, hg, position, d.partition, hpart, ?_⟩
    rw [hbake]
    exact hholds.fits hordered hpart ..

/-- The animations that a history over geometries leads to. The initializer may be replaced
or taken away at any time. -/
inductive Arises (gs : List ParticleGeometry) : Animation σ α → Prop where
  /-- An animation without nodes. -/
  | start (lifecycle : Lifecycle) : Arises gs (empty lifecycle)
  /-- Another initializer, or none. -/
  | initialized {a : Animation σ α} (initializer : Option (Initializer σ α)) :
    Arises gs a → Arises gs { a with initializer }
  /-- One more event. -/
  | step {a a' : Animation σ α} : Arises gs a → Goes gs a a' → Arises gs a'

/-- **A step** keeps nothing that belongs to no partition. -/
theorem Keeps.goes (h : a.Keeps gs) (hknown : Known ids gs) (hstep : Goes gs a a') :
    a'.Keeps gs := by
  cases hstep with
  | added hadd =>
    simp only [add, Outcome.bind_eq_ok, Outcome.pure_eq_ok, Prod.mk.injEq] at hadd
    obtain ⟨_, -, rfl, -⟩ := hadd
    exact fun k hk => absurd hk List.not_mem_nil
  | addRefused => exact h
  | made hmesh hmade => exact (h.generate hknown hmesh hmade).1
  | madeRefused => exact h
  | invalidated geometry => exact fun k hk => h k (List.mem_filter.mp hk).1

/-- **A run** neither. -/
theorem Arises.keeps (h : a.Arises gs) (hknown : Known ids gs) : a.Keeps gs := by
  induction h with
  | start lifecycle => exact fun k hk => absurd hk List.not_mem_nil
  | initialized _ _ ih => exact ih
  | step _ hstep ih => exact ih.goes hknown hstep

/-- Only additions change the nodes. -/
theorem Arises.grown (h : a.Arises gs) : a.nodes.Grown := by
  induction h with
  | start lifecycle => exact .empty lifecycle
  | initialized _ _ ih => exact ih
  | step _ hstep ih =>
    cases hstep with
    | added hadd =>
      simp only [add, Outcome.bind_eq_ok, Outcome.pure_eq_ok, Prod.mk.injEq] at hadd
      obtain ⟨_, hnodes, rfl, -⟩ := hadd
      exact .add ih hnodes
    | addRefused => exact ih
    | made _ hmade =>
      obtain ⟨_, _, _, _, -, -, -, -, rfl, -⟩ := generate_eq_ok hmade
      exact ih
    | madeRefused => exact ih
    | invalidated geometry => exact ih

end Animation

/-! ### Writing into a buffer -/

namespace DynamicBuffer

variable {b : DynamicBuffer α} {vertices offset : Nat}

omit [Scalar α] in
/-- A buffer has a record of the same length for each of some vertices. -/
structure Shaped (b : DynamicBuffer α) (vertices : Nat) : Prop where
  /-- There are as many records as vertices. -/
  size : b.rows.size = vertices
  /-- They are as long as the buffer says. -/
  length : ∀ row ∈ b.rows, row.length = b.stride

omit [Scalar α] in
/-- The values of a node for a run have their places in a buffer: every vertex has a record
with room for them, and the places are among the values of the buffer, of which the records
lie one behind the other. -/
def Takes (b : DynamicBuffer α) (run : RunRecord α) (offset length : Nat) : Prop :=
  ∀ v, run.first ≤ v → v < run.first + run.count →
    (∃ row, b.rows[v]? = some row ∧ offset + length ≤ row.length) ∧
      v * b.stride + offset + length ≤ b.rows.toList.flatten.length

omit [Scalar α] in
theorem Shaped.takes {run : RunRecord α} {length : Nat} (h : b.Shaped vertices)
    (hrun : run.first + run.count ≤ vertices) (hfit : offset + length ≤ b.stride) :
    b.Takes run offset length := by
  intro v _ hv
  have hlt : v < b.rows.size := by rw [h.size]; omega
  have hflat : b.rows.toList.flatten.length = vertices * b.stride := by
    rw [Animation.length_flatten_of_length, Array.length_toList, h.size]
    exact fun row hrow => h.length row (Array.mem_toList_iff.mp hrow)
  refine ⟨⟨_, Array.getElem?_eq_getElem hlt, ?_⟩, ?_⟩
  · rw [h.length _ (Array.getElem_mem hlt)]
    exact hfit
  · calc v * b.stride + offset + length
        ≤ v * b.stride + b.stride := by rw [Nat.add_assoc]; exact Nat.add_le_add_left hfit _
      _ = (v + 1) * b.stride := (Nat.succ_mul ..).symm
      _ ≤ vertices * b.stride := Nat.mul_le_mul_right _ (by omega)
      _ = b.rows.toList.flatten.length := hflat.symm

theorem zero_eq_ok {stride : Nat} : zero vertices stride = .ok b ↔
    vertices * stride < Size.bound ∧
      { stride, rows := Array.replicate vertices (zeroRecord stride) } = b := by
  unfold zero
  simp only [Outcome.bind_eq_ok, Size.mul_eq_ok, Outcome.pure_eq_ok]
  constructor
  · rintro ⟨_, ⟨hfit, -⟩, hb⟩
    exact ⟨hfit, hb⟩
  · rintro ⟨hfit, hb⟩
    exact ⟨_, ⟨hfit, rfl⟩, hb⟩

theorem zero_eq_error {stride : Nat} {fault : Fault} :
    (zero vertices stride : Except Fault (DynamicBuffer α)) = .error fault ↔
      fault = .sizeOverflow ∧ Size.bound ≤ vertices * stride := by
  unfold zero
  rw [Outcome.bind_eq_error, Size.mul_eq_error]
  simp

/-- A new buffer has a record for every vertex. -/
theorem shaped_zero {stride : Nat} (h : zero vertices stride = .ok b) :
    b.Shaped vertices ∧ b.stride = stride := by
  obtain ⟨-, rfl⟩ := zero_eq_ok.mp h
  refine ⟨⟨Array.size_replicate, fun row hrow => ?_⟩, rfl⟩
  rw [(Array.mem_replicate.mp hrow).2]
  exact List.length_replicate

omit [Scalar α] in
/-- Values that are written where they have their places leave the shape as it is. -/
theorem Shaped.write {values : List α} (h : b.Shaped vertices)
    (hfit : offset + values.length ≤ b.stride) (first count : Nat) :
    (b.write first count offset values).Shaped vertices := by
  suffices ∀ (written : List Nat) (rows : Array (List α)),
      (∀ row ∈ rows, row.length = b.stride) →
      let filled := written.foldl (fun rows v => rows.modify v (overwrite · offset values)) rows
      filled.size = rows.size ∧ ∀ row ∈ filled, row.length = b.stride by
    obtain ⟨hsize, hlength⟩ := this (List.range' first count) b.rows h.length
    exact ⟨hsize.trans h.size, hlength⟩
  intro written
  induction written with
  | nil => exact fun rows hrows => ⟨rfl, hrows⟩
  | cons v written ih =>
    intro rows hrows
    have hnext : ∀ row ∈ rows.modify v (overwrite · offset values), row.length = b.stride := by
      intro row hrow
      obtain ⟨i, hi⟩ := Array.mem_iff_getElem?.mp hrow
      rw [Array.getElem?_modify] at hi
      split at hi
      · obtain ⟨old, hold, rfl⟩ := Option.map_eq_some_iff.mp hi
        have hlength := hrows old (Array.mem_of_getElem? hold)
        rw [length_overwrite (by omega), hlength]
      · exact hrows row (Array.mem_of_getElem? hi)
    obtain ⟨hsize, hlength⟩ := ih _ hnext
    exact ⟨hsize.trans Array.size_modify, hlength⟩

end DynamicBuffer

namespace Animation

variable {a : Animation σ α} {fill : Fill σ α} {b : DynamicBuffer α}
  {vertices offset length stride : Nat}

/-- The buffer of a partition when a node has filled it for the given runs. -/
abbrev filledBuffer (fill : Fill σ α) (offset length : Nat) (runs : List (RunRecord α))
    (b : DynamicBuffer α) (s : σ) : DynamicBuffer α :=
  ((fillRuns fill offset length runs b).run s).run.1

/-- Filling leaves the shape as it is. -/
theorem shaped_filledBuffer (h : b.Shaped vertices) (hfit : offset + length ≤ b.stride)
    (fill : Fill σ α) (runs : List (RunRecord α)) (s : σ) :
    (filledBuffer fill offset length runs b s).Shaped vertices ∧
      (filledBuffer fill offset length runs b s).stride = b.stride := by
  induction runs generalizing b s with
  | nil => exact ⟨h, rfl⟩
  | cons run runs ih =>
    have hvalues : ∀ values : Vector α length, offset + values.toList.length ≤ b.stride :=
      fun values => by rwa [Vector.length_toList]
    exact ih (h.write (hvalues _) run.first run.count) hfit _

/-- The buffer that is filled is shaped as its data says. -/
theorem shaped_currentBuffer {bake : Bake α} {buffer : Option (DynamicBuffer α)}
    (hbuffer : ∀ b, buffer = some b → b.Shaped bake.vertices)
    (h : currentBuffer bake stride buffer = .ok b) :
    b.Shaped bake.vertices ∧ b.stride = stride := by
  unfold currentBuffer at h
  cases buffer with
  | none => exact DynamicBuffer.shaped_zero h
  | some old =>
    simp only at h
    split at h
    · rename_i hsame
      cases h
      exact ⟨hbuffer _ rfl, hsame.1⟩
    · exact DynamicBuffer.shaped_zero h

theorem currentBuffer_eq_error {bake : Bake α} {buffer : Option (DynamicBuffer α)} {fault : Fault}
    (h : currentBuffer bake stride buffer = .error fault) :
    fault = .sizeOverflow ∧ Size.bound ≤ bake.vertices * stride := by
  unfold currentBuffer at h
  cases buffer with
  | none => exact DynamicBuffer.zero_eq_error.mp h
  | some old =>
    simp only at h
    split at h
    · cases h
    · exact DynamicBuffer.zero_eq_error.mp h

/-! ### Writing into the buffers of a mesh -/

variable {slots : List (Option (SharedBake α))} {buffers : List (Option (DynamicBuffer α))}

/-- Slots with data of one layout are written to the end, or to the first buffer that would be
too long. -/
theorem fillPartitions_cases (fill : Fill σ α) (offset length : Nat)
    (h : ∀ slot ∈ slots, ∃ shared, slot = some shared ∧ shared.bake.dynamicStride = stride)
    (position : Nat) (buffers : List (Option (DynamicBuffer α))) (s : σ) :
    let outcome := ((fillPartitions fill offset length stride position slots buffers).run s).run.1.1
    outcome = .ok () ∨ outcome = .error .sizeOverflow ∧
      ∃ shared, some shared ∈ slots ∧ Size.bound ≤ shared.bake.vertices * stride := by
  induction slots generalizing position buffers s with
  | nil => exact .inl rfl
  | cons slot slots ih =>
    obtain ⟨⟨shared, rfl, hstride⟩, hrest⟩ := List.forall_mem_cons.mp h
    cases buffers with
    | nil => exact .inl rfl
    | cons buffer buffers =>
      simp only [fillPartitions, hstride, ne_eq, not_true_eq_false, if_false]
      cases hcurrent : currentBuffer shared.bake stride buffer with
      | error fault =>
        obtain ⟨rfl, hlong⟩ := currentBuffer_eq_error hcurrent
        exact .inr ⟨rfl, shared, List.mem_cons_self, hlong⟩
      | ok current =>
        refine (ih hrest (position + 1) buffers
          ((fillRuns fill offset length shared.bake.runs current).run s).run.2).imp_right ?_
        rintro ⟨houtcome, shared', hshared, hlong⟩
        exact ⟨houtcome, shared', List.mem_cons_of_mem _ hshared, hlong⟩

/-- A buffer that is there after writing was there before, or it was filled. -/
theorem getElem?_fillPartitions (fill : Fill σ α) (offset length stride position : Nat)
    (slots : List (Option (SharedBake α))) (buffers : List (Option (DynamicBuffer α))) (s : σ) :
    let written := ((fillPartitions fill offset length stride position slots buffers).run s).run.1.2
    written.length = buffers.length ∧ ∀ (i : Nat) (b : DynamicBuffer α),
      written[i]? = some (some b) → buffers[i]? = some (some b) ∨
        ∃ shared buffer current s₁, slots[i]? = some (some shared) ∧ buffers[i]? = some buffer ∧
          currentBuffer shared.bake stride buffer = .ok current ∧
          b = filledBuffer fill offset length shared.bake.runs current s₁ := by
  induction slots generalizing position buffers s with
  | nil => exact ⟨rfl, fun i b hb => .inl hb⟩
  | cons slot slots ih =>
    cases buffers with
    | nil => exact ⟨rfl, fun i b hb => .inl hb⟩
    | cons buffer buffers =>
      cases slot with
      | none => exact ⟨rfl, fun i b hb => .inl hb⟩
      | some shared =>
        by_cases hstride : shared.bake.dynamicStride = stride
        · simp only [fillPartitions, hstride, ne_eq, not_true_eq_false, if_false]
          cases hcurrent : currentBuffer shared.bake stride buffer with
          | error fault => exact ⟨rfl, fun i b hb => .inl hb⟩
          | ok current =>
            obtain ⟨hlength, hrest⟩ := ih (position + 1) buffers
              ((fillRuns fill offset length shared.bake.runs current).run s).run.2
            refine ⟨congrArg (· + 1) hlength, fun i b hb => ?_⟩
            cases i with
            | zero =>
              obtain rfl := Option.some.inj (Option.some.inj hb)
              exact .inr ⟨shared, buffer, current, s, rfl, rfl, hcurrent, rfl⟩
            | succ i => exact hrest i b hb
        · simp only [fillPartitions, hstride, ne_eq, not_false_eq_true, if_true]
          exact ⟨rfl, fun i b hb => .inl hb⟩

end Animation

namespace Mesh

open Animation

variable {a a' : Animation σ α} {mesh mesh' : Mesh α} {gs : List ParticleGeometry}
  {ids : IdSupply} {position : Nat} {shared : SharedBake α}

/-! ### What always holds of a mesh -/

omit [Scalar α] in
/-- The slots and the buffers of a mesh agree with its geometry and with each other. -/
structure Intact (gs : List ParticleGeometry) (mesh : Mesh α) : Prop where
  /-- A geometry of particles is one of the given ones. -/
  known : ∀ g, mesh.geometry = .particles g → g ∈ gs
  /-- There is a slot for every partition. -/
  bakes : mesh.bakes.length = mesh.geometry.partitions.length
  /-- There is room for a buffer for every partition. -/
  dynamics : mesh.dynamics.length = mesh.geometry.partitions.length
  /-- The slots are all empty, or all filled with data of one layout. -/
  slots : (∀ slot ∈ mesh.bakes, slot = none) ∨ ∃ g stride dynamicStride,
    mesh.geometry = .particles g ∧ g.Filled stride dynamicStride mesh.bakes
  /-- A buffer has a record for every vertex of its partition. -/
  buffers : ∀ (position : Nat) (b : DynamicBuffer α), mesh.dynamic? position = some b →
    ∃ part, mesh.geometry.partitions[position]? = some part ∧ b.Shaped part.vertices

omit [Scalar α] in
theorem intact_ofGeometry {geometry : Geometry} (hknown : ∀ g, geometry = .particles g → g ∈ gs)
    (share : Bool) : (ofGeometry geometry share : Mesh α).Intact gs := by
  refine ⟨hknown, List.length_map .., List.length_map .., .inl fun slot hslot => ?_,
    fun position b hb => ?_⟩
  · obtain ⟨_, -, rfl⟩ := List.mem_map.mp hslot
    rfl
  · obtain ⟨_, -, hnone⟩ := List.mem_map.mp (List.mem_of_getElem? (Option.join_eq_some_iff.mp hb))
    cases hnone

namespace Intact

omit [Scalar α] in
theorem sharing (h : mesh.Intact gs) (share : Bool) : (mesh.sharing share).Intact gs :=
  ⟨h.known, h.bakes, h.dynamics, h.slots, h.buffers⟩

theorem generate (h : mesh.Intact gs) (hknown : Known ids gs) (ha : a.Keeps gs)
    {buffer next : Nat} {s s' : σ}
    (hmade : Yields (a.generate mesh buffer) s (a', mesh', next) s') : mesh'.Intact gs := by
  obtain ⟨-, g, bakes, hgeometry, rfl, hfilled⟩ := ha.generate hknown h.known hmade
  refine ⟨h.known, ?_, h.dynamics, .inr ⟨g, _, _, hgeometry, hfilled⟩, h.buffers⟩
  rw [hfilled.length, hgeometry]
  rfl

omit [Scalar α] in
/-- The data in a slot belongs to the partition there. -/
theorem exists_fits (h : mesh.Intact gs) (hslot : mesh.bake? position = some shared) :
    ∃ g part, mesh.geometry = .particles g ∧ g.partitions[position]? = some part ∧
      shared.bake.Fits g position part := by
  have hslot := Option.join_eq_some_iff.mp hslot
  rcases h.slots with hempty | ⟨g, stride, dynamicStride, hgeometry, hfilled⟩
  · have hnone := hempty _ (List.mem_of_getElem? hslot)
    cases hnone
  · obtain ⟨_, part, hsame, hpart, -, hfits⟩ := hfilled.fits hslot
    obtain rfl := Option.some.inj hsame
    exact ⟨g, part, hgeometry, hpart, hfits⟩

/-- A filled slot is written to a buffer of the shape of its data. -/
theorem shaped (h : mesh.Intact gs) (hslot : mesh.bake? position = some shared) {stride : Nat}
    {current : DynamicBuffer α}
    (hcurrent : currentBuffer shared.bake stride (mesh.dynamic? position) = .ok current) :
    current.Shaped shared.bake.vertices ∧ current.stride = stride := by
  refine shaped_currentBuffer (fun b hb => ?_) hcurrent
  obtain ⟨g, part, hgeometry, hpart, hfits⟩ := h.exists_fits hslot
  obtain ⟨part', hpart', hshaped⟩ := h.buffers position b hb
  rw [hgeometry, Geometry.partitions, hpart, Option.some.injEq] at hpart'
  subst hpart'
  rwa [hfits.vertices]

/-- Writing leaves a mesh intact, whether or not it is refused. -/
theorem writeDynamic (h : mesh.Intact gs) (ha : a.nodes.Grown) (id : NodeId) (fill : Fill σ α)
    (s : σ) : ((a.writeDynamic mesh id fill).run s).run.1.2.Intact gs := by
  unfold Animation.writeDynamic
  cases hfind : (a.nodes.nodesIn .dynamic).find? (·.id == id) with
  | none => exact h
  | some n =>
    have hfit : n.dynamicOffset + n.behavior.length ≤ a.nodes.dynamicStride :=
      (ha.joined.laid .dynamic).inside n (List.mem_of_find?_eq_some hfind)
    obtain ⟨hlength, hwritten⟩ := getElem?_fillPartitions fill n.dynamicOffset
      n.behavior.length a.nodes.dynamicStride 0 mesh.bakes mesh.dynamics s
    refine ⟨h.known, h.bakes, hlength.trans h.dynamics, h.slots, fun position b hb => ?_⟩
    rcases hwritten position b (Option.join_eq_some_iff.mp hb) with
      hold | ⟨shared, buffer, current, s₁, hslot, hbuffer, hcurrent, rfl⟩
    · exact h.buffers position b (Option.join_eq_some_iff.mpr hold)
    · have hslot : mesh.bake? position = some shared := Option.join_eq_some_iff.mpr hslot
      obtain ⟨g, part, hgeometry, hpart, hfits⟩ := h.exists_fits hslot
      have hbefore : mesh.dynamic? position = buffer := by rw [dynamic?, hbuffer, Option.join_some]
      obtain ⟨hshaped, hstride⟩ := h.shaped hslot (hbefore ▸ hcurrent)
      rw [hfits.vertices] at hshaped
      refine ⟨part, by rw [hgeometry]; exact hpart, ?_⟩
      exact (shaped_filledBuffer hshaped (by rw [hstride]; exact hfit) ..).1

end Intact

/-- The meshes that anything leads to that may be done to a mesh, with geometries among the
given ones and with animations of any history over them. -/
inductive Reached (gs : List ParticleGeometry) : Mesh α → Prop where
  /-- A new mesh. -/
  | start {geometry : Geometry} (share : Bool) :
    (∀ g, geometry = .particles g → g ∈ gs) → Reached gs (ofGeometry geometry share)
  /-- The geometry is replaced. -/
  | replaced {mesh : Mesh α} {geometry : Geometry} :
    Reached gs mesh → (∀ g, geometry = .particles g → g ∈ gs) →
    Reached gs (mesh.withGeometry geometry)
  /-- Data is shared from now on, or no longer. -/
  | shared {mesh : Mesh α} (share : Bool) : Reached gs mesh → Reached gs (mesh.sharing share)
  /-- Data is made. -/
  | made {σ : Type} {a a' : Animation σ α} {mesh mesh' : Mesh α} {buffer next : Nat} {s s' : σ} :
    Reached gs mesh → a.Arises gs → Yields (a.generate mesh buffer) s (a', mesh', next) s' →
    Reached gs mesh'
  /-- No data could be made. -/
  | refused {σ : Type} {a : Animation σ α} {mesh : Mesh α} {buffer : Nat} {s : σ}
    {fault : Fault} :
    Reached gs mesh → a.Arises gs → outcome (a.generate mesh buffer) s = .error fault →
    Reached gs mesh
  /-- Values are written for a frame, or the writing is refused. -/
  | written {σ : Type} {a : Animation σ α} {mesh : Mesh α} (id : NodeId) (fill : Fill σ α)
    (s : σ) : Reached gs mesh → a.Arises gs →
    Reached gs ((a.writeDynamic mesh id fill).run s).run.1.2

theorem Reached.ofParticles {g : ParticleGeometry} (hg : g ∈ gs) (share : Bool) :
    (ofGeometry (.particles g) share : Mesh α).Reached gs := by
  refine .start share fun g' hg' => ?_
  obtain rfl := Geometry.particles.inj hg'
  exact hg

/-- **A mesh stays intact**, whatever is done to it. -/
theorem Reached.intact (h : mesh.Reached gs) (hknown : Known ids gs) : mesh.Intact gs := by
  induction h with
  | start share hgeometry => exact intact_ofGeometry hgeometry share
  | replaced _ hgeometry _ => exact intact_ofGeometry hgeometry _
  | shared share _ ih => exact ih.sharing share
  | made _ ha hmade ih => exact ih.generate hknown (ha.keeps hknown) hmade
  | refused _ _ _ ih => exact ih
  | written id fill s _ ha ih => exact ih.writeDynamic ha.grown id fill s

/-! ### Writing -/

/-- No place outside of a buffer is written. -/
theorem Intact.takes (h : mesh.Intact gs) (ha : a.nodes.Grown) {n : Node α}
    (hn : n ∈ a.nodes.nodesIn .dynamic) (hslot : mesh.bake? position = some shared)
    {before after : List (RunRecord α)} {run : RunRecord α}
    (hruns : shared.bake.runs = before ++ run :: after) {current : DynamicBuffer α}
    (hcurrent : currentBuffer shared.bake a.nodes.dynamicStride (mesh.dynamic? position) =
      .ok current) (fill : Fill σ α) (s : σ) :
    (filledBuffer fill n.dynamicOffset n.behavior.length before current s).Takes
        run n.dynamicOffset n.behavior.length := by
  have hfit : n.dynamicOffset + n.behavior.length ≤ a.nodes.dynamicStride :=
    (ha.joined.laid .dynamic).inside n hn
  obtain ⟨g, part, -, -, hfits⟩ := h.exists_fits hslot
  have hinside := hfits.inside run (by rw [hruns]; simp)
  obtain ⟨hshaped, hstride⟩ := h.shaped hslot hcurrent
  rw [← hstride] at hfit
  obtain ⟨hfilled, hsame⟩ := shaped_filledBuffer hshaped hfit fill before s
  exact hfilled.takes hinside (by rw [hsame]; exact hfit)

omit [Scalar α] in
/-- The slots agree whether there is data, and for which layout. -/
theorem Intact.agree (h : mesh.Intact gs) :
    (∀ slot ∈ mesh.bakes, slot = none) ∨ ∃ dynamicStride, ∀ slot ∈ mesh.bakes,
      ∃ shared, slot = some shared ∧ shared.bake.dynamicStride = dynamicStride := by
  refine h.slots.imp_right ?_
  rintro ⟨g, stride, dynamicStride, -, hfilled⟩
  refine ⟨dynamicStride, fun slot hslot => ?_⟩
  obtain ⟨position, hposition⟩ := List.mem_iff_getElem?.mp hslot
  obtain ⟨shared, -, hsome, -, hdynamic, -⟩ := hfilled.fits hposition
  exact ⟨shared, hsome, hdynamic⟩

/-- Writing is refused before anything is done, or not at all, unless a buffer would be too
long. -/
theorem Intact.writes (h : mesh.Intact gs) (a : Animation σ α) (id : NodeId) :
    (∃ fault, (fault = .unknownNode id ∨ ∃ cause, fault = .geometryMismatch cause) ∧
      ∀ fill : Fill σ α, a.writeDynamic mesh id fill = pure (.error fault, mesh)) ∨
    ∀ (fill : Fill σ α) s,
      ((a.writeDynamic mesh id fill).run s).run.1.1 = .ok () ∨
      ((a.writeDynamic mesh id fill).run s).run.1.1 = .error .sizeOverflow ∧
        ∃ shared, some shared ∈ mesh.bakes ∧
          Size.bound ≤ shared.bake.vertices * a.nodes.dynamicStride := by
  cases hfind : (a.nodes.nodesIn .dynamic).find? (·.id == id) with
  | none =>
    refine .inl ⟨_, .inl rfl, fun fill => ?_⟩
    simp only [Animation.writeDynamic, hfind]
  | some n =>
    have hbuffers := h.dynamics.trans h.bakes.symm
    have hagree := h.agree
    obtain ⟨geometry, share, bakes, dynamics⟩ := mesh
    simp only at hbuffers hagree
    simp only [Animation.writeDynamic, hfind]
    cases bakes with
    | nil => exact .inr fun fill s => .inl rfl
    | cons slot slots =>
      cases dynamics with
      | nil => cases hbuffers
      | cons buffer buffers =>
        rcases hagree with hempty | ⟨dynamicStride, hfilled⟩
        · obtain rfl := hempty slot List.mem_cons_self
          exact .inl ⟨_, .inr ⟨.noData 0, rfl⟩, fun fill => rfl⟩
        · by_cases hstride : dynamicStride = a.nodes.dynamicStride
          · subst hstride
            exact .inr fun fill s => fillPartitions_cases fill n.dynamicOffset n.behavior.length
              hfilled 0 (buffer :: buffers) s
          · obtain ⟨shared, rfl, rfl⟩ := hfilled slot List.mem_cons_self
            let cause := GeometryFault.otherLayout 0 shared.bake.dynamicStride a.nodes.dynamicStride
            refine .inl ⟨_, .inr ⟨cause, rfl⟩, fun fill => ?_⟩
            simp only [fillPartitions, ne_eq, hstride, not_false_eq_true, if_true, pure_bind]
            rfl

/-- **Writing for a frame**: whatever was done to a mesh before, over the geometries of one
supply, its slots are all empty or all filled with data of one layout that belongs to the
partitions there. So a set of any layout writes nothing outside of a buffer, and where it
is refused, no value was asked for and no buffer has changed; only a new buffer of which the
length does not fit in a word is found out when buffers before it may be filled. -/
theorem Reached.writes_spec (h : mesh.Reached gs) (hsupply : ids.Supplies gs)
    (ha : a.nodes.Grown) :
    mesh.Intact gs ∧
    (∀ n ∈ a.nodes.nodesIn .dynamic, ∀ (position : Nat) shared current,
      mesh.bake? position = some shared →
      currentBuffer shared.bake a.nodes.dynamicStride (mesh.dynamic? position) = .ok current →
      ∀ before run after, shared.bake.runs = before ++ run :: after → ∀ (fill : Fill σ α) s,
        (filledBuffer fill n.dynamicOffset n.behavior.length before current s).Takes run
          n.dynamicOffset n.behavior.length) ∧
    ∀ id,
      (∃ fault, (fault = .unknownNode id ∨ ∃ cause, fault = .geometryMismatch cause) ∧
        ∀ fill : Fill σ α, a.writeDynamic mesh id fill = pure (.error fault, mesh)) ∨
      ∀ (fill : Fill σ α) s,
        ((a.writeDynamic mesh id fill).run s).run.1.1 = .ok () ∨
        ((a.writeDynamic mesh id fill).run s).run.1.1 = .error .sizeOverflow ∧
          ∃ shared, some shared ∈ mesh.bakes ∧
            Size.bound ≤ shared.bake.vertices * a.nodes.dynamicStride := by
  have hintact := h.intact hsupply.known
  exact ⟨hintact, fun n hn _ _ _ hslot hcurrent _ _ _ hruns fill s =>
    hintact.takes ha hn hslot hruns hcurrent fill s, hintact.writes a⟩

/-- Particles that follow a transform of every frame. -/
def followed : Animation Nat Rat where
  nodes :=
    { nodes := [{ behavior := .time {}, id := 0 }, { behavior := .follow, id := 1 }]
      stride := 4
      dynamicStride := 3 }
  initializer := some countCall

/-- Particles that follow two transforms. -/
def followedTwice : Animation Nat Rat where
  nodes :=
    { nodes :=
        [{ behavior := .time {}, id := 0 }, { behavior := .follow, id := 1 },
         { behavior := .follow, id := 2, dynamicOffset := 3 }]
      stride := 4
      dynamicStride := 6 }

/-- A mesh is written by the set that made its data, and refused to one of another layout. -/
theorem followed_writes : ∃ mesh : Mesh Rat, mesh.bake? 0 ≠ none ∧ mesh.Intact [pair] ∧
    (∀ (fill : Fill Nat Rat) s, ((followed.writeDynamic mesh 1 fill).run s).run.1.1 = .ok ()) ∧
    ∃ fault, ∀ fill : Fill Nat Rat,
      followedTwice.writeDynamic mesh 1 fill = pure (.error fault, mesh) := by
  have hparts : (ParticleGeometry.ofParts [3] pair.runs 1).run {} = .ok pair ⟨1, 1⟩ := rfl
  have hsupply : IdSupply.Supplies ⟨1, 1⟩ [pair] :=
    .made (.start {}) (.ofParts [3] pair.runs 1) hparts
  have hfirst : (NodeSet.empty {}).add .follow = .ok (followed.nodes, 1) := rfl
  have hsecond : followed.nodes.add .follow = .ok (followedTwice.nodes, 2) := rfl
  have hgrown : followed.nodes.Grown := .add (.empty {}) hfirst
  have harises : followed.Arises [pair] :=
    .initialized (some countCall) (.step (.start {}) (.added (b := .follow) rfl))
  have hstart : (ofGeometry (.particles pair) true : Mesh Rat).Reached [pair] :=
    .ofParticles (List.mem_singleton_self _) true
  let keep : Fill Nat Rat := fun _ values => pure values
  obtain ⟨⟨a, mesh, next⟩, hgenerate, hsome, hdata, hdone, hrefused⟩ : ∃ made,
      outcome (followed.generate (ofGeometry (.particles pair) true) 0) 0 = .ok made ∧
      (made.2.1.bake? 0).isSome = true ∧
      made.2.1.bakes.map (Option.map fun k => k.bake.vertices) = [some 3] ∧
      ((followed.writeDynamic made.2.1 1 keep).run 0).run.1.1.isOk = true ∧
      ((followedTwice.writeDynamic made.2.1 1 keep).run 0).run.1.1.toOption.isSome = false :=
    ⟨_, rfl, rfl, rfl, rfl, rfl⟩
  obtain ⟨s', hyields⟩ := outcome_eq_ok.mp hgenerate
  have hreached : mesh.Reached [pair] := .made hstart harises hyields
  obtain ⟨hintact, -, hwrites⟩ := hreached.writes_spec hsupply hgrown
  obtain ⟨-, -, hrefuses⟩ := hreached.writes_spec hsupply (.add hgrown hsecond)
  have hshort : ∀ shared, some shared ∈ mesh.bakes → ∀ stride ≤ 6,
      ¬ Size.bound ≤ shared.bake.vertices * stride := by
    intro shared hshared stride hstride hlong
    have hmem := List.mem_map_of_mem (f := Option.map fun k => k.bake.vertices) hshared
    rw [hdata, List.mem_singleton, Option.map_some, Option.some.injEq] at hmem
    rw [hmem] at hlong
    exact absurd (Nat.le_trans hlong (Nat.mul_le_mul_left 3 hstride)) (by decide)
  refine ⟨mesh, fun hnone => ?_, hintact, fun fill s => ?_, ?_⟩
  · rw [hnone] at hsome
    cases hsome
  · rcases hwrites 1 with ⟨fault, -, hanswer⟩ | hanswer
    · rw [hanswer keep] at hdone
      cases hdone
    · refine (hanswer fill s).resolve_right ?_
      rintro ⟨-, shared, hshared, hlong⟩
      exact hshort shared hshared _ (by decide) hlong
  · rcases hrefuses 1 with ⟨fault, -, hanswer⟩ | hanswer
    · exact ⟨fault, hanswer⟩
    · rcases hanswer keep 0 with hok | ⟨-, shared, hshared, hlong⟩
      · rw [hok] at hrefused
        cases hrefused
      · exact absurd hlong (hshort shared hshared _ (by decide))

end Mesh

end ParticleShader
