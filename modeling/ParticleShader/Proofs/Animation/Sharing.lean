import ParticleShader.Proofs.Animation.Baking
import ParticleShader.Proofs.Geometry.Supply

/-!
# Data that is used again

A mesh that shares data is given what was made before for the same partitions. As long as
one initializer is used of which the effect depends on the particle alone, this changes
nothing: **`shared_generate`** says that a mesh gets the same data, or the same fault, with
sharing and without, after any history of the animation.

The invariant is that everything that is kept is what would be made now (`Sound`). What is
made for a partition is determined by the nodes and the particles (`Baked.unique`), and
whether it can be made at all depends on no other partition, since the runs of an accepted
geometry never miss the end of a draft (`outcome_draftParticles`).
-/

namespace ParticleShader

open IdSupply.Supplies

variable {σ α : Type} [Scalar α]

omit [Scalar α] in
/-- The mesh, with sharing or without. -/
def Mesh.sharing (mesh : Mesh α) (share : Bool) : Mesh α := { mesh with share }

namespace Animation

/-! ### Steady initializers -/

/-- What an initializer makes of a particle depends on the index and the total alone. -/
def Steady (f : Initializer σ α) (effect : Nat → Nat → Particle α) : Prop :=
  ∀ index total s, ((f (Particle.default index total)).run s).run.1 = effect index total

/-- The particles that a steady initializer makes, one after the other. -/
def sequence (effect : Nat → Nat → Particle α) : Nat → List Nat → List (Particle α)
  | _, [] => []
  | total, index :: rest =>
    effect index total :: sequence effect (effect index total).total rest

omit [Scalar α] in
/-- The particles of a geometry. -/
def particlesIn (effect : Nat → Nat → Particle α) (g : ParticleGeometry) : List (Particle α) :=
  sequence effect g.particles (List.range g.particles)

variable {f : Initializer σ α} {effect : Nat → Nat → Particle α}

theorem initializeAll_eq_sequence (hf : Steady f effect) (total : Nat) (indices : List Nat)
    (s : σ) : ((initializeAll f total indices).run s).run.1 = sequence effect total indices := by
  induction indices generalizing total s with
  | nil => rfl
  | cons index rest ih =>
    have hcall := hf index total s
    simp only [initializeAll, StateT.run_bind, StateT.run_pure, Id.run_bind, Id.run_pure, sequence]
    rw [hcall, ih]

/-! ### What a step comes to -/

omit [Scalar α] in
/-- The result of a step, without the state that is kept. -/
def outcome {β : Type} (x : ExceptT Fault (StateM σ) β) (s : σ) : Except Fault β :=
  (x.run.run s).run.1

section

variable {β γ : Type} {s : σ}

omit [Scalar α] in
theorem outcome_lift_bind (x : StateM σ β) (next : β → ExceptT Fault (StateM σ) γ) :
    outcome ((x : ExceptT Fault (StateM σ) β) >>= next) s =
      outcome (next (x.run s).run.1) (x.run s).run.2 := rfl

omit [Scalar α] in
theorem outcome_mk_bind (r : Except Fault β) (next : β → ExceptT Fault (StateM σ) γ) :
    outcome (ExceptT.mk (pure r) >>= next) s =
      match r with
      | .ok b => outcome (next b) s
      | .error fault => .error fault := by
  cases r <;> rfl

omit [Scalar α] in
theorem outcome_bind_error {x : ExceptT Fault (StateM σ) β} {fault : Fault}
    (h : outcome x s = .error fault) (next : β → ExceptT Fault (StateM σ) γ) :
    outcome (x >>= next) s = .error fault := by
  unfold outcome at h ⊢
  rw [ExceptT.run_bind, StateT.run_bind, Id.run_bind]
  cases hrun : (x.run.run s).run with
  | mk result s' =>
    rw [hrun] at h
    obtain rfl : result = .error fault := h
    rfl

omit [Scalar α] in
theorem outcome_bind_ok {x : ExceptT Fault (StateM σ) β} {b : β} {s' : σ}
    (h : Yields x s b s') (next : β → ExceptT Fault (StateM σ) γ) :
    outcome (x >>= next) s = outcome (next b) s' := by
  unfold Yields at h
  unfold outcome
  rw [ExceptT.run_bind, StateT.run_bind, Id.run_bind, h]

omit [Scalar α] in
theorem outcome_map (next : β → γ) (x : ExceptT Fault (StateM σ) β) :
    outcome (next <$> x) s = (outcome x s).map next := by
  unfold outcome
  rw [ExceptT.run_map, StateT.run_map]
  rfl

omit [Scalar α] in
theorem outcome_eq_ok {x : ExceptT Fault (StateM σ) β} {b : β} :
    outcome x s = .ok b ↔ ∃ s', Yields x s b s' := by
  constructor
  · intro h
    exact ⟨_, Prod.ext h rfl⟩
  · rintro ⟨s', h⟩
    exact congrArg Prod.fst h

end

/-! ### Drafts never miss their end -/

omit [Scalar α] in
/-- The drafts hold as many vertices as are in use of their partitions. -/
def Fits (filled : Array Nat) (drafts : Array (Option (Draft α))) : Prop :=
  ∀ (position : Nat) (d : Draft α), drafts[position]? = some (some d) →
    filled[position]? = some d.rows.size

variable {filled sizes : Array Nat} {drafts : Array (Option (Draft α))} {run : Run}
  {runs others : List Run} {last : Nat}

omit [Scalar α] in
/-- A run that begins where its partition is filled to goes into its draft. -/
theorem Fits.draftRun (h : Fits filled drafts) (hfirst : filled[run.partition]? = some run.first)
    (p : Particle α) (row : List α) (keep : Bool) :
    ∃ drafts', Animation.draftRun p row keep drafts run = .ok drafts' ∧
      Fits (filled.setIfInBounds run.partition (run.first + run.count)) drafts' := by
  have hlt : run.partition < filled.size := (Array.getElem?_eq_some_iff.mp hfirst).1
  unfold Animation.draftRun
  rcases hslot : drafts[run.partition]?.join with _ | d
  · refine ⟨drafts, rfl, fun position d hd => ?_⟩
    by_cases hposition : position = run.partition
    · rw [hposition] at hd
      simp [hd] at hslot
    · rw [Array.getElem?_setIfInBounds_ne (Ne.symm hposition)]
      exact h position d hd
  · have hdraft : drafts[run.partition]? = some (some d) := Option.join_eq_some_iff.mp hslot
    have hsize : d.rows.size = run.first := by
      have hfilled := h _ d hdraft
      rw [hfirst, Option.some.injEq] at hfilled
      exact hfilled.symm
    simp only [Option.map_some, hsize, if_true]
    refine ⟨_, rfl, fun position d' hd' => ?_⟩
    rw [Array.getElem?_modify] at hd'
    by_cases hposition : run.partition = position
    · subst hposition
      rw [if_pos rfl, hdraft] at hd'
      obtain rfl : d.push run p row keep = d' := by simpa using hd'
      rw [Array.getElem?_setIfInBounds_self_of_lt hlt]
      simp [Draft.push, hsize]
    · rw [if_neg hposition] at hd'
      rw [Array.getElem?_setIfInBounds_ne hposition]
      exact h position d' hd'

omit [Scalar α] in
/-- Runs that pass the check go into their drafts, one after the other. -/
theorem Fits.foldlM (h : Fits filled drafts)
    (hruns : ParticleGeometry.checkRuns sizes last filled (runs ++ others) = .ok ())
    (p : Particle α) (row : List α) (keep : Bool) :
    ∃ drafts' filled' last', runs.foldlM (Animation.draftRun p row keep) drafts = .ok drafts' ∧
      Fits filled' drafts' ∧ ParticleGeometry.checkRuns sizes last' filled' others = .ok () := by
  induction runs generalizing filled drafts last with
  | nil => exact ⟨drafts, filled, last, rfl, h, hruns⟩
  | cons run rest ih =>
    obtain ⟨hfirst, hrest⟩ := ParticleGeometry.first_of_checkRuns hruns
    obtain ⟨next, hnext, hfits⟩ := h.draftRun hfirst p row keep
    obtain ⟨drafts', filled', last', hfold, hall⟩ := ih hfits hrest
    refine ⟨drafts', filled', last', ?_, hall⟩
    rw [List.foldlM_cons, hnext]
    exact hfold

/-- The records of particles, or why a node has no values for one of them. -/
def records (set : NodeSet α) (particles : List (Particle α)) : Except Fault (List (List α)) :=
  particles.mapM (record (set.nodesIn .baked) set.stride)

/-- **Only records are refused**: drafts of any partitions are made exactly if there is a
record for every particle. -/
theorem outcome_draftParticles (hf : Steady f effect) (set : NodeSet α) (total : Nat)
    (indices : List Nat) (h : Fits filled drafts)
    (hruns : ParticleGeometry.checkRuns sizes last filled runs = .ok ()) (s : σ) :
    match records set (sequence effect total indices) with
    | .error fault => outcome (draftParticles set f total indices runs drafts) s = .error fault
    | .ok _ => ∃ drafts', outcome (draftParticles set f total indices runs drafts) s =
        .ok drafts' := by
  induction indices generalizing total runs drafts filled last s with
  | nil => exact ⟨drafts, rfl⟩
  | cons index rest ih =>
    have hcall := hf index total s
    unfold records at ih ⊢
    unfold draftParticles
    rw [sequence, List.mapM_cons, outcome_lift_bind, hcall, outcome_mk_bind]
    cases hrow : record (set.nodesIn .baked) set.stride (effect index total) with
    | error fault => rfl
    | ok row =>
      have hsplit : runs = runs.takeWhile (·.particle == index) ++
          runs.dropWhile (·.particle == index) := List.takeWhile_append_dropWhile.symm
      rw [hsplit] at hruns
      obtain ⟨next, filled', last', hfold, hfits, hrest⟩ :=
        h.foldlM hruns (effect index total) row set.hasDynamic
      have hall := ih (effect index total).total hfits hrest
        ((f (Particle.default index total)).run s).run.2
      simp only [List.span_eq_takeWhile_dropWhile, outcome_mk_bind, hfold]
      cases hmore : (sequence effect (effect index total).total rest).mapM
        (record (set.nodesIn .baked) set.stride) with
      | error fault =>
        rw [hmore] at hall
        exact hall
      | ok rows =>
        rw [hmore] at hall
        exact hall

end Animation

/-! ### What is made is determined -/

/-- Two drafts that hold the same runs of a partition are the same. -/
theorem Draft.Holds.unique {set : NodeSet α} {particles : List (Particle α)} {done : List Run}
    {position : Nat} {d d' : Draft α} (h : d.Holds set particles done position)
    (h' : d'.Holds set particles done position) (hpart : d.partition = d'.partition) : d = d' := by
  -- a vertex of one draft belongs to a run, and so it has the same record in the other
  have hcovered : ∀ {d d' : Draft α}, d.Holds set particles done position →
      d'.Holds set particles done position → ∀ v < d.rows.size, d.rows[v]? = d'.rows[v]? := by
    intro d d' h h' v hv
    obtain ⟨r, hr, hcover⟩ := h.only v hv
    obtain ⟨p, row, hp, hrow, hat⟩ := h.covered r hr v hcover
    obtain ⟨p', row', hp', hrow', hat'⟩ := h'.covered r hr v hcover
    rw [hp, Option.some.injEq] at hp'
    subst hp'
    rw [hrow, Except.ok.injEq] at hrow'
    rw [hat, hat', hrow']
  have hrows : d.rows = d'.rows := by
    refine Array.ext_getElem? fun v => ?_
    by_cases hv : v < d.rows.size
    · exact hcovered h h' v hv
    · by_cases hv' : v < d'.rows.size
      · exact (hcovered h' h v hv').symm
      · rw [Array.getElem?_eq_none (Nat.not_lt.mp hv), Array.getElem?_eq_none (Nat.not_lt.mp hv')]
  have hruns : d.runs = d'.runs := by
    refine Array.toList_inj.mp ?_
    rw [h.lives, h'.lives, hpart]
  obtain ⟨partition, rows, runs⟩ := d
  obtain ⟨partition', rows', runs'⟩ := d'
  simp only at hpart hrows hruns
  rw [hpart, hrows, hruns]

namespace Animation

/-- The data that is made for the partition at a position of a geometry. -/
def Baked (set : NodeSet α) (particles : List (Particle α)) (g : ParticleGeometry)
    (position : Nat) (part : Partition) (b : Bake α) : Prop :=
  ∃ d : Draft α, d.partition = part ∧ d.Holds set particles g.runs position ∧
    b = d.bake set.stride set.dynamicStride

theorem Baked.unique {set : NodeSet α} {particles : List (Particle α)} {g : ParticleGeometry}
    {position : Nat} {part : Partition} {b b' : Bake α}
    (h : Baked set particles g position part b) (h' : Baked set particles g position part b') :
    b = b' := by
  obtain ⟨d, hpart, hholds, rfl⟩ := h
  obtain ⟨d', hpart', hholds', rfl⟩ := h'
  rw [hholds.unique hholds' (hpart.trans hpart'.symm)]

variable {f : Initializer σ α} {effect : Nat → Nat → Particle α}
  {set : NodeSet α} {g : ParticleGeometry}

/-- The records of the particles of a geometry, if the lengths of the buffers that they are for fit
in a word. -/
def recordsFor (set : NodeSet α) (effect : Nat → Nat → Particle α) (g : ParticleGeometry) :
    Except Fault (List (List α)) :=
  if ∀ part ∈ g.partitions, part.vertices * set.stride < Size.bound then
    records set (particlesIn effect g)
  else .error .sizeOverflow

theorem recordsFor_eq_ok {rows : List (List α)} : recordsFor set effect g = .ok rows ↔
    (∀ part ∈ g.partitions, part.vertices * set.stride < Size.bound) ∧
      records set (particlesIn effect g) = .ok rows := by
  unfold recordsFor
  split <;> rename_i hsizes
  · exact (and_iff_right hsizes).symm
  · simp [hsizes]

/-- Whether data can be made for a geometry: it has vertices, and there is a record for every
particle. -/
def admits (set : NodeSet α) (effect : Nat → Nat → Particle α) (g : ParticleGeometry) :
    Except Fault Unit :=
  match g.vertices with
  | .error fault => .error fault
  | .ok vertices =>
    if vertices = 0 then .error .emptyGeometry
    else (recordsFor set effect g).map fun _ => ()

/-- What is given for a geometry: the data of every partition, or the fault. -/
def Answers (set : NodeSet α) (effect : Nat → Nat → Particle α) (g : ParticleGeometry)
    (r : Except Fault (List (Bake α))) : Prop :=
  match admits set effect g with
  | .error fault => r = .error fault
  | .ok _ => ∃ bakes, r = .ok bakes ∧ bakes.length = g.partitions.length ∧
    ∀ (position : Nat) part, g.partitions[position]? = some part →
      ∃ b, bakes[position]? = some b ∧ Baked set (particlesIn effect g) g position part b

/-- **There is one answer.** -/
theorem Answers.unique {r r' : Except Fault (List (Bake α))} (h : Answers set effect g r)
    (h' : Answers set effect g r') : r = r' := by
  unfold Answers at h h'
  cases hadmits : admits set effect g with
  | error fault =>
    rw [hadmits] at h h'
    rw [h, h']
  | ok u =>
    rw [hadmits] at h h'
    obtain ⟨bakes, rfl, hlength, hall⟩ := h
    obtain ⟨bakes', rfl, hlength', hall'⟩ := h'
    congr 1
    refine List.ext_getElem? fun position => ?_
    by_cases hposition : position < g.partitions.length
    · obtain ⟨b, hat, hbaked⟩ := hall position _ (List.getElem?_eq_getElem hposition)
      obtain ⟨b', hat', hbaked'⟩ := hall' position _ (List.getElem?_eq_getElem hposition)
      rw [hat, hat', hbaked.unique hbaked']
    · rw [List.getElem?_eq_none, List.getElem?_eq_none]
      · omega
      · omega

/-! ### What is kept is what would be made -/

/-- What is kept is what would be made now for a geometry of a supply. -/
structure Sound (f : Initializer σ α) (effect : Nat → Nat → Particle α)
    (gs : List ParticleGeometry) (a : Animation σ α) : Prop where
  /-- The initializer is installed. -/
  initializer : a.initializer = some f
  /-- Data that is kept belongs to a partition of a geometry. -/
  kept : ∀ k ∈ a.kept, ∃ g ∈ gs, ∃ (position : Nat) (part : Partition),
    g.partitions[position]? = some part ∧
      Baked a.nodes (particlesIn effect g) g position part k.bake ∧
      part.vertices * a.nodes.stride < Size.bound ∧
      ∃ rows, records a.nodes (particlesIn effect g) = .ok rows

variable {a a' : Animation σ α} {mesh mesh' : Mesh α} {ids : IdSupply}
  {gs : List ParticleGeometry} {drafts : List (Option (Draft α))} {buffer : Nat}

/-- Data that may be used again for a partition is what would be made for it. -/
theorem Sound.baked_of_reusable (h : a.Sound f effect gs) (hknown : Known ids gs) (hg : g ∈ gs)
    {position : Nat} {part : Partition} (hpart : g.partitions[position]? = some part)
    {used : SharedBake α} (hused : a.reusable? mesh part = some used) :
    Baked a.nodes (particlesIn effect g) g position part used.bake ∧
      part.vertices * a.nodes.stride < Size.bound ∧
      ∃ rows, records a.nodes (particlesIn effect g) = .ok rows := by
  unfold reusable? at hused
  split at hused
  · have hmem := List.mem_of_find?_eq_some hused
    have hkey := List.find?_some hused
    simp only [Bool.and_eq_true, beq_iff_eq] at hkey
    obtain ⟨g', hg', position', part', hpart', hbaked, hrecords⟩ := h.kept used hmem
    have hid : part'.id = part.id := by
      obtain ⟨d, hdraft, -, hbake⟩ := hbaked
      rw [← hkey.1.1, hbake, ← hdraft]
      rfl
    obtain ⟨rfl, rfl, rfl⟩ := hknown.unique hg' hg hpart' hpart hid
    exact ⟨hbaked, hrecords⟩
  · cases hused

/-- The drafts of a mesh: one that holds all runs for every partition that needs data. -/
structure Complete (a : Animation σ α) (mesh : Mesh α) (effect : Nat → Nat → Particle α)
    (g : ParticleGeometry) (drafts : List (Option (Draft α))) : Prop where
  /-- There is a place for every partition. -/
  length : drafts.length = g.partitions.length
  /-- A partition that needs data has a draft. -/
  exists_draft : ∀ (position : Nat) part, g.partitions[position]? = some part →
    a.reusable? mesh part = none → ∃ d, drafts[position]? = some (some d) ∧ d.partition = part
  /-- A draft holds the runs of its partition. -/
  holds : ∀ (position : Nat) (d : Draft α), drafts[position]? = some (some d) →
    g.partitions[position]? = some d.partition ∧
      d.Holds a.nodes (particlesIn effect g) g.runs position

theorem length_attach (buffer : Nat) {slots : List (Option (SharedBake α))}
    (hlength : slots.length = drafts.length)
    (hnew : ∀ i : Nat, slots[i]? = some none → ∃ d, drafts[i]? = some (some d)) :
    (a.attach buffer slots drafts).1.length = slots.length := by
  induction slots generalizing drafts buffer with
  | nil => rfl
  | cons slot slots ih =>
    obtain _ | ⟨draft, drafts⟩ := drafts
    · simp at hlength
    · have hrest := fun buffer => ih buffer (Nat.succ.inj hlength)
        fun i hi => hnew (i + 1) hi
      cases slot with
      | some used => simpa [attach] using hrest buffer
      | none =>
        obtain ⟨d, hd⟩ := hnew 0 rfl
        rw [List.getElem?_cons_zero, Option.some.injEq] at hd
        subst hd
        simpa [attach] using hrest (buffer + 1)

/-- New data is that of a draft. -/
theorem exists_draft_of_fresh {slots : List (Option (SharedBake α))} {made : SharedBake α}
    (h : made ∈ (a.attach buffer slots drafts).2.1) : ∃ (position : Nat) (d : Draft α),
      drafts[position]? = some (some d) ∧
        made.bake = d.bake a.nodes.stride a.nodes.dynamicStride := by
  induction slots generalizing drafts buffer with
  | nil => simp [attach] at h
  | cons slot slots ih =>
    obtain _ | ⟨draft, drafts⟩ := drafts
    · cases slot <;> simp [attach] at h
    · cases slot with
      | some used =>
        simp only [attach] at h
        obtain ⟨position, d, hd, hbake⟩ := ih h
        exact ⟨position + 1, d, hd, hbake⟩
      | none =>
        cases draft with
        | none => simp [attach] at h
        | some d =>
          simp only [attach, List.mem_cons] at h
          rcases h with rfl | h
          · exact ⟨0, d, rfl, rfl⟩
          · obtain ⟨position, d', hd', hbake⟩ := ih h
            exact ⟨position + 1, d', hd', hbake⟩

/-- With complete drafts every partition gets the data that is used again, or that of its
draft. -/
theorem Complete.attached (h : Complete a mesh effect g drafts) (buffer : Nat) :
    (a.attach buffer (g.partitions.map (a.reusable? mesh)) drafts).1.length =
        g.partitions.length ∧
      ∀ (position : Nat) part, g.partitions[position]? = some part → ∃ made,
        (a.attach buffer (g.partitions.map (a.reusable? mesh)) drafts).1[position]? = some made ∧
          (a.reusable? mesh part = some made ∨ ∃ d : Draft α, d.partition = part ∧
            d.Holds a.nodes (particlesIn effect g) g.runs position ∧
            made.bake = d.bake a.nodes.stride a.nodes.dynamicStride) := by
  have hlength : (g.partitions.map (a.reusable? mesh)).length = drafts.length := by
    rw [List.length_map, h.length]
  have hnew : ∀ i : Nat, (g.partitions.map (a.reusable? mesh))[i]? = some none →
      ∃ d, drafts[i]? = some (some d) := by
    intro i hi
    rw [List.getElem?_map, Option.map_eq_some_iff] at hi
    obtain ⟨part, hpart, hnone⟩ := hi
    obtain ⟨d, hd, -⟩ := h.exists_draft i part hpart hnone
    exact ⟨d, hd⟩
  refine ⟨?_, fun position part hpart => ?_⟩
  · rw [length_attach buffer hlength hnew, List.length_map]
  · obtain ⟨hkept, hmade⟩ := attach_getElem? (a := a) hlength hnew buffer position
    have hslot : (g.partitions.map (a.reusable? mesh))[position]? =
        some (a.reusable? mesh part) := by rw [List.getElem?_map, hpart]; rfl
    cases hreusable : a.reusable? mesh part with
    | some used => exact ⟨used, hkept used (hreusable ▸ hslot), .inl rfl⟩
    | none =>
      obtain ⟨d, hd, hdraft⟩ := h.exists_draft position part hpart hreusable
      obtain ⟨fresh, hat⟩ := hmade d (hreusable ▸ hslot) hd
      exact ⟨_, hat, .inr ⟨d, hdraft, (h.holds position d hd).2, rfl⟩⟩

/-- With complete drafts every partition gets the data that would be made for it. -/
theorem Sound.bakes_of_complete (h : a.Sound f effect gs) (hknown : Known ids gs) (hg : g ∈ gs)
    (hdrafts : Complete a mesh effect g drafts) (buffer : Nat) :
    (a.attach buffer (g.partitions.map (a.reusable? mesh)) drafts).1.length =
        g.partitions.length ∧
      ∀ (position : Nat) part, g.partitions[position]? = some part → ∃ made,
        (a.attach buffer (g.partitions.map (a.reusable? mesh)) drafts).1[position]? = some made ∧
          Baked a.nodes (particlesIn effect g) g position part made.bake := by
  obtain ⟨hlength, hattached⟩ := hdrafts.attached buffer
  refine ⟨hlength, fun position part hpart => ?_⟩
  obtain ⟨made, hat, hused | ⟨d, hdraft, hholds, hbake⟩⟩ := hattached position part hpart
  · exact ⟨made, hat, (h.baked_of_reusable hknown hg hpart hused).1⟩
  · exact ⟨made, hat, d, hdraft, hholds, hbake⟩

/-! ### Making data, with sharing or without -/

omit [Scalar α] in
theorem fits_blankDrafts (a : Animation σ α) (mesh : Mesh α) (partitions : List Partition) :
    Fits (Array.replicate partitions.length 0) (a.blankDrafts mesh partitions).toArray := by
  intro position d hd
  rw [List.getElem?_toArray, blankDrafts, List.getElem?_map, Option.map_eq_some_iff] at hd
  obtain ⟨part, hpart, hd⟩ := hd
  have hlt : position < partitions.length := (List.getElem?_eq_some_iff.mp hpart).1
  split at hd
  · cases hd
  · cases hd
    rw [Array.getElem?_replicate, if_pos hlt]
    rfl

/-- Drafts in which all runs are put are complete. -/
theorem complete_of_drafted {drafts : Array (Option (Draft α))}
    (h : Drafted a.nodes (a.needed mesh g.partitions) (particlesIn effect g) g.runs drafts) :
    Complete a mesh effect g drafts.toList := by
  refine ⟨?_, fun position part hpart hnone => ?_, fun position d hd => ?_⟩
  · rw [Array.length_toList, ← Array.size_map, h.partitions, needed, List.size_toArray,
      List.length_map]
  · obtain ⟨d, hd, hdraft⟩ := h.exists_draft (needed_getElem? hpart hnone)
    exact ⟨d, by rw [Array.getElem?_toList, hd], hdraft⟩
  · rw [Array.getElem?_toList] at hd
    refine ⟨?_, h.holds position d hd⟩
    have hwanted : (a.needed mesh g.partitions)[position]? = some (some d.partition) := by
      rw [← h.partitions, Array.getElem?_map, hd]
      rfl
    rw [needed, List.getElem?_toArray, List.getElem?_map, Option.map_eq_some_iff] at hwanted
    obtain ⟨part, hpart, hsome⟩ := hwanted
    split at hsome
    · cases hsome
    · cases hsome
      exact hpart

/-- If no partition needs data, the drafts are complete without any. -/
theorem complete_blankDrafts
    (hnone : (a.blankDrafts mesh g.partitions).any Option.isSome = false) :
    Complete a mesh effect g (a.blankDrafts mesh g.partitions) := by
  have hempty : ∀ (position : Nat) (d : Draft α),
      (a.blankDrafts mesh g.partitions)[position]? ≠ some (some d) := by
    intro position d hd
    have hany := List.any_eq_false.mp hnone _ (List.mem_of_getElem? hd)
    exact hany rfl
  refine ⟨List.length_map .., fun position part hpart hreusable => ?_, fun position d hd => ?_⟩
  · refine absurd ?_ (hempty position { partition := part })
    rw [blankDrafts, List.getElem?_map, hpart, Option.map_some, hreusable]
    rfl
  · exact absurd hd (hempty position d)

/-- A geometry with vertices has partitions. -/
theorem partitions_ne_nil {vertices : Nat} (hvertices : g.vertices = .ok vertices)
    (hzero : vertices ≠ 0) : g.partitions ≠ [] := by
  intro hnil
  unfold ParticleGeometry.vertices at hvertices
  rw [hnil] at hvertices
  cases hvertices
  exact hzero rfl

/-- The buffers of the partitions that need data fit in a word exactly if all do: data that is
kept was made for a buffer that does. -/
theorem Sound.hasSizes_iff (h : a.Sound f effect gs) (hknown : Known ids gs) (hg : g ∈ gs)
    (mesh : Mesh α) : a.HasSizes mesh g.partitions ↔
      ∀ part ∈ g.partitions, part.vertices * a.nodes.stride < Size.bound := by
  refine forall₂_congr fun part hpart => ?_
  cases hreusable : a.reusable? mesh part with
  | none => simp
  | some used =>
    obtain ⟨position, hposition⟩ := List.mem_iff_getElem?.mp hpart
    obtain ⟨-, hsize, -⟩ := h.baked_of_reusable hknown hg hposition hreusable
    simp [hsize]

/-- If all data is used again, it was made once, and then there were records. -/
theorem Sound.exists_records (h : a.Sound f effect gs) (hknown : Known ids gs) (hg : g ∈ gs)
    (hparts : g.partitions ≠ []) (hnone : ¬ ∃ part ∈ g.partitions, a.reusable? mesh part = none) :
    ∃ rows, records a.nodes (particlesIn effect g) = .ok rows := by
  obtain ⟨part, hpart⟩ := List.exists_mem_of_ne_nil _ hparts
  obtain ⟨position, hposition⟩ := List.mem_iff_getElem?.mp hpart
  obtain ⟨used, hused⟩ := Option.ne_none_iff_exists'.mp fun hreusable =>
    hnone ⟨part, hpart, hreusable⟩
  exact (h.baked_of_reusable hknown hg hposition hused).2.2

/-- **Drafts depend on no other data**: they are made exactly if all buffers fit in a word and
there is a record for every particle, whether or not some data is used again. -/
theorem Sound.outcome_drafting (h : a.Sound f effect gs) (hf : Steady f effect)
    (hknown : Known ids gs) (hg : g ∈ gs) (hparts : g.partitions ≠ []) (mesh : Mesh α) (s : σ) :
    match recordsFor a.nodes effect g with
    | .error fault => outcome (a.drafting f mesh g) s = .error fault
    | .ok _ => ∃ drafts, outcome (a.drafting f mesh g) s = .ok drafts ∧
        Complete a mesh effect g drafts := by
  rw [drafting, outcome_mk_bind, recordsFor]
  by_cases hsizes : a.HasSizes mesh g.partitions
  · rw [if_pos ((h.hasSizes_iff hknown hg mesh).mp hsizes), (a.newDrafts_eq mesh _).1 hsizes]
    cases hany : (a.blankDrafts mesh g.partitions).any Option.isSome with
    | false =>
      have hnone := mt (any_blankDrafts a mesh g.partitions).mpr (Bool.eq_false_iff.mp hany)
      obtain ⟨rows, hrows⟩ := h.exists_records hknown hg hparts hnone
      rw [hrows]
      simp only [hany]
      exact ⟨_, rfl, complete_blankDrafts hany⟩
    | true =>
      have hall := outcome_draftParticles hf a.nodes g.particles (List.range g.particles)
        (fits_blankDrafts a mesh g.partitions) (hknown.continues g hg) s
      simp only [hany, if_true, outcome_map]
      change match records a.nodes (particlesIn effect g) with
        | .error fault => _
        | .ok _ => _ at hall
      cases hrecords : records a.nodes (particlesIn effect g) with
      | error fault =>
        rw [hrecords] at hall
        rw [hall]
        rfl
      | ok rows =>
        rw [hrecords] at hall
        obtain ⟨drafts, hdrafts⟩ := hall
        rw [hdrafts]
        refine ⟨_, rfl, complete_of_drafted ?_⟩
        obtain ⟨s', hyields⟩ := outcome_eq_ok.mp hdrafts
        obtain ⟨particles, hcalls, -, hdrafted⟩ := drafted_all (hknown.made g hg).ordered hyields
        have hparticles : particles = particlesIn effect g := by
          rw [particlesIn, ← initializeAll_eq_sequence hf _ _ s, hcalls]
        rwa [hparticles] at hdrafted
  · rw [if_neg fun hall => hsizes ((h.hasSizes_iff hknown hg mesh).mpr hall),
      (a.newDrafts_eq mesh _).2 hsizes]

/-- The data of the slots of a mesh, once it is made, without the numbers of the buffers. -/
def slots (r : Except Fault (Animation σ α × Mesh α × Nat)) :
    Except Fault (List (Option (Bake α))) :=
  r.map fun made => made.2.1.bakes.map (Option.map (·.bake))

/-- **A mesh is given what its geometry is answered**, with sharing or without. -/
theorem Sound.answers (h : a.Sound f effect gs) (hf : Steady f effect) (hknown : Known ids gs)
    (hg : g ∈ gs) (hmesh : mesh.geometry = .particles g) (buffer : Nat) (s : σ) :
    ∃ r, Answers a.nodes effect g r ∧
      slots (outcome (a.generate mesh buffer) s) = r.map (List.map some) := by
  rw [generate_eq h.initializer hmesh, attempt, outcome_mk_bind]
  cases hvertices : g.vertices with
  | error fault =>
    have hrefused : admits a.nodes effect g = .error fault := by
      unfold admits
      rw [hvertices]
    exact ⟨.error fault, by rw [Answers, hrefused], rfl⟩
  | ok vertices =>
    by_cases hzero : vertices = 0
    · have hrefused : admits a.nodes effect g = .error .emptyGeometry := by
        unfold admits
        rw [hvertices]
        exact if_pos hzero
      simp only [hzero, if_true]
      exact ⟨.error .emptyGeometry, by rw [Answers, hrefused], rfl⟩
    · have hparts := partitions_ne_nil hvertices hzero
      have hadmits : admits a.nodes effect g =
          (recordsFor a.nodes effect g).map fun _ => () := by
        unfold admits
        rw [hvertices]
        exact if_neg hzero
      have hdrafting := h.outcome_drafting hf hknown hg hparts mesh s
      simp only [hzero, if_false]
      cases hrecords : recordsFor a.nodes effect g with
      | error fault =>
        rw [hrecords] at hdrafting hadmits
        rw [outcome_bind_error hdrafting]
        refine ⟨.error fault, ?_, rfl⟩
        rw [Answers, hadmits]
        rfl
      | ok rows =>
        rw [hrecords] at hdrafting hadmits
        obtain ⟨drafts, hdrafts, hcomplete⟩ := hdrafting
        obtain ⟨s', hyields⟩ := outcome_eq_ok.mp hdrafts
        obtain ⟨hlength, hbakes⟩ := h.bakes_of_complete hknown hg hcomplete buffer
        rw [outcome_bind_ok hyields]
        refine ⟨.ok ((a.attach buffer (g.partitions.map (a.reusable? mesh)) drafts).1.map
          fun made => made.bake), ?_, ?_⟩
        · rw [Answers, hadmits]
          refine ⟨_, rfl, ?_, fun position part hpart => ?_⟩
          · rw [List.length_map, hlength]
          · obtain ⟨made, hat, hbaked⟩ := hbakes position part hpart
            exact ⟨made.bake, by rw [List.getElem?_map, hat]; rfl, hbaked⟩
        · show Except.ok _ = Except.ok _
          simp only [List.map_map]
          rfl

/-! ### Histories -/

/-- What it takes to make data, and what comes of it: the slots of the mesh are attached to,
and no data is kept but that of drafts and what was kept before. -/
theorem generate_eq_ok {next : Nat} {s s' : σ}
    (h : Yields (a.generate mesh buffer) s (a', mesh', next) s') :
    ∃ f g drafts kept, a.initializer = some f ∧ mesh.geometry = .particles g ∧
      g.partitions ≠ [] ∧ Yields (a.drafting f mesh g) s drafts s' ∧ a' = { a with kept } ∧
      (∀ k ∈ kept, k ∈ a.kept ∨ ∃ (position : Nat) (d : Draft α),
        drafts[position]? = some (some d) ∧
          k.bake = d.bake a.nodes.stride a.nodes.dynamicStride) ∧
      mesh' = { mesh with
        bakes := (a.attach buffer (g.partitions.map (a.reusable? mesh)) drafts).1.map some } := by
  obtain ⟨f, g, vertices, drafts, all, fresh, hf, hmesh, hvertices, hzero, hdrafts, hattached,
    rfl, rfl⟩ := yields_generate h
  have hfresh : ∀ k ∈ fresh, ∃ (position : Nat) (d : Draft α), drafts[position]? = some (some d) ∧
      k.bake = d.bake a.nodes.stride a.nodes.dynamicStride := by
    intro k hk
    have hmem : k ∈ (a.attach buffer (g.partitions.map (a.reusable? mesh)) drafts).2.1 := by
      rwa [hattached]
    exact exists_draft_of_fresh hmem
  refine ⟨f, g, drafts, _, hf, hmesh, partitions_ne_nil hvertices hzero, hdrafts, rfl,
    fun k hk => ?_, by rw [hattached]⟩
  split at hk
  · exact (List.mem_append.mp hk).symm.imp_right (hfresh k)
  · exact .inl hk

/-- Data that was made keeps everything sound. -/
theorem Sound.generate (h : a.Sound f effect gs) (hf : Steady f effect) (hknown : Known ids gs)
    (hmesh : ∀ g, mesh.geometry = .particles g → g ∈ gs) {next : Nat} {s s' : σ}
    (hmade : Yields (a.generate mesh buffer) s (a', mesh', next) s') : a'.Sound f effect gs := by
  obtain ⟨f', g, drafts, kept, hf', hgeometry, hparts, hdrafts, rfl, hkept, -⟩ :=
    generate_eq_ok hmade
  have hg := hmesh g hgeometry
  obtain rfl : f' = f := Option.some.inj (hf'.symm.trans h.initializer)
  have hdrafting := h.outcome_drafting hf hknown hg hparts mesh s
  rw [outcome_eq_ok.mpr ⟨s', hdrafts⟩] at hdrafting
  cases hrecords : recordsFor a.nodes effect g with
  | error fault =>
    rw [hrecords] at hdrafting
    cases hdrafting
  | ok rows =>
    rw [hrecords] at hdrafting
    obtain ⟨_, hsame, hcomplete⟩ := hdrafting
    obtain rfl := Except.ok.inj hsame
    refine ⟨h.initializer, fun k hk => ?_⟩
    rcases hkept k hk with hold | ⟨position, d, hd, hbake⟩
    · exact h.kept k hold
    · obtain ⟨hpart, hholds⟩ := hcomplete.holds position d hd
      obtain ⟨hsizes, hrows⟩ := recordsFor_eq_ok.mp hrecords
      exact ⟨g, hg, position, d.partition, hpart, ⟨d, rfl, hholds, hbake⟩,
        hsizes _ (List.mem_of_getElem? hpart), rows, hrows⟩

/-- What an animation may go through: nodes are added, accepted or refused; data is made for
meshes, with or without success; and data of replaced geometries is given up. -/
inductive Goes (gs : List ParticleGeometry) : Animation σ α → Animation σ α → Prop where
  /-- A node is accepted. -/
  | added {a a' : Animation σ α} {b : Behavior α} {id : NodeId} :
    a.add b = .ok (a', id) → Goes gs a a'
  /-- A node is refused. -/
  | addRefused {a : Animation σ α} {b : Behavior α} {fault : Fault} :
    (join b).run a = .error fault a → Goes gs a a
  /-- Data is made for a mesh. -/
  | made {a a' : Animation σ α} {mesh mesh' : Mesh α} {buffer next : Nat} {s s' : σ} :
    (∀ g, mesh.geometry = .particles g → g ∈ gs) →
    Yields (a.generate mesh buffer) s (a', mesh', next) s' → Goes gs a a'
  /-- No data could be made for a mesh. -/
  | madeRefused {a : Animation σ α} {mesh : Mesh α} {buffer : Nat} {s : σ} {fault : Fault} :
    (∀ g, mesh.geometry = .particles g → g ∈ gs) →
    outcome (a.generate mesh buffer) s = .error fault → Goes gs a a
  /-- The data of a geometry is given up. -/
  | invalidated {a : Animation σ α} (geometry : Geometry) : Goes gs a (a.invalidate geometry)

omit [Scalar α] in
/-- An animation without nodes, in which an initializer is installed. -/
def started (f : Initializer σ α) (lifecycle : Lifecycle) : Animation σ α where
  nodes := NodeSet.empty lifecycle
  initializer := some f

/-- The animations that a history over the geometries of a supply leads to, with one
initializer throughout. -/
inductive History (f : Initializer σ α) (gs : List ParticleGeometry) : Animation σ α → Prop where
  /-- An animation without nodes. -/
  | start (lifecycle : Lifecycle) : History f gs (started f lifecycle)
  /-- One more event. -/
  | step {a a' : Animation σ α} : History f gs a → Goes gs a a' → History f gs a'

/-- **A step** keeps everything sound. -/
theorem Sound.goes (h : a.Sound f effect gs) (hf : Steady f effect) (hknown : Known ids gs)
    (hstep : Goes gs a a') : a'.Sound f effect gs := by
  cases hstep with
  | added hadd =>
    simp only [add, Outcome.bind_eq_ok, Outcome.pure_eq_ok, Prod.mk.injEq] at hadd
    obtain ⟨_, -, rfl, -⟩ := hadd
    exact ⟨h.initializer, fun k hk => absurd hk List.not_mem_nil⟩
  | addRefused => exact h
  | made hmesh hmade => exact h.generate hf hknown hmesh hmade
  | madeRefused => exact h
  | invalidated geometry =>
    exact ⟨h.initializer, fun k hk => h.kept k (List.mem_filter.mp hk).1⟩

/-- **A run**: after any history, what is kept is what would be made now. -/
theorem History.sound (h : History f gs a) (hf : Steady f effect) (hknown : Known ids gs) :
    a.Sound f effect gs := by
  induction h with
  | start lifecycle => exact ⟨rfl, fun k hk => absurd hk List.not_mem_nil⟩
  | step _ hstep ih => exact ih.goes hf hknown hstep

/-- **Shared data is the data that would be made**: after any history over the geometries of
one supply, with one steady initializer, a mesh that shares data gets what it would get
without, the same fault included. -/
theorem History.shared_generate (h : History f gs a) (hf : Steady f effect)
    (hsupply : ids.Supplies gs) (hmesh : ∀ g, mesh.geometry = .particles g → g ∈ gs)
    (buffer buffer' : Nat) (s s' : σ) :
    slots (outcome (a.generate (mesh.sharing true) buffer) s) =
      slots (outcome (a.generate (mesh.sharing false) buffer') s') := by
  have hknown := hsupply.known
  have hsound := h.sound hf hknown
  cases hgeometry : mesh.geometry with
  | static id parts =>
    have hshared : (mesh.sharing true).geometry = .static id parts := hgeometry
    have hplain : (mesh.sharing false).geometry = .static id parts := hgeometry
    rw [generate_static hsound.initializer hshared, generate_static hsound.initializer hplain]
    rfl
  | particles g =>
    have hg := hmesh g hgeometry
    have hshared : (mesh.sharing true).geometry = .particles g := hgeometry
    have hplain : (mesh.sharing false).geometry = .particles g := hgeometry
    obtain ⟨r, hr, hgiven⟩ := hsound.answers hf hknown hg hshared buffer s
    obtain ⟨r', hr', hgiven'⟩ := hsound.answers hf hknown hg hplain buffer' s'
    rw [hgiven, hgiven', hr.unique hr']

/-- Data of two vertices that was made before is used again, and would be made again. -/
theorem placed_shared_pair : ∃ (a : Animation Nat Rat) (bakes : List (Option (Bake Rat))),
    History countCall [pair] a ∧ a.kept ≠ [] ∧
    slots (outcome (a.generate (.ofGeometry (.particles pair) true) 1) 1) = .ok bakes ∧
    slots (outcome (a.generate (.ofGeometry (.particles pair) false) 7) 0) = .ok bakes := by
  have hparts : (ParticleGeometry.ofParts [3] pair.runs 1).run {} = .ok pair ⟨1, 1⟩ := rfl
  have hsupply : IdSupply.Supplies ⟨1, 1⟩ [pair] :=
    .made (.start {}) (.ofParts [3] pair.runs 1) hparts
  have hsteady : Steady countCall fun index total =>
      { Particle.default index total with
        position := some ⟨Scalar.nat index, Scalar.one, Scalar.zero⟩ } :=
    fun _ _ _ => rfl
  let mesh : Mesh Rat := .ofGeometry (.particles pair) true
  have hmesh : ∀ g, mesh.geometry = .particles g → g ∈ [pair] := by
    intro g hg
    cases hg
    exact List.mem_singleton_self _
  have hadd : (started countCall {}).add (.position (.perParticle .baked)) = .ok (placed, 1) := rfl
  have hplaced : History countCall [pair] placed := .step (.start {}) (.added hadd)
  obtain ⟨⟨a, mesh', next⟩, hgenerate⟩ : ∃ made, outcome (placed.generate mesh 0) 0 = .ok made :=
    ⟨_, rfl⟩
  obtain ⟨s', hyields⟩ := outcome_eq_ok.mp hgenerate
  have hhistory : History countCall [pair] a := .step hplaced (.made hmesh hyields)
  have hsame := hhistory.shared_generate hsteady hsupply hmesh 1 7 1 0
  cases hgenerate
  refine ⟨_, _, hhistory, List.cons_ne_nil _ _, rfl, hsame.symm.trans ?_⟩
  rfl

end Animation

end ParticleShader
