import Mathlib.Data.List.Forall2
import Mathlib.Logic.Relation
import ParticleShader.Proofs.Animation.Meshes

/-!
# Data that stays

Once data was made for a geometry on a mesh that shares it, the animation finds that data
again: **`generate_again`** says that whatever happens in the meantime, as long as no node is
added and the data is not given up, making data for a mesh of the same geometry calls no
initializer, makes no buffer, and fills the slots with the buffers that were made first.

The invariant is an equation (`Offers`): what is found for the partitions of the geometry, one
after the other, is what the slots were filled with. Data that is made later goes in front of
what is kept, so the invariant rests on what it belongs to: never to a partition for which
something is found, and never to the same identity in another geometry.
-/

namespace ParticleShader

open IdSupply.Supplies

variable {σ α : Type} [Scalar α]

namespace Animation

variable {a a' : Animation σ α} {mesh mesh' : Mesh α} {g : ParticleGeometry}
  {gs : List ParticleGeometry} {ids : IdSupply} {f : Initializer σ α} {part : Partition}
  {parts : List Partition} {drafts : List (Option (Draft α))} {bakes : List (SharedBake α)}
  {buffer next vertices : Nat} {s s' : σ}

/-! ### What is found -/

omit [Scalar α] in
/-- Whether data is for a partition, and for the layout of a set. -/
def isFor (set : NodeSet α) (part : Partition) (k : SharedBake α) : Bool :=
  k.bake.partition == part.id && k.bake.stride == set.stride &&
    k.bake.dynamicStride == set.dynamicStride

omit [Scalar α] in
/-- What is found for a partition among the data that is kept. -/
def found (a : Animation σ α) (part : Partition) : Option (SharedBake α) :=
  a.kept.find? (isFor a.nodes part)

omit [Scalar α] in
theorem reusable?_of_share (hshare : mesh.share = true) (part : Partition) :
    a.reusable? mesh part = a.found part := if_pos hshare

omit [Scalar α] in
/-- Data of another partition is passed by. -/
theorem isFor_eq_false {set : NodeSet α} {k : SharedBake α} (h : k.bake.partition ≠ part.id) :
    isFor set part k = false := by
  simp [isFor, h]

omit [Scalar α] in
/-- Data in front is passed by if none of it is for the partition. -/
theorem find?_append_kept {fresh : List (SharedBake α)}
    (h : ∀ k ∈ fresh, k.bake.partition ≠ part.id) :
    (fresh ++ a.kept).find? (isFor a.nodes part) = a.found part := by
  have hnone : fresh.find? (isFor a.nodes part) = none := by
    refine List.find?_eq_none.mpr fun k hk => ?_
    rw [isFor_eq_false (h k hk)]
    exact Bool.false_ne_true
  rw [List.find?_append, hnone, Option.none_or]
  rfl

omit [Scalar α] in
/-- For the partitions of a geometry the animation finds the given data. -/
def Offers (a : Animation σ α) (g : ParticleGeometry) (bakes : List (SharedBake α)) : Prop :=
  g.partitions.map a.found = bakes.map some

omit [Scalar α] in
theorem Offers.exists_found (h : a.Offers g bakes) (hpart : part ∈ g.partitions) :
    ∃ k, a.found part = some k := by
  have hmem : a.found part ∈ bakes.map some := h ▸ List.mem_map_of_mem hpart
  obtain ⟨k, -, hk⟩ := List.mem_map.mp hmem
  exact ⟨k, hk.symm⟩

omit [Scalar α] in
/-- Only what is found matters. -/
theorem Offers.congr (h : a.Offers g bakes)
    (hfound : ∀ part ∈ g.partitions, a'.found part = a.found part) : a'.Offers g bakes :=
  (List.map_congr_left hfound).trans h

/-! ### What is offered is used -/

theorem attach_map_some (bakes : List (SharedBake α)) (hlength : drafts.length = bakes.length)
    (buffer : Nat) : a.attach buffer (bakes.map some) drafts = (bakes, [], buffer) := by
  induction bakes generalizing drafts with
  | nil => rfl
  | cons used bakes ih =>
    obtain _ | ⟨draft, drafts⟩ := drafts
    · cases hlength
    · rw [List.map_cons, attach, ih (Nat.succ.inj hlength)]

/-- **What is offered is used**, and nothing else is done: no initializer is called. -/
theorem Offers.generate (h : a.Offers g bakes) (hf : a.initializer = some f)
    (hmesh : mesh.geometry = .particles g) (hshare : mesh.share = true)
    (hvertices : g.vertices = .ok vertices) (hzero : vertices ≠ 0) (buffer : Nat) :
    a.generate mesh buffer = pure (a, { mesh with bakes := bakes.map some }, buffer) := by
  have hslots : g.partitions.map (a.reusable? mesh) = bakes.map some := by
    rw [← h]
    exact List.map_congr_left fun part _ => reusable?_of_share hshare part
  have hsome : ∀ part ∈ g.partitions, ∃ k, a.reusable? mesh part = some k := by
    intro part hpart
    rw [reusable?_of_share hshare]
    exact h.exists_found hpart
  have hsizes : a.HasSizes mesh g.partitions := by
    intro part hpart hnone
    obtain ⟨k, hk⟩ := hsome part hpart
    cases hnone.symm.trans hk
  have hnone : (a.blankDrafts mesh g.partitions).any Option.isSome = false := by
    refine List.any_eq_false.mpr fun draft hdraft => ?_
    obtain ⟨part, hpart, rfl⟩ := List.mem_map.mp hdraft
    obtain ⟨k, hk⟩ := hsome part hpart
    rw [hk]
    exact Bool.false_ne_true
  have hlength : (a.blankDrafts mesh g.partitions).length = bakes.length := by
    rw [blankDrafts, List.length_map, ← List.length_map (f := a.found), h, List.length_map]
  rw [generate_eq hf hmesh, attempt, hvertices, outcome_ok_bind, if_neg hzero, drafting,
    (a.newDrafts_eq mesh _).1 hsizes, outcome_ok_bind, hnone, hslots]
  simp only [Bool.false_eq_true, if_false, pure_bind, attach_map_some bakes hlength, hshare,
    if_true, List.nil_append]

/-! ### What is made is offered -/

omit [Scalar α] in
/-- The draft of a partition: it is there if it is needed, and belongs to the partition. -/
def DraftOf (a : Animation σ α) (mesh : Mesh α) (part : Partition) (draft : Option (Draft α)) :
    Prop :=
  (a.reusable? mesh part = none → draft ≠ none) ∧ ∀ d, draft = some d → d.partition = part

/-- Drafts that are made are those of the partitions, one after the other. -/
theorem draftsOf_drafting (hg : g.Ordered) (h : Yields (a.drafting f mesh g) s drafts s') :
    List.Forall₂ (a.DraftOf mesh) g.partitions drafts := by
  obtain ⟨effect, hcomplete⟩ := exists_complete hg h
  refine List.forall₂_iff_get.mpr ⟨hcomplete.length.symm, fun i hi hi' => ⟨?_, fun d hd => ?_⟩⟩
  · intro hreusable hnone
    obtain ⟨d, hat, -⟩ := hcomplete.exists_draft i _ (List.getElem?_eq_getElem hi) hreusable
    rw [List.getElem?_eq_getElem hi', Option.some.injEq] at hat
    cases hat.symm.trans hnone
  · have hat : drafts[i]? = some (some d) := by
      rw [List.getElem?_eq_getElem hi']
      exact congrArg _ hd
    obtain ⟨hpart, -⟩ := hcomplete.holds i d hat
    rw [List.getElem?_eq_getElem hi, Option.some.injEq] at hpart
    exact hpart.symm

/-- New data is that of partitions for which nothing was to be used. -/
theorem partition_of_fresh (h : List.Forall₂ (a.DraftOf mesh) parts drafts) (buffer : Nat) :
    ∀ k ∈ (a.attach buffer (parts.map (a.reusable? mesh)) drafts).2.1,
      ∃ part ∈ parts, a.reusable? mesh part = none ∧ k.bake.partition = part.id := by
  induction h generalizing buffer with
  | nil => exact fun k hk => absurd hk List.not_mem_nil
  | @cons part draft parts drafts hdraft _ ih =>
    have hrest : ∀ buffer, ∀ k ∈ (a.attach buffer (parts.map (a.reusable? mesh)) drafts).2.1,
        ∃ part' ∈ part :: parts, a.reusable? mesh part' = none ∧ k.bake.partition = part'.id := by
      intro buffer k hk
      obtain ⟨part', hpart', hall⟩ := ih buffer k hk
      exact ⟨part', List.mem_cons_of_mem _ hpart', hall⟩
    cases hreusable : a.reusable? mesh part with
    | some used =>
      rw [List.map_cons, hreusable]
      exact hrest buffer
    | none =>
      obtain ⟨d, rfl⟩ := Option.ne_none_iff_exists'.mp (hdraft.1 hreusable)
      obtain rfl := hdraft.2 d rfl
      rw [List.map_cons, hreusable]
      intro k hk
      rcases List.mem_cons.mp hk with rfl | hk
      · exact ⟨d.partition, List.mem_cons_self, hreusable, rfl⟩
      · exact hrest (buffer + 1) k hk

/-- With sharing, what a slot is filled with is found from then on. -/
theorem find?_attach (h : List.Forall₂ (a.DraftOf mesh) parts drafts)
    (hnodup : (parts.map (·.id)).Nodup) (hshare : mesh.share = true) (buffer : Nat) :
    let made := a.attach buffer (parts.map (a.reusable? mesh)) drafts
    (parts.map fun part => (made.2.1 ++ a.kept).find? (isFor a.nodes part)) =
      made.1.map some := by
  induction h generalizing buffer with
  | nil => rfl
  | @cons part draft parts drafts hdraft htail ih =>
    obtain ⟨hnotMem, htailNodup⟩ := List.nodup_cons.mp hnodup
    have hother : ∀ buffer, ∀ k ∈ (a.attach buffer (parts.map (a.reusable? mesh)) drafts).2.1,
        k.bake.partition ≠ part.id := by
      intro buffer k hk hid
      obtain ⟨part', hpart', -, hid'⟩ := partition_of_fresh htail buffer k hk
      rw [hid] at hid'
      exact hnotMem (List.mem_map.mpr ⟨part', hpart', hid'.symm⟩)
    cases hreusable : a.reusable? mesh part with
    | some used =>
      rw [List.map_cons, hreusable]
      simp only [attach, List.map_cons, ih htailNodup buffer, find?_append_kept (hother buffer)]
      rw [← reusable?_of_share hshare, hreusable]
    | none =>
      obtain ⟨d, rfl⟩ := Option.ne_none_iff_exists'.mp (hdraft.1 hreusable)
      obtain rfl := hdraft.2 d rfl
      rw [List.map_cons, hreusable]
      simp only [attach, List.map_cons, List.cons_append]
      congr 1
      · exact List.find?_cons_of_pos (by simp [isFor, Draft.bake])
      · rw [← ih htailNodup (buffer + 1)]
        refine List.map_congr_left fun part' hpart' => List.find?_cons_of_neg ?_
        rw [isFor_eq_false]
        · exact Bool.false_ne_true
        · intro hid
          exact hnotMem (List.mem_map.mpr ⟨part', hpart', hid.symm⟩)

/-- **Shared data is offered** from then on. -/
theorem offers_generate (hg : g.Ordered) (hnodup : (g.partitions.map (·.id)).Nodup)
    (hmesh : mesh.geometry = .particles g) (hshare : mesh.share = true)
    (h : Yields (a.generate mesh buffer) s (a', mesh', next) s') :
    ∃ bakes, a'.Offers g bakes ∧ mesh'.bakes = bakes.map some := by
  obtain ⟨f, g', vertices, drafts, all, fresh, -, hmesh', -, -, hdrafts, hattach, rfl, rfl⟩ :=
    yields_generate h
  obtain rfl : g = g' := by
    rw [hmesh] at hmesh'
    injection hmesh'
  have hfound := find?_attach (draftsOf_drafting hg hdrafts) hnodup hshare buffer
  rw [hattach] at hfound
  refine ⟨all, ?_, rfl⟩
  rw [hshare]
  exact hfound

/-! ### What may happen in the meantime -/

/-- What may happen to an animation, and to the number of the next buffer, while the data of a
geometry stays: everything except that a node is added or that the data is given up. -/
inductive Passes (gs : List ParticleGeometry) (g : ParticleGeometry) :
    Animation σ α × Nat → Animation σ α × Nat → Prop where
  /-- Data is made for a mesh, which shares it or not. -/
  | made {a a' : Animation σ α} {mesh mesh' : Mesh α} {buffer next : Nat} {s s' : σ} :
    (∀ g, mesh.geometry = .particles g → g ∈ gs) →
    Yields (a.generate mesh buffer) s (a', mesh', next) s' →
    Passes gs g (a, buffer) (a', next)
  /-- No data could be made for a mesh. -/
  | refused {a : Animation σ α} {mesh : Mesh α} {buffer : Nat} {s : σ} {fault : Fault} :
    outcome (a.generate mesh buffer) s = .error fault → Passes gs g (a, buffer) (a, buffer)
  /-- Values are written for a frame, or the writing is refused. -/
  | written {a : Animation σ α} {mesh : Mesh α} {buffer : Nat} {id : NodeId} {fill : Fill σ α}
    {s s' : σ} {result : Except Fault Unit × Mesh α} :
    ((a.writeDynamic mesh id fill).run s).run = (result, s') →
    Passes gs g (a, buffer) (a, buffer)
  /-- Another initializer is installed, or the one there is taken away. -/
  | initialized {a : Animation σ α} {buffer : Nat} (initializer : Option (Initializer σ α)) :
    Passes gs g (a, buffer) ({ a with initializer }, buffer)
  /-- The data of a geometry without a partition of this one is given up. -/
  | invalidated {a : Animation σ α} {buffer : Nat} {geometry : Geometry} :
    (∀ part ∈ geometry.partitions, ∀ part' ∈ g.partitions, part.id ≠ part'.id) →
    Passes gs g (a, buffer) (a.invalidate geometry, buffer)
  /-- A node is refused. -/
  | addRefused {a : Animation σ α} {buffer : Nat} {b : Behavior α} {fault : Fault} :
    (join b).run a = .error fault a → Passes gs g (a, buffer) (a, buffer)
  /-- Another set makes buffers. -/
  | elsewhere {a : Animation σ α} {buffer buffer' : Nat} :
    buffer ≤ buffer' → Passes gs g (a, buffer) (a, buffer')

/-- Data that is made later hides nothing. -/
theorem found_generate (hknown : Known ids gs) (hg : g ∈ gs)
    (hgeometry : ∀ g, mesh.geometry = .particles g → g ∈ gs) (hoffers : a.Offers g bakes)
    (h : Yields (a.generate mesh buffer) s (a', mesh', next) s') (hpart : part ∈ g.partitions) :
    a'.found part = a.found part := by
  obtain ⟨f, g', vertices, drafts, all, fresh, -, hmesh, -, -, hdrafts, hattach, rfl, rfl⟩ :=
    yields_generate h
  have hg' := hgeometry g' hmesh
  cases hshare : mesh.share with
  | false => rfl
  | true =>
    -- new data is of a partition for which nothing is found, so of no partition of `g`
    show (fresh ++ a.kept).find? (isFor a.nodes part) = a.found part
    refine find?_append_kept fun k hk hid => ?_
    have hfresh :=
      partition_of_fresh (draftsOf_drafting (hknown.made g' hg').ordered hdrafts) buffer
    rw [hattach] at hfresh
    obtain ⟨part', hpart', hnone, hid'⟩ := hfresh k hk
    obtain ⟨i, hi⟩ := List.mem_iff_getElem?.mp hpart
    obtain ⟨j, hj⟩ := List.mem_iff_getElem?.mp hpart'
    obtain ⟨-, -, rfl⟩ := hknown.unique hg hg' hi hj (hid.symm.trans hid')
    obtain ⟨used, hused⟩ := hoffers.exists_found hpart
    rw [reusable?_of_share hshare, hused] at hnone
    cases hnone

omit [Scalar α] in
/-- Data that is given up is that of other partitions. -/
theorem found_invalidate {geometry : Geometry}
    (h : ∀ part ∈ geometry.partitions, ∀ part' ∈ g.partitions, part.id ≠ part'.id)
    (hpart : part ∈ g.partitions) : (a.invalidate geometry).found part = a.found part := by
  unfold found invalidate
  rw [List.find?_filter]
  congr 1
  funext k
  refine Bool.eq_iff_iff.mpr (decide_eq_true_iff.trans (and_iff_right_of_imp fun hfor => ?_))
  simp only [isFor, Bool.and_eq_true, beq_iff_eq] at hfor
  rw [hfor.1.1, Bool.not_eq_true', List.contains_eq_mem, decide_eq_false_iff_not]
  intro hmem
  obtain ⟨part', hpart', hsame⟩ := List.mem_map.mp hmem
  exact h part' hpart' part hpart hsame

/-- **A step** leaves what is offered. -/
theorem Offers.passes {p p' : Animation σ α × Nat} (h : p.1.Offers g bakes)
    (hknown : Known ids gs) (hg : g ∈ gs) (hstep : Passes gs g p p') : p'.1.Offers g bakes := by
  cases hstep with
  | made hmesh hmade => exact h.congr fun part hpart => found_generate hknown hg hmesh h hmade hpart
  | refused => exact h
  | written => exact h
  | initialized => exact h.congr fun part _ => rfl
  | invalidated hapart => exact h.congr fun part hpart => found_invalidate hapart hpart
  | addRefused => exact h
  | elsewhere => exact h

/-- **A run** does. -/
theorem Offers.run {p p' : Animation σ α × Nat} (h : p.1.Offers g bakes) (hknown : Known ids gs)
    (hg : g ∈ gs) (hrun : Relation.ReflTransGen (Passes gs g) p p') : p'.1.Offers g bakes := by
  induction hrun with
  | refl => exact h
  | tail _ hstep ih => exact ih.passes hknown hg hstep

/-- **Making data again** for a geometry whose data was made on a mesh that shares it, after
anything that may happen in the meantime, changes nothing but the slots of the mesh: no
initializer is called, no buffer is made, and every slot gets the buffer that was made first. -/
theorem generate_again {first other : Mesh α} {again : Animation σ α} {later : Nat}
    (hsupply : ids.Supplies gs) (hg : g ∈ gs) (hmesh : mesh.geometry = .particles g)
    (hshare : mesh.share = true)
    (hfirst : Yields (a.generate mesh buffer) s (a', first, next) s')
    (hrun : Relation.ReflTransGen (Passes gs g) (a', next) (again, later))
    (hf : again.initializer = some f) (hother : other.geometry = .particles g)
    (hshares : other.share = true) :
    ∃ bakes : List (SharedBake α), bakes.length = g.partitions.length ∧
      first.bakes = bakes.map some ∧
      again.generate other later = pure (again, { other with bakes := bakes.map some }, later) := by
  have hknown := hsupply.known
  obtain ⟨bakes, hoffers, hbakes⟩ :=
    offers_generate (hknown.made g hg).ordered (hknown.nodup g hg) hmesh hshare hfirst
  obtain ⟨_, g', vertices, -, -, -, -, hmesh', hvertices, hzero, -⟩ := yields_generate hfirst
  obtain rfl : g = g' := by
    rw [hmesh] at hmesh'
    injection hmesh'
  have hlength : bakes.length = g.partitions.length := by
    rw [← List.length_map (f := some), ← hoffers, List.length_map]
  exact ⟨bakes, hlength, hbakes,
    (hoffers.run hknown hg hrun).generate hf hother hshares hvertices hzero later⟩

/-- Data is made for a mesh that shares it and for one that does not; the initializer is taken
away, a mesh is refused, another geometry is given up, and an initializer is installed. The
buffer is still the first one, and no call is counted. -/
theorem placed_generate_again : ∃ (again : Animation Nat Rat) (mesh : Mesh Rat),
    ((again.generate (.ofGeometry (.particles pair) true) 2).run.run 7).run =
      (.ok (again, mesh, 2), 7) ∧ mesh.bakes.map (Option.map (·.buffer)) = [some 0] := by
  have hparts : (ParticleGeometry.ofParts [3] pair.runs 1).run {} = .ok pair ⟨1, 1⟩ := rfl
  have hsupply : IdSupply.Supplies ⟨1, 1⟩ [pair] :=
    .made (.start {}) (.ofParts [3] pair.runs 1) hparts
  let shared : Mesh Rat := .ofGeometry (.particles pair) true
  let apart : Mesh Rat := .ofGeometry (.particles pair) false
  obtain ⟨once, twice, first, second, hfirst, hsecond, hnumber⟩ :
      ∃ once twice first second, Yields (placed.generate shared 0) 0 (once, first, 1) 1 ∧
        Yields (once.generate apart 1) 1 (twice, second, 2) 2 ∧
        first.bakes.map (Option.map (·.buffer)) = [some 0] := ⟨_, _, _, _, rfl, rfl, rfl⟩
  have hmesh : ∀ g, apart.geometry = .particles g → g ∈ [pair] := by
    intro g hg
    cases hg
    exact List.mem_singleton_self _
  let taken : Animation Nat Rat := { twice with initializer := none }
  have hrefused : outcome (taken.generate shared 2) 2 = .error .missingInitializer := rfl
  have hgone : ∀ part ∈ (Geometry.static 7 [⟨9, 1⟩]).partitions, ∀ part' ∈ pair.partitions,
      part.id ≠ part'.id := by decide
  have hmade : Passes [pair] pair (once, 1) (twice, 2) := .made hmesh hsecond
  have htaken : Passes [pair] pair (twice, 2) (taken, 2) := .initialized none
  have hnothing : Passes [pair] pair (taken, 2) (taken, 2) := .refused hrefused
  have hinvalidated : Passes [pair] pair (taken, 2) (taken.invalidate _, 2) := .invalidated hgone
  have hrun := Relation.ReflTransGen.refl |>.tail hmade |>.tail htaken |>.tail hnothing
    |>.tail hinvalidated |>.tail (Passes.initialized (some countCall))
  have hother : shared.geometry = .particles pair := rfl
  obtain ⟨bakes, -, hbakes, hagain⟩ := generate_again hsupply
    (List.mem_singleton_self pair) rfl rfl hfirst hrun rfl hother rfl
  refine ⟨_, { shared with bakes := bakes.map some },
    congrArg (fun x => (x.run.run 7).run) hagain, ?_⟩
  rw [← hnumber, hbakes]

end Animation

end ParticleShader
