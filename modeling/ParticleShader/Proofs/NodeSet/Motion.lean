import ParticleShader.Proofs.NodeSet.Assembly

/-!
# What vertex code computes

The vertex code of a set, run on a machine in which the constants and the attributes hold
the values of its nodes, places the vertex by the laws of motion: **`motion_spec`**. The
displacement is the sum of the positions, of the velocities times the time, and of the
accelerations times half its square; the velocity is that of the same motion, wherever a
node reads it; and the vertex is what the nodes before the placement make of its source,
displaced, with the offsets of the nodes that follow.

The order in which the nodes have their turns is not seen in any of this. The laws are
over any ordered field, with any functions for sine, cosine and root.
-/

namespace ParticleShader

open Compile Compilation

variable {α K : Type}

/-! ### The laws of motion -/

namespace NodeSet

section

variable [Field K]

/-- How far the particles have come at a time. -/
def positionAt (s : NodeSet α) (values : Node α → Fin 3 → K) (t : K) : Fin 3 → K :=
  total Behavior.isPosition values s.nodes + t • total Behavior.isVelocity values s.nodes +
    (t * t / (2 : Nat)) • total Behavior.isAcceleration values s.nodes

/-- How fast the particles are at a time. -/
def velocityAt (s : NodeSet α) (values : Node α → Fin 3 → K) (t : K) : Fin 3 → K :=
  total Behavior.isVelocity values s.nodes + t • total Behavior.isAcceleration values s.nodes

/-- A vertex scaled and rotated by the nodes before the placement, in their order. -/
def deformed [LinearOrder K] [FloorRing K] (s : NodeSet α) (F : Functions K) (on : Features)
    (inputs : Node α → Inputs K) (t life : K) (velocity v : Fin 3 → K) : Fin 3 → K :=
  (s.nodes.filter (·.info.block = .primary)).foldl
    (fun v n => n.behavior.deform F on (inputs n) t life velocity v) v

end

end NodeSet

/-! ### Moving by the laws -/

/-- Nodes that displace the particle come before the placement. -/
theorem Node.block_of_way {n : Node α} (h : (n.behavior.isPosition || n.behavior.isVelocity ||
    n.behavior.isAcceleration) = true) : n.info.block = .primary := by
  show Block.ofPriority n.behavior.priority = .primary
  cases hbehavior : n.behavior with
  | position | velocity | acceleration => rfl
  | _ => simp [hbehavior, Behavior.isPosition, Behavior.isVelocity, Behavior.isAcceleration] at h

/-- Nodes that follow come behind the placement. -/
theorem Node.block_of_follow {n : Node α} (h : n.behavior.isFollow = true) :
    n.info.block = .post := by
  show Block.ofPriority n.behavior.priority = .post
  cases hbehavior : n.behavior with
  | follow => rfl
  | _ => simp [hbehavior, Behavior.isFollow] at h

namespace NodeSet

section

variable [Field K] [LinearOrder K] [FloorRing K] {s : NodeSet α} {F : Functions K} {on : Features}
  {inputs : Node α → Inputs K} {values : Node α → Fin 3 → K} {a b : Motion K}

omit [LinearOrder K] [FloorRing K] in
theorem total_primary {kind : Behavior α → Bool} (h : ∀ b, kind b = true →
    (b.isPosition || b.isVelocity || b.isAcceleration) = true) :
    total kind values (s.nodes.filter (·.info.block = .primary)) = total kind values s.nodes :=
  total_filter fun _ hn => decide_eq_true (Node.block_of_way (h _ hn))

/-- A motion from rest has come as far as the laws say. -/
theorem displacement_eq [CharZero K] (hsorted : s.nodes.Pairwise Node.Before)
    (hsupplied : ∀ n ∈ s.nodes, n.Supplied inputs values) (hrest : a.displacement = 0)
    (hb : b = a.after F on inputs (s.nodes.filter (·.info.block = .primary))) :
    b.displacement = s.positionAt values b.time := by
  have hfiltered : ∀ n ∈ s.nodes.filter (·.info.block = .primary), n.Supplied inputs values :=
    fun n hn => hsupplied n (List.mem_filter.mp hn).1
  rw [hb, Motion.displacement_after (hsorted.filter _), sum_way hfiltered,
    total_primary (by simp +contextual), total_primary (by simp +contextual),
    total_primary (by simp +contextual), hrest, zero_add]
  rfl

/-- It is as fast as the laws say. -/
theorem velocity_eq [CharZero K] (hon : on.velocity = true) (hsorted : s.nodes.Pairwise Node.Before)
    (hsupplied : ∀ n ∈ s.nodes, n.Supplied inputs values) (hrest : a.velocity = 0)
    (hb : b = a.after F on inputs (s.nodes.filter (·.info.block = .primary))) :
    b.velocity = s.velocityAt values b.time := by
  have hfiltered : ∀ n ∈ s.nodes.filter (·.info.block = .primary), n.Supplied inputs values :=
    fun n hn => hsupplied n (List.mem_filter.mp hn).1
  rw [hb, Motion.velocity_after hon (hsorted.filter _), sum_speed hfiltered,
    total_primary (by simp +contextual), total_primary (by simp +contextual), hrest, zero_add]
  rfl

/-- Only nodes that need the velocity depend on it. -/
theorem deformed_congr {t life : K} {velocity velocity' v : Fin 3 → K}
    (h : ∀ n ∈ s.nodes, n.behavior.raised.velocity = true → velocity = velocity') :
    s.deformed F on inputs t life velocity v = s.deformed F on inputs t life velocity' v := by
  refine List.foldl_ext _ _ _ fun v n hn => ?_
  exact Behavior.deform_congr (fun _ => ⟨rfl, rfl⟩) (h n (List.mem_filter.mp hn).1)

/-- The vertex is deformed at the velocity that the laws say. -/
theorem vertex_eq [CharZero K] (hon : ∀ n ∈ s.nodes, n.behavior.raised.velocity = true →
      on.velocity = true) (hsorted : s.nodes.Pairwise Node.Before)
    (hsupplied : ∀ n ∈ s.nodes, n.Supplied inputs values) (hrest : a.velocity = 0)
    (hb : b = a.after F on inputs (s.nodes.filter (·.info.block = .primary))) :
    b.vertex = s.deformed F on inputs b.time b.life (s.velocityAt values b.time) a.vertex := by
  have hvertex : b.vertex = s.deformed F on inputs b.time b.life b.velocity a.vertex := by
    rw [hb]
    exact Motion.vertex_after (hsorted.filter _)
  rw [hvertex]
  exact deformed_congr fun n hn hraises =>
    velocity_eq (hon n hn hraises) hsorted hsupplied hrest hb

end

end NodeSet

/-! ### What the registers hold -/

/-- What is needed is entered. -/
theorem Ledger.exists_lookup_takeAll {l : Ledger} {needs : List (Node α × Need)}
    {need : Node α × Need} (h : need ∈ needs) :
    ∃ index, (l.takeAll needs).indices.lookup (Need.key need) = some index := by
  induction needs generalizing l need with
  | nil => exact absurd h List.not_mem_nil
  | cons first needs ih =>
    by_cases hlater : Need.key need ∈ needs.map Need.key
    · obtain ⟨other, hother, hkey⟩ := List.mem_map.mp hlater
      rw [← hkey]
      exact ih hother
    · obtain rfl : need = first := (List.mem_cons.mp h).resolve_right fun hmem =>
        hlater (List.mem_map.mpr ⟨need, hmem, rfl⟩)
      rw [takeAll_cons, lookup_takeAll_of_notMem hlater]
      obtain ⟨n, need⟩ := need
      cases need with
      | constants slot count => exact ⟨_, List.lookup_cons_self⟩
      | stream slot start components => exact ⟨_, List.lookup_cons_self⟩

/-- The value of a node that moves the particle is needed. -/
theorem Behavior.exists_value_vertexNeeds {b : Behavior α} {f : Features} (h : b.moves = true) :
    ∃ need ∈ b.vertexNeeds f, need.slot = Slot.value := by
  have hparameter : ∀ mode : Mode, (Need.parameter mode Slot.value 0 3).slot = Slot.value := by
    intro mode
    cases mode <;> rfl
  cases b with
  | position value => exact ⟨_, List.mem_singleton_self _, hparameter value.mode⟩
  | velocity value => exact ⟨_, List.mem_singleton_self _, hparameter value.mode⟩
  | acceleration value => exact ⟨_, List.mem_singleton_self _, hparameter value.mode⟩
  | follow => exact ⟨_, List.mem_singleton_self _, rfl⟩
  | _ => simp [moves, isPosition, isVelocity, isAcceleration, isFollow] at h

namespace Layout

variable {P : Layout}

@[simp] theorem source_shared : P.shared.source = P.source := by
  unfold shared
  cases P.velocity <;> rfl

variable [Zero K] {m : Machine K}

theorem read_displacement :
    (m.read P.shared.displacement.xyz).xyz = (P.motion m).displacement := by
  rw [displacement_shared]
  rfl

theorem read_vertex : (m.read P.shared.vertex.xyz).xyz = (P.motion m).vertex := by
  rw [vertex_shared]
  rfl

theorem read_velocity (h : P.velocity = true) :
    (m.read (Register.temporary P.temporary).xyz).xyz = (P.motion m).velocity := by
  unfold motion
  rw [if_pos h]
  rfl

end Layout

namespace NodeSet

/-- The vertex code of a set falls into parts. -/
structure Parted (s : NodeSet α) (on : Features) (c : Compilation α) (q : Parts α) : Prop where
  /-- The shared registers are those that are remembered. -/
  shared : c.shared = some q.shared
  /-- The vertex comes from the first source. -/
  source : q.sources.head? = some q.shared.source
  /-- It goes into the first target. -/
  vertex : q.targets.head? = some q.shared.vertex
  /-- There is a register for the velocity if some node or the pass needs it. -/
  velocity : q.shared.velocity.isSome = on.velocity
  /-- The nodes before the placement are those of the first block. -/
  primary : q.primary.map Prod.fst = s.nodes.filter (·.info.block = .primary)
  /-- The nodes behind it are those of the second block. -/
  post : q.post.map Prod.fst = s.nodes.filter (·.info.block = .post)
  /-- Each node stands with its own code. -/
  emitted : ∀ piece ∈ q.primary ++ q.post, ∃ d d', Leads piece.1.vertexCode d piece.2 d'
  /-- Every node that moves the particle has a register for its value. -/
  values : ∀ n ∈ s.nodes, n.behavior.moves = true → ∃ index, c.index? n.id Slot.value = some index

/-- The registers hold what the vertex code of a set reads: null, one and two in the
constant behind those of the pass, and the values of the nodes that move the particle. -/
structure Loaded [Field K] (s : NodeSet α) (pass : Pass) (c : Compilation α) (m : Machine K)
    (values : Node α → Fin 3 → K) : Prop where
  /-- The constant that all nodes share. -/
  helper : m .vertexConstant pass.taken.vertexConstants = .helper
  /-- The value of a node, where its number is remembered. -/
  values : ∀ n ∈ s.nodes, n.behavior.moves = true → ∀ index,
    c.index? n.id Slot.value = some index →
      (m n.parameterKind index).xyz = n.behavior.held (values n)

section

variable {s : NodeSet α} {on : Features} {c c₁ : Compilation α} {P : Layout} {q : Parts α}
  {pass : Pass} {profile : Profile} {sourceNames targetNames : List String}
  {sources targets : List Register} {p : Program}

theorem Assembled.parted (ha : s.Assembled on c P q) (hvalues : ∀ n ∈ s.nodes,
    n.behavior.moves = true → ∃ index, c.index? n.id Slot.value = some index) :
    s.Parted on c q := by
  obtain ⟨others, hsources⟩ := ha.source
  refine ⟨ha.remembered, ?_, ?_, ?_, ha.primary, ha.post,
    fun piece hpiece => (ha.emits piece hpiece).emitted, hvalues⟩
  · rw [hsources, ha.shared]
    simp
  · rw [ha.targets, ha.shared]
    simp
  · rw [ha.shared, ha.velocity, Layout.velocity_shared]
    cases P.velocity <;> rfl

variable [Field K]

theorem Loaded.supplied {m : Machine K} {values : Node α → Fin 3 → K}
    (h : s.Loaded pass c m values) (hc : s.Parted on c q) {n : Node α} (hn : n ∈ s.nodes) :
    n.Supplied (c.inputs m) values := by
  intro hmoves
  obtain ⟨index, hindex⟩ := hc.values n hn hmoves
  rw [← h.values n hn hmoves index hindex]
  unfold Inputs.vector inputs
  rw [hindex]
  rfl

end

end NodeSet

/-! ### A run through the parts -/

namespace Parts

variable [Field K] [LinearOrder K] [FloorRing K]

/-- The time that is kept where the vertex is placed. -/
def clock (q : Parts α) (F : Functions K) (m : Machine K) : K :=
  (q.before.run F m).read q.shared.time .x

/-- The elapsed fraction of the life there. -/
def age (q : Parts α) (F : Functions K) (m : Machine K) : K :=
  (q.before.run F m).read q.shared.life .x

end Parts

namespace NodeSet

section

variable [Field K] [LinearOrder K] [FloorRing K]

/-- Vertex code computes the motion of the vertex. -/
structure Computes (s : NodeSet α) (on : Features) (c : Compilation α) (q : Parts α)
    (F : Functions K) (m : Machine K) (values : Node α → Fin 3 → K) : Prop where
  /-- From where no node is left that keeps the time, it is the one that is kept in the
  end. -/
  time : ∀ count, (∀ piece ∈ q.primary.drop count, piece.1.behavior.isTime = false) →
    ((q.upTo count).run F m).read q.shared.time .x = q.clock F m
  /-- Where the vertex is placed the displacement is accumulated. -/
  position : ((q.before.run F m).read q.shared.displacement.xyz).xyz =
    s.positionAt values (q.clock F m)
  /-- Code that turns the particle begins with reading the accumulated velocity. -/
  velocity : ∀ count n code, q.primary[count]? = some (n, code) →
    n.behavior = .rotateToHeading → ∃ accumulator i rest,
      q.shared.velocity = some accumulator ∧ code = .instruction i :: rest ∧
      accumulator.xyz ∈ i.reads ∧
      (((q.upTo count).run F m).read accumulator.xyz).xyz = s.velocityAt values (q.clock F m)
  /-- In the end the vertex is deformed and placed. -/
  vertex : ((q.code.run F m).read q.shared.vertex.xyz).xyz =
    s.deformed F on (c.inputs m) (q.clock F m) (q.age F m) (s.velocityAt values (q.clock F m))
        (m.read q.shared.source.operand).xyz +
      s.positionAt values (q.clock F m) + total Behavior.isFollow values s.nodes

end

section

variable {s : NodeSet α} {on : Features} {c c₁ : Compilation α} {P : Layout} {q : Parts α}
  {pass : Pass} {profile : Profile} {sourceNames targetNames : List String}
  {sources targets : List Register} {p : Program}

theorem local_upTo (ha : s.Assembled on c P q) (count : Nat) : (q.upTo count).Local := by
  obtain ⟨others, hsources⟩ := ha.source
  refine Program.local_append.mpr ⟨?_, local_pieces fun piece hpiece => ha.emits piece ?_⟩
  · rw [ha.shared, ha.targets]
    exact local_initProgram q.sources ha.apart
  · exact List.mem_append_left _ (List.mem_of_mem_take hpiece)

variable [Field K] [LinearOrder K] [FloorRing K] {F : Functions K} {m : Machine K}
  {values : Node α → Fin 3 → K}

/-- A run through vertex code holds the motion behind the nodes that had their turn. It
starts at rest, where the vertex comes from. -/
structure Course (s : NodeSet α) (on : Features) (c : Compilation α) (P : Layout) (q : Parts α)
    (F : Functions K) (m : Machine K) (a : Motion K) : Prop where
  /-- The vertex is that of the source. -/
  vertex : a.vertex = (m.read q.shared.source.operand).xyz
  /-- It is not displaced. -/
  displacement : a.displacement = 0
  /-- Nothing moves. -/
  velocity : a.velocity = 0
  /-- Behind the code of the first nodes, these had their turn. -/
  upTo : ∀ count, P.motion ((q.upTo count).run F m) =
    a.after F on (c.inputs m) ((s.nodes.filter (·.info.block = .primary)).take count)

theorem Course.before {a : Motion K} (h : s.Course on c P q F m a) (ha : s.Assembled on c P q) :
    P.motion (q.before.run F m) =
      a.after F on (c.inputs m) (s.nodes.filter (·.info.block = .primary)) := by
  unfold Parts.before
  rw [h.upTo, ← ha.primary, ← List.map_take, List.take_length]

theorem Assembled.exists_course (ha : s.Assembled on c P q)
    (hhelper : m .vertexConstant P.helper = .helper) :
    ∃ a : Motion K, s.Course on c P q F m a := by
  obtain ⟨others, hsources⟩ := ha.source
  have hlocal := local_initProgram q.sources ha.apart
  rw [← ha.shared, ← ha.targets] at hlocal
  obtain ⟨hvertex, hdisplacement, hvelocity⟩ := motion_initProgram (F := F) others ha.apart hhelper
  rw [← hsources, ← ha.targets, ← ha.shared] at hvertex hdisplacement hvelocity
  refine ⟨_, ?_, hdisplacement, hvelocity, fun count => ?_⟩
  · rw [hvertex, ha.shared, Layout.source_shared]
  · have hinputs : c.inputs (Program.run F (initProgram q.shared q.sources q.targets) m) =
        c.inputs m := funext fun n => inputs_run hlocal
    have hkept : Program.run F (initProgram q.shared q.sources q.targets) m .vertexConstant
        P.helper = .helper := by
      rw [Program.run_of_local hlocal Register.Kind.noConfusion, hhelper]
    have hemits : ∀ piece ∈ q.primary.take count, Emits P on c piece.1 piece.2 :=
      fun piece hpiece => ha.emits piece (List.mem_append_left _ (List.mem_of_mem_take hpiece))
    unfold Parts.upTo
    rw [Program.run_append, motion_pieces hemits hkept, hinputs, List.map_take, ha.primary]

/-- The placement adds the displacement, and the nodes behind it add their offsets. -/
theorem Assembled.vertex_code (hcatalogue : ∀ n ∈ s.nodes, n.behavior.IsCatalogue)
    (hsorted : s.nodes.Pairwise Node.Before) (ha : s.Assembled on c P q)
    (hsupplied : ∀ n ∈ s.nodes, n.Supplied (c.inputs m) values)
    (hhelper : m .vertexConstant P.helper = .helper) :
    (P.motion (q.code.run F m)).vertex = (P.motion (q.before.run F m)).vertex +
      (P.motion (q.before.run F m)).displacement + total Behavior.isFollow values s.nodes := by
  have hplacing : q.placing =
      [Statement.add P.shared.vertex.xyz P.shared.vertex.xyz P.shared.displacement.xyz] := by
    rw [← ha.shared]
    rfl
  have hlocal : Program.Local (q.before ++ q.placing) := by
    refine Program.local_append.mpr ⟨local_upTo ha _, ?_⟩
    simp [hplacing]
  have hemits : ∀ piece ∈ q.post, Emits P on c piece.1 piece.2 :=
    fun piece hpiece => ha.emits piece (List.mem_append_right _ hpiece)
  have hkept : Program.run F (q.before ++ q.placing) m .vertexConstant P.helper = .helper := by
    rw [Program.run_of_local hlocal Register.Kind.noConfusion, hhelper]
  have hkept' : Program.run F (q.post.flatMap Prod.snd) (Program.run F (q.before ++ q.placing) m)
      .vertexConstant P.helper = .helper := by
    rw [Program.run_of_local (local_pieces hemits) Register.Kind.noConfusion, hkept]
  have hinputs : c.inputs (Program.run F (q.before ++ q.placing) m) = c.inputs m :=
    funext fun n => inputs_run hlocal
  have hfollow : total Behavior.isFollow values (s.nodes.filter (·.info.block = .post)) =
      total Behavior.isFollow values s.nodes :=
    total_filter fun n hn => decide_eq_true (Node.block_of_follow hn)
  unfold Parts.code Parts.behind
  rw [Program.run_append, Program.run_append, ha.colors hkept', motion_pieces hemits hkept, hinputs,
    ha.post, Motion.vertex_after (hsorted.filter _), foldl_post, hfollow, Program.run_append,
    hplacing, motion_combine ha.apart]
  · exact fun n hn => hcatalogue n (List.mem_filter.mp hn).1
  · exact fun n hn => of_decide_eq_true (List.mem_filter.mp hn).2
  · exact fun n hn => hsupplied n (List.mem_filter.mp hn).1

/-- **The laws of motion hold in the registers** of a machine that is loaded with the
values of the nodes. -/
theorem Assembled.computes [IsStrictOrderedRing K]
    (hcatalogue : ∀ n ∈ s.nodes, n.behavior.IsCatalogue) (hsorted : s.nodes.Pairwise Node.Before)
    (hcovers : Covers on s) (ha : s.Assembled on c P q)
    (hsupplied : ∀ n ∈ s.nodes, n.Supplied (c.inputs m) values)
    (hhelper : m .vertexConstant P.helper = .helper) : s.Computes on c q F m values := by
  obtain ⟨a, hcourse⟩ := ha.exists_course (F := F) hhelper
  obtain ⟨b, hb⟩ : ∃ b, b = P.motion (q.before.run F m) := ⟨_, rfl⟩
  have hafter := hb.trans (hcourse.before ha)
  have hclock : q.clock F m = b.time := by
    unfold Parts.clock
    rw [hb, ha.shared]
    rfl
  have hage : q.age F m = b.life := by
    unfold Parts.age
    rw [hb, ha.shared]
    rfl
  refine ⟨fun count hcount => ?_, ?_, fun count n code hpiece hheading => ?_, ?_⟩
  · have hrest : ∀ n ∈ (s.nodes.filter (·.info.block = .primary)).drop count,
        n.behavior.isTime = false := by
      rw [← ha.primary, ← List.map_drop]
      exact List.forall_mem_map.mpr hcount
    rw [hclock, hafter, ← Motion.time_take hrest, ← hcourse.upTo, ha.shared]
    rfl
  · rw [ha.shared, Layout.read_displacement, hclock, ← hb]
    exact displacement_eq hsorted hsupplied hcourse.displacement hafter
  · obtain ⟨haccumulated, i, rest, hcode, hreads⟩ := (ha.emits (n, code)
      (List.mem_append_left _ (List.mem_of_getElem? hpiece))).reads hheading
    have hn : (s.nodes.filter (·.info.block = .primary))[count]? = some n := by
      rw [← ha.primary, List.getElem?_map, hpiece]
      rfl
    have hlate : 1 < n.behavior.priority := by
      rw [hheading]
      show (1 : Int) < 3
      decide
    refine ⟨.temporary P.temporary, i, rest, ?_, hcode, hreads, ?_⟩
    · rw [ha.shared, Layout.velocity_shared, if_pos haccumulated]
    · rw [Layout.read_velocity haccumulated, hcourse.upTo,
        Motion.velocity_take (hsorted.filter _) hn hlate, ← hafter, hclock]
      exact velocity_eq (ha.velocity.trans haccumulated) hsorted hsupplied hcourse.velocity hafter
  · rw [ha.shared, Layout.read_vertex, ha.vertex_code hcatalogue hsorted hsupplied hhelper, ← hb,
      hclock, hage, ← ha.shared, ← hcourse.vertex,
      vertex_eq hcovers.velocity hsorted hsupplied hcourse.velocity hafter,
      displacement_eq hsorted hsupplied hcourse.displacement hafter]

variable [Scalar α]

/-- **Vertex code computes the motion of the vertex**: let vertex code be written for a
built set, to different whole temporaries. It falls into parts, and on every machine that is
loaded with the values of the nodes, with the time that it keeps, the displacement and the
velocity are what the laws of motion say, and the vertex is scaled and rotated, displaced,
and offset by the nodes that follow. -/
theorem Built.motion_spec (h : s.Built) (hsources : sourceNames.mapM Register.ofName = .ok sources)
    (htargets : targetNames.mapM Register.ofName = .ok targets)
    (hwhole : ∀ r ∈ targets, ∃ i, r = .temporary i) (hnodup : targets.Nodup)
    (hcode : Leads (s.vertexCode pass profile sourceNames targetNames) c p c₁) :
    ∃ q : Parts α, p = q.code ∧ q.sources = sources ∧ q.targets = targets ∧
      s.Parted (s.featuresFor pass) c₁ q ∧
      ∀ {K : Type} [Field K] [LinearOrder K] [IsStrictOrderedRing K] [FloorRing K]
        (F : Functions K) (m : Machine K) (values : Node α → Fin 3 → K),
        s.Loaded pass c₁ m values → s.Computes (s.featuresFor pass) c₁ q F m values := by
  obtain ⟨P, q, ha, hp, hqsources, hqtargets, hhelper⟩ :=
    h.assembled hsources htargets hwhole hnodup hcode
  have hledger := (h.compiled_vertexCode hcode).1.ledger
  have hparted : s.Parted (s.featuresFor pass) c₁ q := by
    refine ha.parted fun n hn hmoves => ?_
    obtain ⟨need, hneed, hslot⟩ :=
      Behavior.exists_value_vertexNeeds (f := s.featuresFor pass) hmoves
    obtain ⟨index, hindex⟩ := Ledger.exists_lookup_takeAll (l := .opened pass)
      (mem_vertexNeeds.mpr ⟨hn, hneed⟩)
    refine ⟨index, ?_⟩
    rw [← hledger] at hindex
    rw [← hslot]
    exact hindex
  refine ⟨q, hp, hqsources, hqtargets, hparted, fun {K} _ _ _ _ F m values hloaded => ?_⟩
  exact ha.computes h.isCatalogue h.sorted (covers_featuresFor s pass)
    (fun n hn => hloaded.supplied hparted hn) (hhelper ▸ hloaded.helper)

end

/-- Particles that are placed, thrown and pulled, turn along their velocity and follow. -/
def thrown : NodeSet Rat where
  settings := { features := { velocity := true } }
  nodes :=
    [{ behavior := .time {}, id := 0 },
     { behavior := .position (.perParticle .baked), id := 1, offset := 4 },
     { behavior := .velocity (.global ⟨0, 1, 2⟩), id := 2 },
     { behavior := .acceleration (.perParticle .baked), id := 3, offset := 7 },
     { behavior := .rotateToHeading, id := 4 },
     { behavior := .follow, id := 5 }]
  stride := 10
  dynamicStride := 3

theorem built_thrown : thrown.Built :=
  .add (b := .follow)
    (.add (b := .rotateToHeading)
      (.add (b := .acceleration (.perParticle .baked))
        (.add (b := .velocity (.global ⟨0, 1, 2⟩))
          (.add (b := .position (.perParticle .baked)) (.empty {}) (by exact trivial) rfl)
          (by exact trivial) rfl)
        (by exact trivial) rfl)
      (by exact trivial) rfl)
    (by exact trivial) rfl

/-- Over the real numbers, with their functions, the particles are thrown and fall. -/
theorem thrown_moves : ∃ p c₁ q values, ∃ m : Machine ℝ,
    Leads (thrown.vertexCode {} .baseline ["va0"] ["vt0"]) { profile := .standard } p c₁ ∧
    p = q.code ∧ thrown.Loaded {} c₁ m values ∧
    thrown.Computes (thrown.featuresFor {}) c₁ q ⟨Real.sin, Real.cos, Real.sqrt⟩ m values ∧
    ∀ t, thrown.positionAt values t = ![1 + t * t, 2 + t + 2 * t * t, 3 + 2 * t + 3 * t * t] ∧
      thrown.velocityAt values t = ![2 * t, 1 + 4 * t, 2 + 6 * t] := by
  have hsources : ["va0"].mapM Register.ofName = .ok [{ kind := .vertexAttribute, index := 0 }] :=
    rfl
  have htargets : ["vt0"].mapM Register.ofName = .ok [.temporary 0] := rfl
  have hcode : succeeds (thrown.vertexCode {} .baseline ["va0"] ["vt0"])
      { profile := .standard } = true := by
    decide +kernel
  obtain ⟨p, c₁, hcode⟩ := exists_leads hcode
  obtain ⟨q, hp, -, -, -, hspec⟩ := built_thrown.motion_spec hsources htargets
    (List.forall_mem_singleton.mpr ⟨0, rfl⟩) (List.nodup_singleton _) hcode
  -- every constant holds null, one and two, every attribute one, two and three
  obtain ⟨m, hm⟩ : ∃ m : Machine ℝ, m = fun kind _ =>
    if kind = .vertexConstant then .helper else .ofVector ![1, 2, 3] := ⟨_, rfl⟩
  obtain ⟨values, hvalues⟩ : ∃ values : Node Rat → Fin 3 → ℝ, values = fun n =>
    if n.behavior.isVelocity then ![0, 1, 2]
    else if n.behavior.isAcceleration then ![2, 4, 6] else ![1, 2, 3] := ⟨_, rfl⟩
  have hloaded : thrown.Loaded {} c₁ m values := by
    rw [hm, hvalues]
    refine ⟨rfl, fun n hn hmoves index _ => ?_⟩
    simp only [thrown, List.mem_cons, List.not_mem_nil, or_false] at hn
    rcases hn with rfl | rfl | rfl | rfl | rfl | rfl
    · exact absurd hmoves Bool.false_ne_true
    · rfl
    · rfl
    · show ![(1 : ℝ), 2, 3] = (1 / (2 : Nat) : ℝ) • ![2, 4, 6]
      norm_num [Matrix.smul_cons]
    · exact absurd hmoves Bool.false_ne_true
    · rfl
  refine ⟨p, c₁, q, values, m, hcode, hp, hloaded, hspec _ _ _ hloaded, fun t => ⟨?_, ?_⟩⟩
  · ext i
    fin_cases i <;> simp [positionAt, thrown, hvalues, Behavior.isPosition, Behavior.isVelocity,
      Behavior.isAcceleration] <;> ring
  · ext i
    fin_cases i <;> simp [velocityAt, thrown, hvalues, Behavior.isVelocity,
      Behavior.isAcceleration] <;> ring

end NodeSet

end ParticleShader
