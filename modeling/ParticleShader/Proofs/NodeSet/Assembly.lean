import ParticleShader.Proofs.NodeSet.Constants
import ParticleShader.Proofs.NodeSet.Kinematics

/-!
# The parts of vertex code

Vertex code falls into the beginning, the code of the nodes before the placement of the
vertex, the placement, the code of the nodes behind it, and the color. The beginning
puts the vertex where its source is and clears the accumulators, the code of each node
does what the node does, and the color moves nothing: **`assembled`** says that every
compilation to different whole temporaries leads to such code.
-/

namespace ParticleShader

open Compile Compilation

variable {α K : Type}

/-! ### The code of nodes -/

namespace Compilation

variable {c c' : Compilation α} {n : Node α} {needs : List (Node α × Need)} {m : Machine K}

/-- What other nodes take does not change what is remembered of a node. -/
theorem inputs_eq (hledger : c'.ledger = c.ledger.takeAll needs)
    (h : ∀ need ∈ needs, need.1.id ≠ n.id) : c'.inputs m n = c.inputs m n := by
  have hindex : ∀ slot, c'.index? n.id slot = c.index? n.id slot := fun slot =>
    Ledger.index?_takeAll hledger fun hmem => by
      obtain ⟨need, hneed, hkey⟩ := List.mem_map.mp hmem
      exact h need hneed (congrArg Prod.fst hkey)
  unfold inputs
  rw [hindex, hindex]

/-- The parameters of a node are the same behind code that writes into temporaries. -/
theorem inputs_run [Field K] [LinearOrder K] [FloorRing K] {F : Functions K} {p : Program}
    (h : p.Local) : c.inputs (p.run F m) n = c.inputs m n := by
  have hkind : n.parameterKind ≠ .vertexTemporary := by
    unfold Node.parameterKind
    cases n.behavior.mode <;> exact Register.Kind.noConfusion
  unfold inputs
  rw [Program.run_of_local h Register.Kind.noConfusion, Program.run_of_local h hkind]

end Compilation

/-- Code that does what a node does, in places of the shared registers. -/
structure Emits (P : Layout) (on : Features) (c : Compilation α) (n : Node α) (p : Program) :
    Prop where
  /-- It is the code of the node. -/
  emitted : ∃ d d', Leads n.vertexCode d p d'
  /-- It writes into temporaries alone. -/
  writes : p.Local
  /-- If it turns the particle it begins with reading the accumulated velocity. -/
  reads : n.behavior = .rotateToHeading → P.velocity = true ∧
    ∃ i rest, p = .instruction i :: rest ∧ (Register.temporary P.temporary).xyz ∈ i.reads
  /-- It moves the vertex as the node does. -/
  motion : ∀ {K : Type} [Field K] [LinearOrder K] [FloorRing K] {F : Functions K} {m : Machine K},
    m .vertexConstant P.helper = .helper →
      P.motion (p.run F m) = n.behavior.move F on (c.inputs m n) (P.motion m)

section

variable {P : Layout} {on : Features} {c c' final : Compilation α} {p : Program}
  {pieces : List (Node α × Program)} {more : List (Node α × Need)}

theorem local_pieces (h : ∀ piece ∈ pieces, Emits P on c piece.1 piece.2) :
    Program.Local (pieces.flatMap Prod.snd) := by
  intro i hi
  obtain ⟨piece, hpiece, hi⟩ := List.mem_flatMap.mp hi
  exact (h piece hpiece).writes i hi

/-- **A run through the code of nodes**: behind it the registers hold the motion behind the
nodes. -/
theorem motion_pieces [Field K] [LinearOrder K] [FloorRing K] {F : Functions K} {m : Machine K}
    (h : ∀ piece ∈ pieces, Emits P on c piece.1 piece.2)
    (hhelper : m .vertexConstant P.helper = .helper) :
    P.motion (Program.run F (pieces.flatMap Prod.snd) m) =
      (P.motion m).after F on (c.inputs m) (pieces.map Prod.fst) := by
  induction pieces generalizing m with
  | nil => rfl
  | cons piece pieces ih =>
    obtain ⟨hfirst, hrest⟩ := List.forall_mem_cons.mp h
    have hhelper' : Program.run F piece.2 m .vertexConstant P.helper = .helper := by
      rw [Program.run_of_local hfirst.writes Register.Kind.noConfusion, hhelper]
    have hinputs : c.inputs (Program.run F piece.2 m) = c.inputs m :=
      funext fun n => inputs_run hfirst.writes
    rw [List.flatMap_cons, Program.run_append, ih hrest hhelper', hfirst.motion hhelper, hinputs]
    rfl

end

namespace NodeSet

variable {s : NodeSet α} {c c' c₁ final : Compilation α} {P : Layout} {on : Features}
  {p : Program} {more : List (Node α × Need)}

/-- The code of nodes falls into pieces, one for each node. -/
theorem exists_pieces {nodes : List (Node α)} (hcatalogue : ∀ n ∈ nodes, n.behavior.IsCatalogue)
    (hnodup : (nodes.map (·.id)).Nodup) (hready : ∀ n ∈ nodes, c.Ready n.behavior)
    (hhosts : c.Hosts P) (hcode : Leads (gather Node.vertexCode nodes) c p c')
    (hfinal : final.ledger = c'.ledger.takeAll more)
    (hmore : ∀ need ∈ more, ∀ n ∈ nodes, need.1.id ≠ n.id) :
    ∃ pieces : List (Node α × Program), pieces.map Prod.fst = nodes ∧
      pieces.flatMap Prod.snd = p ∧
      ∀ piece ∈ pieces, Emits P c.features final piece.1 piece.2 := by
  induction nodes generalizing c p with
  | nil =>
    obtain ⟨rfl, -⟩ := leads_result.mp hcode
    exact ⟨[], rfl, rfl, nofun⟩
  | cons n nodes ih =>
    rw [List.forall_mem_cons] at hcatalogue hready
    rw [List.map_cons, List.nodup_cons] at hnodup
    obtain ⟨first, c₁, d, others, hfirst, hgrows, hready₁, hothers, -, rfl⟩ :=
      of_gather hcatalogue.1 hcatalogue.2 hready.1 hready.2 hcode
    have hrecords :=
      records_gather (fun n hn => Node.records_vertexCode (hcatalogue.2 n hn)) hothers
    have hlater : final.ledger =
        c₁.ledger.takeAll (nodes.flatMap (Node.vertexNeeds c₁.features) ++ more) := by
      rw [hfinal, hrecords.ledger, Ledger.takeAll_append]
    have hothers' : ∀ need ∈ nodes.flatMap (Node.vertexNeeds c₁.features) ++ more,
        need.1.id ≠ n.id := by
      intro need hneed hid
      rcases List.mem_append.mp hneed with hneed | hneed
      · obtain ⟨m, hm, hneed⟩ := List.mem_flatMap.mp hneed
        obtain ⟨_, -, rfl⟩ := List.mem_map.mp hneed
        exact hnodup.1 (List.mem_map.mpr ⟨m, hm, hid⟩)
      · exact hmore need hneed n List.mem_cons_self hid
    obtain ⟨pieces, hnodes, rfl, hpieces⟩ := ih hcatalogue.2 hnodup.2 hready₁
      (hhosts.grows hgrows) hothers fun need hneed m hm =>
        hmore need hneed m (List.mem_cons_of_mem n hm)
    rw [hgrows.features] at hpieces
    refine ⟨(n, first) :: pieces, by rw [List.map_cons, hnodes], rfl,
      List.forall_mem_cons.mpr ⟨⟨⟨c, c₁, hfirst⟩, ?_, ?_, ?_⟩, hpieces⟩⟩
    · exact hhosts.local_vertexCode hcatalogue.1 hfirst
    · exact fun hheading => Node.reads_vertexCode hheading hfirst hhosts
    · intro K _ _ _ F m hhelper
      rw [inputs_eq hlater hothers']
      exact Node.motion_vertexCode hcatalogue.1 hfirst hgrows hhosts hhelper

end NodeSet

/-! ### The code around the nodes -/

section

variable {P : Layout} {sources targets : List Register}

theorem spares_copies {kind : Register.Kind} {index : Nat}
    (h : ∀ r ∈ targets, ¬ (r.kind = kind ∧ r.index = index)) :
    Program.Spares (targets.zipWith (fun (t s : Register) => Statement.mov t s) sources)
      kind index := by
  induction targets generalizing sources with
  | nil => exact Program.spares_nil
  | cons target targets ih =>
    obtain ⟨htarget, hrest⟩ := List.forall_mem_cons.mp h
    cases sources with
    | nil => exact Program.spares_nil
    | cons source sources => exact Program.spares_unary.mpr ⟨htarget, ih hrest⟩

theorem local_copies (h : ∀ r ∈ targets, r.kind = .vertexTemporary) :
    Program.Local (targets.zipWith (fun (t s : Register) => Statement.mov t s) sources) := by
  induction targets generalizing sources with
  | nil => exact Program.local_nil
  | cons target targets ih =>
    obtain ⟨htarget, hrest⟩ := List.forall_mem_cons.mp h
    cases sources with
    | nil => exact Program.local_nil
    | cons source sources => exact Program.local_unary.mpr ⟨htarget, ih hrest⟩

theorem local_initProgram (sources : List Register) (hapart : P.Apart []) :
    (initProgram P.shared sources (.temporary P.vertex :: P.directions)).Local := by
  have hcopies : Program.Local ((Register.temporary P.vertex :: P.directions).zipWith
      (fun (t s : Register) => Statement.mov t s) sources) := by
    refine local_copies (List.forall_mem_cons.mpr ⟨rfl, fun r hr => ?_⟩)
    obtain ⟨d, rfl, -⟩ := hapart.directions r hr
    rfl
  unfold initProgram
  rw [Program.local_append]
  refine ⟨hcopies, ?_⟩
  cases hvelocity : P.velocity <;> simp [hvelocity]

variable [Field K] [LinearOrder K] [FloorRing K] {F : Functions K} {m : Machine K}

/-- The vertex begins where its source is, and nothing is accumulated yet. -/
theorem motion_initProgram (sources : List Register) (hapart : P.Apart [])
    (hhelper : m .vertexConstant P.helper = .helper) :
    let a := P.motion (Program.run F (initProgram P.shared (P.source :: sources)
      (.temporary P.vertex :: P.directions)) m)
    a.vertex = (m.read P.source.operand).xyz ∧ a.displacement = 0 ∧ a.velocity = 0 := by
  have hdistinct := hapart.places
  simp only [Distinct, List.pairwise_cons, List.forall_mem_cons] at hdistinct
  have hcopies : Program.Spares (P.directions.zipWith (fun (t s : Register) => Statement.mov t s)
      sources) .vertexTemporary P.vertex := by
    refine spares_copies fun r hr => ?_
    obtain ⟨d, rfl, hd⟩ := hapart.directions r hr
    simp only [Distinct, List.pairwise_cons, List.forall_mem_cons] at hd
    simp [hd]
  have hlocal : Program.Local (P.directions.zipWith (fun (t s : Register) => Statement.mov t s)
      sources) := by
    refine local_copies fun r hr => ?_
    obtain ⟨d, rfl, -⟩ := hapart.directions r hr
    rfl
  obtain ⟨m', hm'⟩ : ∃ m', m' = m.write (Register.temporary P.vertex).operand
      (m.read P.source.operand) := ⟨_, rfl⟩
  have hvertex : (Program.run F (P.directions.zipWith (fun (t s : Register) => Statement.mov t s)
      sources) m' .vertexTemporary P.vertex).xyz = (m.read P.source.operand).xyz := by
    rw [Program.run_of_spares hcopies, hm']
    simp [Value.xyz]
  have hhelper' : Program.run F (P.directions.zipWith (fun (t s : Register) => Statement.mov t s)
      sources) m' .vertexConstant P.helper = .helper := by
    rw [Program.run_of_local hlocal Register.Kind.noConfusion, hm',
      Machine.write_of_ne (fun h => Register.Kind.noConfusion h.1), hhelper]
  have hrun : Program.run F (initProgram P.shared (P.source :: sources)
      (.temporary P.vertex :: P.directions)) m =
      Program.run F (Statement.mov P.shared.displacement.xyz P.shared.zero ::
        P.shared.velocity.toList.map fun (velocity : Register) =>
          Statement.mov velocity.xyz P.shared.zero)
        (Program.run F (P.directions.zipWith (fun (t s : Register) => Statement.mov t s)
          sources) m') := by
    rw [hm', ← Program.run_append]
    rfl
  rw [hrun]
  generalize Program.run F (P.directions.zipWith _ sources) m' = m'' at hvertex hhelper'
  cases hvelocity : P.velocity <;>
    simp [Layout.motion, Value.xyz, Value.helper, hvelocity, hdistinct, hhelper'] at hvertex ⊢ <;>
    exact hvertex

/-- The placement adds the displacement to the vertex. -/
theorem motion_combine (hapart : P.Apart []) :
    P.motion (Program.run F
      [Statement.add P.shared.vertex.xyz P.shared.vertex.xyz P.shared.displacement.xyz] m) =
      { P.motion m with vertex := (P.motion m).vertex + (P.motion m).displacement } := by
  have hdistinct := hapart.places
  simp only [Distinct, List.pairwise_cons, List.forall_mem_cons] at hdistinct
  cases hvelocity : P.velocity <;> simp [Layout.motion, Value.xyz, hvelocity, hdistinct]

end

/-! ### The color -/

section

variable {P : Layout} {c c' : Compilation α} {p : Program}

theorem Layout.Clear.putMultiplier {color : ColorRegisters} {i : Nat} {varying : Register}
    (h : P.Clear color) (hi : P.Apart [i]) : P.Clear { color with
      multiplier := some (.temporary i), multiplierVarying := some varying } := by
  refine ⟨?_, h.offset⟩
  rintro _ ⟨⟩
  exact ⟨i, rfl, hi⟩

theorem Layout.Clear.putOffset {color : ColorRegisters} {i : Nat} {varying : Register}
    (h : P.Clear color) (hi : P.Apart [i]) : P.Clear { color with
      offset := some (.temporary i), offsetVarying := some varying } := by
  refine ⟨h.multiplier, ?_⟩
  rintro _ ⟨⟩
  exact ⟨i, rfl, hi⟩

/-- A color accumulator is a temporary of its own. -/
theorem hosts_accumulator {wanted : Features → Bool} {start : Register}
    {putTarget putVarying : Register → ColorRegisters → ColorRegisters}
    (hput : ∀ i varying color, P.Apart [i] → P.Clear color →
      P.Clear (putVarying varying (putTarget (.temporary i) color)))
    (hcode : Leads (accumulator wanted start putTarget putVarying) c p c') (hhosts : c.Hosts P) :
    P.Beside p ∧ p.Local ∧ c'.Hosts P := by
  rw [leads_accumulator] at hcode
  split at hcode
  · obtain ⟨target, rest, hfree, -, rfl, rfl⟩ := hcode
    have htarget := hhosts.apart.of_free [target] hfree
    have hdistinct := htarget.places
    simp only [Distinct, List.pairwise_cons, List.forall_mem_cons] at hdistinct
    exact ⟨by simp [Layout.Beside, hdistinct], by simp, hhosts.shared, hhosts.velocity,
      hhosts.apart.claiming target, hput _ _ _ htarget hhosts.color⟩
  · obtain ⟨rfl, rfl⟩ := hcode
    exact ⟨Layout.beside_nil, Program.local_nil, hhosts⟩

theorem hosts_initColor (hcode : Leads initColor c p c') (hhosts : c.Hosts P) :
    P.Beside p ∧ p.Local ∧ c'.Hosts P := by
  obtain ⟨shared, -, hinit⟩ := leads_initColor.mp hcode
  split at hinit
  · obtain ⟨multiplier, c₁, offset, hmultiplier, hoffset, rfl⟩ := hinit
    obtain ⟨hbeside, hlocal, hhosts₁⟩ :=
      hosts_accumulator (fun _ _ _ hi h => h.putMultiplier hi) hmultiplier hhosts
    obtain ⟨hbeside', hlocal', hhosts'⟩ :=
      hosts_accumulator (fun _ _ _ hi h => h.putOffset hi) hoffset hhosts₁
    exact ⟨Layout.beside_append hbeside hbeside', Program.local_append.mpr ⟨hlocal, hlocal'⟩,
      hhosts'⟩
  · obtain ⟨rfl, rfl⟩ := hinit
    exact ⟨Layout.beside_nil, Program.local_nil, hhosts⟩

theorem beside_handOver {target varying : Option Register}
    (hvarying : ∀ r ∈ varying, r.kind = .varying) : P.Beside (handOver target varying) := by
  unfold handOver
  split
  · refine fun i _ => Program.spares_unary.mpr ⟨fun hsame => ?_, Program.spares_nil⟩
    exact Register.Kind.noConfusion ((hvarying _ rfl).symm.trans hsame.1)
  · exact Layout.beside_nil

theorem beside_colorPassCode {first : Nat} (h : c.HandsOver first) : P.Beside c.colorPassCode := by
  have hkind : ∀ r ∈ c.color.varyings, r.kind = .varying := by
    intro r hr
    obtain ⟨i, rfl, -⟩ := h r hr
    rfl
  refine Layout.beside_append (beside_handOver fun r hr => ?_) (beside_handOver fun r hr => ?_)
  · exact hkind r (List.mem_append_left _ (Option.mem_toList.mpr hr))
  · exact hkind r (List.mem_append_right _ (Option.mem_toList.mpr hr))

theorem Compilation.Hosts.enter {reached : Phase} {f : Features} (h : c.Hosts P)
    (hc : c.Begun P.shared reached f) (phase : Phase) (hactive : phase.isActive = true) :
    ({ c with phase } : Compilation α).Hosts P :=
  ⟨(hc.enter phase).shared? hactive, h.velocity, h.apart, h.color⟩

end

/-! ### The parts of vertex code -/

/-- Temporaries that are no targets are apart from the places of the targets. -/
theorem Layout.apart_of_claimed {P : Layout} {rest : List Nat}
    (hnodup : (P.displacement :: P.temporary :: rest).Nodup)
    (hclaimed : ∀ i ∈ P.displacement :: P.temporary :: rest, ∀ j,
      .temporary j ∈ Register.temporary P.vertex :: P.directions → j ≠ i)
    (hwhole : ∀ r ∈ Register.temporary P.vertex :: P.directions, ∃ i, r = .temporary i)
    (htargets : (Register.temporary P.vertex :: P.directions).Nodup) : P.Apart rest := by
  have hvertex : P.vertex ∉ P.displacement :: P.temporary :: rest :=
    fun hi => hclaimed _ hi P.vertex List.mem_cons_self rfl
  refine ⟨distinct_iff_nodup.mpr (List.nodup_cons.mpr ⟨hvertex, hnodup⟩), fun r hr => ?_⟩
  obtain ⟨d, rfl⟩ := hwhole r (List.mem_cons_of_mem _ hr)
  have hd := fun i hi => hclaimed i hi d (List.mem_cons_of_mem _ hr)
  have hne : P.vertex ≠ d := by
    rintro rfl
    exact (List.nodup_cons.mp htargets).1 hr
  refine ⟨d, rfl, distinct_iff_nodup.mpr ?_⟩
  simp only [List.forall_mem_cons] at hd
  simp only [List.nodup_cons, List.mem_cons, not_or] at hnodup hvertex
  simp [hne, hvertex.1, hvertex.2.1, hnodup.1.1, hd.1.symm, hd.2.1.symm]

/-- The parts of vertex code: what is shared, the code of the nodes before the placement of
the vertex, the code of those behind it, and the colors. -/
structure Parts (α : Type) where
  /-- The registers that all nodes share. -/
  shared : SharedRegisters
  /-- The registers that are copied. -/
  sources : List Register
  /-- The registers that they are copied to. -/
  targets : List Register
  /-- The nodes before the placement, each with its code. -/
  primary : List (Node α × Program)
  /-- The nodes behind it, each with its code. -/
  post : List (Node α × Program)
  /-- The code for the color. -/
  colors : Program

namespace Parts

/-- The beginning, and the code of the first nodes before the placement. -/
def upTo (q : Parts α) (count : Nat) : Program :=
  initProgram q.shared q.sources q.targets ++ (q.primary.take count).flatMap Prod.snd

/-- All that comes before the placement. -/
def before (q : Parts α) : Program := q.upTo q.primary.length

/-- The placement, which adds the displacement to the vertex. -/
def placing (q : Parts α) : Program :=
  [Statement.add q.shared.vertex.xyz q.shared.vertex.xyz q.shared.displacement.xyz]

/-- All that comes behind the placement. -/
def behind (q : Parts α) : Program := q.post.flatMap Prod.snd ++ q.colors

/-- The vertex code. -/
def code (q : Parts α) : Program := q.before ++ q.placing ++ q.behind

end Parts

namespace NodeSet

variable {s : NodeSet α} {c c' c₁ : Compilation α} {P : Layout} {f : Features} {pass : Pass}
  {profile : Profile} {sources targets : List Register} {sourceNames targetNames : List String}
  {p : Program}

/-- The shared registers lie in temporaries that are no targets. -/
theorem hosts_of_reset {u : Unit} (hsources : sourceNames.mapM Register.ofName = .ok sources)
    (htargets : targetNames.mapM Register.ofName = .ok targets)
    (hwhole : ∀ r ∈ targets, ∃ i, r = .temporary i) (hnodup : targets.Nodup)
    (hcode : Leads (reset profile pass f sourceNames targetNames) c u c') :
    ∃ (P : Layout) (others : List Register), c'.Hosts P ∧ c'.shared = some P.shared ∧
      P.helper = pass.taken.vertexConstants ∧ sources = P.source :: others ∧
      targets = .temporary P.vertex :: P.directions ∧ c'.sources = sources ∧
      c'.targets = targets := by
  obtain ⟨sources, targets, hsources', htargets', hshare⟩ := leads_reset.mp hcode
  obtain rfl := Except.ok.inj (hsources.symm.trans hsources')
  obtain rfl := Except.ok.inj (htargets.symm.trans htargets')
  obtain ⟨source, others, target, directions, shared, c₁, rfl, rfl, -, -, hshared, rfl⟩ :=
    leads_shareRegisters.mp hshare
  obtain ⟨-, displacement, temporary, rest, hfree, rfl, rfl⟩ := leads_allocateShared.mp hshared
  obtain ⟨vertex, rfl⟩ := hwhole target List.mem_cons_self
  have hclaimed : ∀ i ∈ displacement :: temporary :: rest, ∀ j,
      .temporary j ∈ Register.temporary vertex :: directions → j ≠ i := by
    rw [← hfree, free_claimingAll]
    rintro i hi j hj rfl
    have hunclaimed := (List.mem_filter.mp hi).2
    simp only [decide_eq_true_eq] at hunclaimed
    exact hunclaimed (Register.mem_temporaryIndices.mpr ⟨_, hj, rfl, rfl⟩)
  have hframe := claimingAll_frame ({ c.restart profile pass f with
    sources := source :: others, targets := .temporary vertex :: directions } : Compilation α)
    (Register.temporaryIndices (.temporary vertex :: directions))
  generalize Compilation.claimingAll _ _ = c₂ at *
  obtain ⟨hused, hfeatures, hcolor, hcopied, htargeted⟩ : c₂.used = pass.taken ∧
      c₂.features = f ∧ c₂.color = {} ∧ c₂.sources = source :: others ∧
      c₂.targets = .temporary vertex :: directions := by
    rw [hframe]
    exact ⟨rfl, rfl, rfl, rfl, rfl⟩
  have hsorted := (pairwise_free c₂).imp Nat.ne_of_lt
  rw [hfree] at hsorted
  refine ⟨⟨source, vertex, directions, c₂.used.vertexConstants, displacement, temporary,
    c₂.features.velocity⟩, others, ⟨rfl, rfl, ?_, ?_⟩, rfl, congrArg (·.vertexConstants) hused, rfl,
    rfl, hcopied, htargeted⟩
  · show Layout.Apart _ ((c₂.claiming displacement).claiming temporary).free
    rw [free_claiming_head (free_claiming_head hfree)]
    exact Layout.apart_of_claimed hsorted hclaimed hwhole hnodup
  · show Layout.Clear _ c₂.color
    rw [hcolor]
    exact ⟨nofun, nofun⟩

/-- A set is compiled from the parts of its vertex code: the code of its nodes before the
placement and behind it, and the colors, which move nothing. -/
structure Assembled (s : NodeSet α) (on : Features) (c : Compilation α) (P : Layout)
    (q : Parts α) : Prop where
  /-- The registers of the parts lie in their places. -/
  shared : q.shared = P.shared
  /-- They are remembered. -/
  remembered : c.shared = some q.shared
  /-- The velocity is accumulated if some node needs it. -/
  velocity : on.velocity = P.velocity
  /-- The vertex comes from the first source. -/
  source : ∃ others, q.sources = P.source :: others
  /-- The vertex and the directions are the targets. -/
  targets : q.targets = .temporary P.vertex :: P.directions
  /-- The places are different. -/
  apart : P.Apart []
  /-- The nodes before the placement. -/
  primary : q.primary.map Prod.fst = s.nodes.filter (·.info.block = .primary)
  /-- The nodes behind it. -/
  post : q.post.map Prod.fst = s.nodes.filter (·.info.block = .post)
  /-- The code of a node does what the node does. -/
  emits : ∀ piece ∈ q.primary ++ q.post, Emits P on c piece.1 piece.2
  /-- The colors move nothing. -/
  colors : ∀ {K : Type} [Field K] [LinearOrder K] [FloorRing K] {F : Functions K} {m : Machine K},
    m .vertexConstant P.helper = .helper → P.motion (q.colors.run F m) = P.motion m

variable [Scalar α]

/-- Nodes of different blocks have different handles. -/
theorem Built.id_ne_of_block (h : s.Built) {block block' : Block} (hne : block ≠ block')
    {need : Node α × Need} (hneed : need ∈ (s.nodes.filter (·.info.block = block')).flatMap
      (Node.vertexNeeds f)) {n : Node α} (hn : n ∈ s.nodes.filter (·.info.block = block)) :
    need.1.id ≠ n.id := by
  obtain ⟨m, hm, hneed⟩ := List.mem_flatMap.mp hneed
  obtain ⟨_, -, rfl⟩ := List.mem_map.mp hneed
  obtain ⟨hm, hblock'⟩ := List.mem_filter.mp hm
  obtain ⟨hn, hblock⟩ := List.mem_filter.mp hn
  intro hid
  obtain rfl := h.eq_of_id hm hn hid
  exact hne ((of_decide_eq_true hblock).symm.trans (of_decide_eq_true hblock'))

/-- The fragments and the block of the color move nothing. -/
theorem Built.motion_colors (h : s.Built) {start : Program} {pieces : List (Node α × Program)}
    {first : Nat} (hstart : P.Beside start) (hlocal : start.Local)
    (hpieces : ∀ piece ∈ pieces, Emits P f c piece.1 piece.2)
    (hnodes : pieces.map Prod.fst = s.nodes.filter (·.info.block = .color))
    (hpass : c'.HandsOver first) [Field K] [LinearOrder K] [FloorRing K] {F : Functions K}
    {m : Machine K} (hhelper : m .vertexConstant P.helper = .helper) :
    P.motion (Program.run F (start ++ pieces.flatMap Prod.snd ++ c'.colorPassCode) m) =
      P.motion m := by
  have hhelper' : Program.run F start m .vertexConstant P.helper = .helper := by
    rw [Program.run_of_local hlocal Register.Kind.noConfusion, hhelper]
  have hstill : ∀ n ∈ pieces.map Prod.fst, ∀ i (a : Motion K), n.behavior.move F f i a = a := by
    rw [hnodes]
    intro n hn
    obtain ⟨hn, hblock⟩ := List.mem_filter.mp hn
    exact Behavior.move_of_color (h.isCatalogue n hn) (of_decide_eq_true hblock)
  rw [Program.run_append, Program.run_append, Layout.motion_of_beside (beside_colorPassCode hpass),
    motion_pieces hpieces hhelper', Motion.after_of_still hstill, Layout.motion_of_beside hstart]

/-- The code of a block falls into pieces, one for each node. -/
theorem Built.exists_pieces (h : s.Built) {block : Block} {phase : Phase} {shared : SharedRegisters}
    {final : Compilation α} {more : List (Node α × Need)} (hcovers : Covers f s)
    (hc : c.Begun shared phase f) (hactive : phase.isActive = true)
    (hcolor : block = .color → f.fragmentAnimation = true → Colored f c) (hhosts : c.Hosts P)
    (hcode : Leads (s.blockCode block) c p c') (hfinal : final.ledger = c'.ledger.takeAll more)
    (hmore : ∀ need ∈ more, ∀ n ∈ s.nodes.filter (·.info.block = block), need.1.id ≠ n.id) :
    ∃ pieces : List (Node α × Program),
      pieces.map Prod.fst = s.nodes.filter (·.info.block = block) ∧
      pieces.flatMap Prod.snd = p ∧ ∀ piece ∈ pieces, Emits P f final piece.1 piece.2 := by
  have hnodup : ((s.nodes.filter (·.info.block = block)).map (·.id)).Nodup :=
    h.nodup_ids.sublist (List.filter_sublist.map _)
  rw [← hc.features]
  exact NodeSet.exists_pieces (fun n hn => h.isCatalogue n (List.mem_filter.mp hn).1) hnodup
    (hcovers.ready h.isCatalogue hc hactive hcolor) hhosts hcode hfinal hmore

/-- The code that places the vertex, in its parts. -/
theorem Built.pieces_placeFragments (h : s.Built) (hcovers : Covers f s)
    (hc : c.Begun P.shared .reset f) (hhosts : c.Hosts P) (hcode : Leads s.placeFragments c p c')
    {final : Compilation α} (hfinal : final.ledger =
      c'.ledger.takeAll ((s.nodes.filter (·.info.block = .color)).flatMap (Node.vertexNeeds f))) :
    ∃ primary post : List (Node α × Program),
      primary.map Prod.fst = s.nodes.filter (·.info.block = .primary) ∧
      post.map Prod.fst = s.nodes.filter (·.info.block = .post) ∧
      p = initProgram P.shared c.sources c.targets ++ primary.flatMap Prod.snd ++
        [Statement.add P.shared.vertex.xyz P.shared.vertex.xyz P.shared.displacement.xyz] ++
          post.flatMap Prod.snd ∧
      (∀ piece ∈ primary ++ post, Emits P f final piece.1 piece.2) ∧ c'.Hosts P := by
  obtain ⟨primary, c₁, _, post, _, hprimary, hgrows, hpost, hgrows', rfl⟩ :=
    h.of_placeFragments hcovers hc hcode
  have hfirst := hhosts.enter hc .primary rfl
  have hbegun := (hc.enter .primary).grows hgrows
  have hsecond := (hfirst.grows hgrows).enter hbegun .post rfl
  have hadvances := advances_blockCode h.isCatalogue (hgrows.features.trans hc.features) hpost
  have hboth : final.ledger = c₁.ledger.takeAll
      ((s.nodes.filter (·.info.block = .post)).flatMap (Node.vertexNeeds f) ++
        (s.nodes.filter (·.info.block = .color)).flatMap (Node.vertexNeeds f)) := by
    rw [hfinal, hadvances.ledger, Ledger.takeAll_append]
  have hapart : ∀ need ∈ (s.nodes.filter (·.info.block = .post)).flatMap (Node.vertexNeeds f) ++
      (s.nodes.filter (·.info.block = .color)).flatMap (Node.vertexNeeds f),
      ∀ n ∈ s.nodes.filter (·.info.block = .primary), need.1.id ≠ n.id := by
    intro need hneed n hn
    rcases List.mem_append.mp hneed with hneed | hneed
    · exact h.id_ne_of_block Block.noConfusion hneed hn
    · exact h.id_ne_of_block Block.noConfusion hneed hn
  obtain ⟨firsts, hfirsts, rfl, hemits⟩ := h.exists_pieces hcovers (hc.enter .primary) rfl
    (by simp) hfirst hprimary hboth hapart
  obtain ⟨seconds, hseconds, rfl, hemits'⟩ := h.exists_pieces hcovers (hbegun.enter .post) rfl
    (by simp) hsecond hpost hfinal fun need hneed n hn =>
      h.id_ne_of_block Block.noConfusion hneed hn
  exact ⟨firsts, seconds, hfirsts, hseconds, rfl,
    fun piece hpiece => (List.mem_append.mp hpiece).elim (hemits piece) (hemits' piece),
    hsecond.grows hgrows'⟩

/-- The code of the color takes what its block needs. -/
theorem Built.ledger_colorFragments (h : s.Built) {shared : SharedRegisters} (hcovers : Covers f s)
    (hc : c.Begun shared .post f) (hcode : Leads s.colorFragments c p c') : c'.ledger =
      c.ledger.takeAll ((s.nodes.filter (·.info.block = .color)).flatMap (Node.vertexNeeds f)) := by
  obtain ⟨start, c₁, color, c₂, _, hstart, hbegun, -, hcolor, -, -, rfl⟩ :=
    h.of_colorFragments hcovers hc hcode
  have hinit := advances_initColor (hc.enter .colorInit) rfl hstart
  exact (hinit.trans (advances_blockCode h.isCatalogue hbegun.features hcolor)).ledger

/-- The code of the color moves nothing. -/
theorem Built.motion_colorFragments (h : s.Built) (hcovers : Covers f s)
    (hc : c.Begun P.shared .post f) (hhosts : c.Hosts P) (hnone : c.color = {})
    (hcode : Leads s.colorFragments c p c') [Field K] [LinearOrder K] [FloorRing K]
    {F : Functions K} {m : Machine K} (hhelper : m .vertexConstant P.helper = .helper) :
    P.motion (p.run F m) = P.motion m := by
  obtain ⟨-, -, hpass⟩ := h.extends_colorFragments hcovers hc hcode hnone
  obtain ⟨start, c₁, color, c₂, _, hstart, hbegun, hcolored, hcolor, -, rfl, rfl⟩ :=
    h.of_colorFragments hcovers hc hcode
  obtain ⟨hbeside, hlocal, hhosts'⟩ := hosts_initColor hstart (hhosts.enter hc .colorInit rfl)
  have hledger : c₂.ledger = c₂.ledger.takeAll ([] : List (Node α × Need)) := rfl
  obtain ⟨pieces, hnodes, rfl, hemits⟩ := h.exists_pieces hcovers (hbegun.enter .color) rfl
    (fun _ hanimation => ⟨(hcolored hanimation).multiplier, (hcolored hanimation).offset⟩)
    (hhosts'.enter hbegun .color rfl) hcolor hledger nofun
  exact h.motion_colors hbeside hlocal hemits hnodes hpass hhelper

/-- **The parts of vertex code**: with different whole temporaries as targets, the code of a
built set is assembled from code that does what the nodes do. -/
theorem Built.assembled (h : s.Built) (hsources : sourceNames.mapM Register.ofName = .ok sources)
    (htargets : targetNames.mapM Register.ofName = .ok targets)
    (hwhole : ∀ r ∈ targets, ∃ i, r = .temporary i) (hnodup : targets.Nodup)
    (hcode : Leads (s.vertexCode pass profile sourceNames targetNames) c p c₁) :
    ∃ (P : Layout) (q : Parts α), s.Assembled (s.featuresFor pass) c₁ P q ∧ p = q.code ∧
      q.sources = sources ∧ q.targets = targets ∧ P.helper = pass.taken.vertexConstants := by
  have hfeatures : s.settings.features ∪ pass.features = s.featuresFor pass := by
    rw [h.features_eq_raised, featuresFor]
  obtain ⟨_, c₀, hreset, hfragments⟩ := leads_bind.mp (leads_orAbandon.mp hcode)
  rw [hfeatures] at hreset
  obtain ⟨P, others, hhosts, hshared, hhelper, hsource, htarget, hcopied, htargeted⟩ :=
    hosts_of_reset hsources htargets hwhole hnodup hreset
  obtain ⟨_, _, shared, -, -, hopened⟩ := opened_of_reset hreset
  obtain rfl : P.shared = shared := Option.some.inj (hshared.symm.trans hopened.begun.shared)
  have hcovers := covers_featuresFor s pass
  generalize s.featuresFor pass = f at *
  have hc := hopened.begun
  simp only [vertexFragments, leads_bind, leads_pure] at hfragments
  obtain ⟨placed, c₂, hplace, colored, c₃, hcolors, rfl, rfl⟩ := hfragments
  obtain ⟨-, hbegun, hsame⟩ := h.extends_placeFragments hcovers hc hplace
  have hnone := hsame.trans hopened.color
  obtain ⟨-, hbegun', -⟩ := h.extends_colorFragments hcovers hbegun hcolors hnone
  obtain ⟨primary, post, hprimary, hpost, rfl, hemits, hhosts'⟩ := h.pieces_placeFragments hcovers
    hc hhosts hplace (h.ledger_colorFragments hcovers hbegun hcolors)
  refine ⟨P, ⟨P.shared, sources, targets, primary, post, colored⟩,
    ⟨rfl, hbegun'.shared, ?_, ⟨others, hsource⟩, htarget, ?_, hprimary, hpost, hemits,
      fun hhelper => h.motion_colorFragments hcovers hbegun hhosts' hnone hcolors hhelper⟩,
    ?_, rfl, rfl, hhelper⟩
  · rw [← hc.features]
    exact hhosts.velocity
  · exact hhosts.apart.of_free [] rfl
  · rw [hcopied, htargeted]
    simp [Parts.code, Parts.before, Parts.upTo, Parts.placing, Parts.behind]

end NodeSet

end ParticleShader
