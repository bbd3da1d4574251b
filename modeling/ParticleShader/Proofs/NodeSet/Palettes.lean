import ParticleShader.Proofs.Node.Shading
import ParticleShader.Proofs.Node.Sparing
import ParticleShader.Proofs.NodeSet.Collisions

/-!
# From the palette to the varyings

A compilation begins with time and life in two temporaries (`mixes_of_reset`). The colors add an
accumulator for each part that some node animates, which starts from one or from zero and is
copied to a varying in the end. Between the two every node of the block joins its color, so that
the varyings carry the product of the factors and the sum of the summands:
**`Built.carries_colorFragments`**. A step is `Behavior.tints_colorCode`, the run over the block is
`tints_gather`. Without animated color all of that is no code and takes nothing.
-/

namespace ParticleShader

open Compile Compilation

variable {α K : Type}

/-! ### The beginning -/

namespace Compilation

theorem notMem_free_claiming (c : Compilation α) (index : Nat) :
    index ∉ (c.claiming index).free := by
  simp [free_claiming]

theorem mem_free_of_claiming {c : Compilation α} {index i : Nat}
    (h : i ∈ (c.claiming index).free) : i ∈ c.free := by
  rw [free_claiming] at h
  exact (List.mem_filter.mp h).1

end Compilation

section

variable {c c' : Compilation α} {f : Features} {pass : Pass} {profile : Profile}
  {sourceNames targetNames : List String} {shared : SharedRegisters} {P : Palette}

/-- The palette that a compilation begins with: no color is accumulated yet. -/
def Palette.clocked (clocks : List Nat) : Palette := ⟨clocks, none, none⟩

theorem Compilation.Mixes.enter {reached : Phase} (h : c.Mixes shared P)
    (hc : c.Begun shared reached f) (phase : Phase) (hactive : phase.isActive = true) :
    ({ c with phase } : Compilation α).Mixes shared P :=
  { h with shared := (hc.enter phase).shared? hactive }

/-- **The beginning**: time and life are kept in two temporaries that nobody else claims, and the
shared constant is the one behind those of the pass. -/
theorem mixes_of_reset {u : Unit}
    (hcode : Leads (reset profile pass f sourceNames targetNames) c u c') :
    ∃ targets displacement temporary source vertex directions,
      targetNames.mapM Register.ofName = .ok targets ∧ c'.targets = targets ∧
      targets = vertex :: directions ∧
      c'.shared = some (.ofPlaces source vertex directions pass.taken.vertexConstants displacement
        temporary f.velocity) ∧
      c'.Mixes (.ofPlaces source vertex directions pass.taken.vertexConstants displacement
        temporary f.velocity) (.clocked [displacement, temporary]) := by
  obtain ⟨sources, targets, -, htargets, hshare⟩ := leads_reset.mp hcode
  obtain ⟨source, others, vertex, directions, shared, c₁, rfl, rfl, -, -, hshared, rfl⟩ :=
    leads_shareRegisters.mp hshare
  obtain ⟨-, displacement, temporary, rest, hfree, rfl, rfl⟩ := leads_allocateShared.mp hshared
  have hframe := claimingAll_frame ({ c.restart profile pass f with
    sources := source :: others, targets := vertex :: directions } : Compilation α)
    (Register.temporaryIndices (vertex :: directions))
  generalize Compilation.claimingAll _ _ = c₂ at *
  obtain ⟨hused, hfeatures, hcolor, htargeted⟩ : c₂.used = pass.taken ∧ c₂.features = f ∧
      c₂.color = {} ∧ c₂.targets = vertex :: directions := by
    rw [hframe]
    exact ⟨rfl, rfl, rfl, rfl⟩
  rw [hused, hfeatures]
  refine ⟨_, displacement, temporary, source, vertex, directions, htargets, htargeted, rfl, rfl,
    rfl, hcolor, ?_, ?_, fun i hi hunclaimed => ?_, nofun, nofun, nofun⟩
  · cases f.velocity <;> exact ⟨temporary, by simp [Palette.clocked], _, rfl⟩
  · cases f.velocity
    · exact ⟨temporary, by simp [Palette.clocked], _, rfl⟩
    · exact ⟨displacement, by simp [Palette.clocked], _, rfl⟩
  · simp only [Palette.clocked, List.mem_cons, List.not_mem_nil, or_false] at hi
    rcases hi with rfl | rfl
    · exact notMem_free_claiming _ _ (mem_free_of_claiming hunclaimed)
    · exact notMem_free_claiming _ _ hunclaimed

end

/-! ### The accumulators -/

namespace Palette

variable {shared : SharedRegisters} {P : Palette}

/-- The accumulators begin: the multiplier from one, the offset from zero. -/
def start (shared : SharedRegisters) (P : Palette) : Program :=
  P.multiplier.toList.map (fun place => Statement.mov (Register.temporary place.1) shared.one) ++
    P.offset.toList.map fun place => Statement.mov (Register.temporary place.1) shared.zero

/-- The accumulators are copied to the varyings that carry them. -/
def pass (P : Palette) : Program :=
  P.multiplier.toList.map (fun place =>
    Statement.mov ({ kind := .varying, index := place.2 } : Register)
      (Register.temporary place.1)) ++
    P.offset.toList.map fun place =>
      Statement.mov ({ kind := .varying, index := place.2 } : Register)
        (Register.temporary place.1)

theorem colorPassCode_eq {c : Compilation α} (h : c.color = P.registers) :
    c.colorPassCode = P.pass := by
  unfold colorPassCode handOver
  rw [h]
  obtain ⟨clocks, multiplier, offset⟩ := P
  cases multiplier <;> cases offset <;> rfl

end Palette

section

variable {c c' : Compilation α} {p : Program} {shared : SharedRegisters} {clocks : List Nat}
  {multiplier : Option (Nat × Nat)} {f : Features}

/-- **A step**: the multiplier is accumulated in a temporary of its own. -/
theorem mixes_multiplierStart (h : c.Mixes shared (.clocked clocks))
    (hcode : Leads (multiplierStart shared) c p c') :
    ∃ multiplier : Option (Nat × Nat), c'.Mixes shared ⟨clocks, multiplier, none⟩ ∧
      multiplier.isSome = c.features.colorMultiplier ∧ c'.features = c.features ∧
      (∀ place ∈ multiplier, place.2 < c'.used.varyings) ∧
      p = multiplier.toList.map fun place =>
        Statement.mov (Register.temporary place.1) shared.one := by
  unfold multiplierStart at hcode
  rw [leads_accumulator] at hcode
  split at hcode
  · rename_i hwanted
    obtain ⟨target, rest, hfree, -, rfl, rfl⟩ := hcode
    have htarget : target ∈ c.free := hfree ▸ List.mem_cons_self
    refine ⟨some (target, c.used.varyings), ⟨h.shared, ?_, h.time, h.life,
      fun i hi hunclaimed => h.clocks i hi (mem_free_of_claiming hunclaimed), ?_, nofun, nofun⟩,
      hwanted.symm, rfl, ?_, rfl⟩
    · rw [h.color]
      rfl
    · rintro _ ⟨⟩
      exact ⟨notMem_free_claiming c target, fun hi => h.clocks target hi htarget⟩
    · rintro _ ⟨⟩
      exact Nat.lt_succ_self _
  · rename_i hwanted
    obtain ⟨rfl, rfl⟩ := hcode
    exact ⟨none, h, (Bool.eq_false_iff.mpr hwanted).symm, rfl, nofun, rfl⟩

/-- **A step**: so is the offset. -/
theorem mixes_offsetStart (h : c.Mixes shared ⟨clocks, multiplier, none⟩)
    (hbelow : ∀ place ∈ multiplier, place.2 < c.used.varyings)
    (hcode : Leads (offsetStart shared) c p c') :
    ∃ offset : Option (Nat × Nat), c'.Mixes shared ⟨clocks, multiplier, offset⟩ ∧
      offset.isSome = c.features.colorOffset ∧
      p = offset.toList.map fun place =>
        Statement.mov (Register.temporary place.1) shared.zero := by
  unfold offsetStart at hcode
  rw [leads_accumulator] at hcode
  split at hcode
  · rename_i hwanted
    obtain ⟨target, rest, hfree, -, rfl, rfl⟩ := hcode
    have htarget : target ∈ c.free := hfree ▸ List.mem_cons_self
    refine ⟨some (target, c.used.varyings), ⟨h.shared, ?_, h.time, h.life,
      fun i hi hunclaimed => h.clocks i hi (mem_free_of_claiming hunclaimed),
      fun place hplace => ⟨fun hunclaimed => ?_, (h.multiplier place hplace).2⟩, ?_,
      fun place hplace => ?_⟩, hwanted.symm, rfl⟩
    · rw [h.color]
      rfl
    · exact (h.multiplier place hplace).1 (mem_free_of_claiming hunclaimed)
    · rintro _ ⟨⟩
      exact ⟨notMem_free_claiming c target, fun hi => h.clocks target hi htarget⟩
    · rintro _ ⟨⟩
      refine ⟨fun hsame => (h.multiplier place hplace).1 ?_, (hbelow place hplace).ne⟩
      rw [hsame]
      exact htarget
  · rename_i hwanted
    obtain ⟨rfl, rfl⟩ := hcode
    exact ⟨none, h, (Bool.eq_false_iff.mpr hwanted).symm, rfl⟩

/-- **The palette of the colors**: there is an accumulator for each part that some node animates,
and all of them begin. -/
theorem mixes_initColor (h : c.Mixes shared (.clocked clocks))
    (hanimation : c.features.fragmentAnimation = true) (hcode : Leads initColor c p c') :
    ∃ P : Palette, c'.Mixes shared P ∧ P.multiplier.isSome = c.features.colorMultiplier ∧
      P.offset.isSome = c.features.colorOffset ∧ p = P.start shared := by
  obtain ⟨shared', hshared, hinit⟩ := leads_initColor.mp hcode
  obtain rfl := Except.ok.inj (h.shared.symm.trans hshared)
  rw [if_pos hanimation] at hinit
  obtain ⟨first, c₁, second, hfirst, hsecond, rfl⟩ := hinit
  obtain ⟨multiplier, h₁, hmultiplier, hfeatures, hbelow, rfl⟩ := mixes_multiplierStart h hfirst
  obtain ⟨offset, h₂, hoffset, rfl⟩ := mixes_offsetStart h₁ hbelow hsecond
  exact ⟨⟨clocks, multiplier, offset⟩, h₂, hmultiplier, hfeatures ▸ hoffset, rfl⟩

/-! ### What they start from and where they go -/

variable {P : Palette} [Field K] [LinearOrder K] [FloorRing K] {F : Functions K} {m : Machine K}
  {helper : Nat}

omit [LinearOrder K] [FloorRing K] in
theorem spares_start {i : Nat} (hmultiplier : ∀ place ∈ P.multiplier, place.1 ≠ i)
    (hoffset : ∀ place ∈ P.offset, place.1 ≠ i) :
    (P.start shared).Spares .vertexTemporary i := by
  obtain ⟨clocks, multiplier, offset⟩ := P
  cases multiplier <;> cases offset <;> simp_all [Palette.start]

/-- The multiplier starts from the second component of the shared constant, the offset from the
first one, and the clocks are left alone. -/
theorem run_start (h : c.Mixes shared P)
    (hone : shared.one = ({ kind := .vertexConstant, index := helper } : Register).y)
    (hzero : shared.zero = ({ kind := .vertexConstant, index := helper } : Register).x) :
    (P.start shared).Local ∧ (∀ i ∈ P.clocks, (P.start shared).Spares .vertexTemporary i) ∧
    (∀ place ∈ P.multiplier, (P.start shared).run F m .vertexTemporary place.1 =
      fun _ => m .vertexConstant helper .y) ∧
    ∀ place ∈ P.offset, (P.start shared).run F m .vertexTemporary place.1 =
      fun _ => m .vertexConstant helper .x := by
  refine ⟨?_, fun i hi => spares_start (fun place hplace hsame => ?_) fun place hplace hsame => ?_,
    fun place hplace => ?_, fun place hplace => ?_⟩
  · obtain ⟨clocks, multiplier, offset⟩ := P
    cases multiplier <;> cases offset <;> simp [Palette.start]
  · exact (h.multiplier place hplace).2 (hsame ▸ hi)
  · exact (h.offset place hplace).2 (hsame ▸ hi)
  · have hapart := h.apart place hplace
    obtain ⟨clocks, multiplier, offset⟩ := P
    obtain rfl : multiplier = some place := hplace
    funext k
    have hall : k = .x ∨ k = .y ∨ k = .z ∨ k = .w := by cases k <;> simp
    cases offset with
    | none => simp [Palette.start, hone, hall]
    | some other =>
      have hne := (hapart other rfl).1
      simp [Palette.start, hone, hall, hne]
  · obtain ⟨clocks, multiplier, offset⟩ := P
    obtain rfl : offset = some place := hplace
    funext k
    have hall : k = .x ∨ k = .y ∨ k = .z ∨ k = .w := by cases k <;> simp
    cases multiplier <;> simp [Palette.start, hzero, hall]

@[simp] theorem Register.operand_varying (index : Nat) :
    ({ kind := .varying, index } : Register).operand =
      ({ kind := .varying, index } : Register).select [] := rfl

/-- In the end the varyings hold what the accumulators hold, and no temporary is written. -/
theorem run_pass (hapart : ∀ place ∈ P.multiplier, ∀ other ∈ P.offset, place.2 ≠ other.2) :
    (∀ place ∈ P.multiplier, P.pass.run F m .varying place.2 = m .vertexTemporary place.1) ∧
    (∀ place ∈ P.offset, P.pass.run F m .varying place.2 = m .vertexTemporary place.1) ∧
    ∀ i, P.pass.Spares .vertexTemporary i := by
  obtain ⟨clocks, multiplier, offset⟩ := P
  refine ⟨?_, ?_, fun i => ?_⟩
  · rintro place ⟨⟩
    funext k
    have hall : k = .x ∨ k = .y ∨ k = .z ∨ k = .w := by cases k <;> simp
    cases offset with
    | none => simp [Palette.pass, hall]
    | some other =>
      have hne := hapart place rfl other rfl
      simp [Palette.pass, hall, hne]
  · rintro place ⟨⟩
    funext k
    have hall : k = .x ∨ k = .y ∨ k = .z ∨ k = .w := by cases k <;> simp
    cases multiplier <;> simp [Palette.pass, hall]
  · cases multiplier <;> cases offset <;> simp [Palette.pass]

end

/-! ### The block of the colors -/

/-- What is read from a clock is the same behind code that leaves the clocks alone. -/
theorem read_clock [Field K] [LinearOrder K] [FloorRing K] {F : Functions K} {m : Machine K}
    {clocks : List Nat} {p : Program} (h : ∀ i ∈ clocks, p.Spares .vertexTemporary i) {r : Register}
    (hr : ∃ i ∈ clocks, ∃ k, r = (Register.temporary i).only k) :
    (p.run F m).read r .x = m.read r .x := by
  obtain ⟨i, hi, k, rfl⟩ := hr
  show p.run F m .vertexTemporary i _ = m .vertexTemporary i _
  rw [Program.run_of_spares (h i hi)]

/-- The nodes of the last block are colors. -/
theorem Node.exists_animation {n : Node α} (hcatalogue : n.behavior.IsCatalogue)
    (hblock : n.info.block = .color) : ∃ animation, n.behavior = .color animation := by
  unfold Node.info NodeInfo.block at hblock
  cases hbehavior : n.behavior with
  | color animation => exact ⟨animation, rfl⟩
  | custom node => simp [hbehavior, Behavior.IsCatalogue] at hcatalogue
  | _ => simp [hbehavior, Behavior.priority, Block.ofPriority, Block.colorPriority,
      Block.postPriority] at hblock

namespace Compilation

/-- What other nodes take does not change what is remembered of a color. -/
theorem rows_eq {c c' : Compilation α} {needs : List (Node α × Need)} {n : Node α} {m : Machine K}
    (hledger : c'.ledger = c.ledger.takeAll needs) (h : ∀ need ∈ needs, need.1.id ≠ n.id) :
    c'.rows m n = c.rows m n := by
  funext slot
  have hindex : c'.index? n.id slot = c.index? n.id slot :=
    Ledger.index?_takeAll hledger fun hmem => by
      obtain ⟨need, hneed, hkey⟩ := List.mem_map.mp hmem
      exact h need hneed (congrArg Prod.fst hkey)
  unfold rows
  rw [hindex]

end Compilation

namespace NodeSet

section

variable {c c' : Compilation α} {nodes : List (Node α)} {p : Program} {shared : SharedRegisters}
  {P : Palette} [Field K] [LinearOrder K] [FloorRing K] {F : Functions K} {m : Machine K}

/-- **A run through the colors**: behind the code of all of them their factors are multiplied and
their summands added, all at the same time and life. -/
theorem tints_gather (hcatalogue : ∀ n ∈ nodes, n.behavior.IsCatalogue)
    (hblock : ∀ n ∈ nodes, n.info.block = .color) (hnodup : (nodes.map (·.id)).Nodup)
    (hready : ∀ n ∈ nodes, c.Ready n.behavior) (hmixes : c.Mixes shared P)
    (hanimation : c.features.fragmentAnimation = true)
    (hcode : Leads (gather Node.vertexCode nodes) c p c') :
    Tints F P p m
      (nodes.map fun n => n.behavior.factor F (c'.rows m n) (m.read shared.time .x)
        (m.read shared.life .x)).prod
      (nodes.map fun n => n.behavior.summand F (c'.rows m n) (m.read shared.time .x)
        (m.read shared.life .x)).sum := by
  induction nodes generalizing c p m with
  | nil =>
    obtain ⟨rfl, -⟩ := leads_result.mp hcode
    exact tints_nil
  | cons n nodes ih =>
    rw [List.forall_mem_cons] at hcatalogue hblock hready
    rw [List.map_cons, List.nodup_cons] at hnodup
    obtain ⟨first, c₁, d, others, hfirst, hgrows, hready₁, hothers, -, rfl⟩ :=
      of_gather hcatalogue.1 hcatalogue.2 hready.1 hready.2 hcode
    obtain ⟨animation, hbehavior⟩ := Node.exists_animation hcatalogue.1 hblock.1
    have hcolor : Leads (Behavior.colorCode animation n.info) c first c₁ := by
      unfold Node.vertexCode at hfirst
      rwa [hbehavior] at hfirst
    have htints := Behavior.tints_colorCode (F := F) (m := m) hbehavior hmixes hanimation hcolor
    have hrecords :=
      records_gather (fun n hn => Node.records_vertexCode (hcatalogue.2 n hn)) hothers
    have hrows : c'.rows m n = c₁.rows m n := rows_eq hrecords.ledger fun need hneed hid => by
      obtain ⟨other, hother, hneed⟩ := List.mem_flatMap.mp hneed
      obtain ⟨_, -, rfl⟩ := List.mem_map.mp hneed
      exact hnodup.1 (List.mem_map.mpr ⟨other, hother, hid⟩)
    have hrest := ih (m := first.run F m) hcatalogue.2 hblock.2 hnodup.2 hready₁
      (hmixes.grows hgrows) (hgrows.features ▸ hanimation) hothers
    have hkept : ∀ other, c'.rows (first.run F m) other = c'.rows m other :=
      fun other => funext fun slot => rows_run htints.writes
    simp only [hkept, read_clock htints.clocks hmixes.time,
      read_clock htints.clocks hmixes.life] at hrest
    rw [List.map_cons, List.map_cons, List.prod_cons, List.sum_cons, hrows, mul_comm, add_comm]
    exact htints.append hrest

end

/-- The varyings of a palette carry what the colors of some nodes come to: the product of their
factors and the sum of their summands, from what the accumulators start from. -/
structure Carried [Field K] (F : Functions K) (P : Palette) (nodes : List (Node α))
    (rows : Node α → Nat → Value K) (time life : K) (start : Value K) (m : Machine K) : Prop where
  /-- The multiplier. -/
  multiplier : ∀ place ∈ P.multiplier, m .varying place.2 =
    (nodes.map fun n => n.behavior.factor F (rows n) time life).prod * fun _ => start .y
  /-- The offset. -/
  offset : ∀ place ∈ P.offset, m .varying place.2 =
    (nodes.map fun n => n.behavior.summand F (rows n) time life).sum + fun _ => start .x

variable [Scalar α] {s : NodeSet α} {c c' : Compilation α} {p : Program}
  {shared : SharedRegisters} {clocks : List Nat} {f : Features} {helper : Nat}

/-- **The colors of a set**: their code leaves time and life alone and carries what the colors
come to, from what the constant holds that all nodes share. -/
theorem Built.carries_colorFragments (h : s.Built) (hcovers : Covers f s)
    (hc : c.Begun shared .post f) (hmixes : c.Mixes shared (.clocked clocks))
    (hone : shared.one = ({ kind := .vertexConstant, index := helper } : Register).y)
    (hzero : shared.zero = ({ kind := .vertexConstant, index := helper } : Register).x)
    (hanimation : f.fragmentAnimation = true) (hcode : Leads s.colorFragments c p c') :
    ∃ P : Palette, c'.color = P.registers ∧ P.multiplier.isSome = f.colorMultiplier ∧
      P.offset.isSome = f.colorOffset ∧
      ∀ {K : Type} [Field K] [LinearOrder K] [FloorRing K] (F : Functions K) (m : Machine K),
        (p.run F m).read shared.time .x = m.read shared.time .x ∧
        (p.run F m).read shared.life .x = m.read shared.life .x ∧
        Carried F P (s.nodes.filter (·.info.block = .color)) (c'.rows m) (m.read shared.time .x)
          (m.read shared.life .x) (m .vertexConstant helper) (p.run F m) := by
  obtain ⟨start, c₁, color, c₂, d, hstart, hbegun, hcolored, hblock, hgrows, rfl, rfl⟩ :=
    h.of_colorFragments hcovers hc hcode
  have hfirst := hmixes.enter hc .colorInit rfl
  obtain ⟨P, hP, hmultiplier, hoffset, rfl⟩ :=
    mixes_initColor hfirst (hc.features ▸ hanimation) hstart
  have hsecond := hP.enter hbegun .color rfl
  have hcolor : c₂.color = P.registers := (hsecond.grows hgrows).color
  have hapart : ∀ place ∈ P.multiplier, ∀ other ∈ P.offset, place.2 ≠ other.2 :=
    fun place hplace other hother => (hP.apart place hplace other hother).2
  refine ⟨P, hcolor, hmultiplier.trans (congrArg _ hc.features),
    hoffset.trans (congrArg _ hc.features), fun {K} _ _ _ F m => ?_⟩
  -- the accumulators start, the block runs, and what it leaves is handed over
  obtain ⟨hlocal, hclocks, hones, hzeros⟩ := run_start (F := F) (m := m) hP hone hzero
  have htints := tints_gather (F := F) (m := (P.start shared).run F m)
    (fun n hn => h.isCatalogue n (List.mem_filter.mp hn).1)
    (fun n hn => of_decide_eq_true (List.mem_filter.mp hn).2)
    (h.nodup_ids.sublist (List.filter_sublist.map _))
    (hcovers.ready h.isCatalogue (hbegun.enter .color) rfl fun _ hanimation =>
      ⟨(hcolored hanimation).multiplier, (hcolored hanimation).offset⟩)
    hsecond (hbegun.features ▸ hanimation) hblock
  obtain ⟨hpass, hpass', hspares⟩ := run_pass (F := F) hapart
    (m := color.run F ((P.start shared).run F m))
  have hkept : ∀ n, c₂.rows ((P.start shared).run F m) n = c₂.rows m n :=
    fun n => funext fun slot => rows_run hlocal
  simp only [hkept, read_clock hclocks hP.time, read_clock hclocks hP.life] at htints
  have hall : ∀ i ∈ P.clocks, Program.Spares (P.start shared ++ color ++ P.pass)
      .vertexTemporary i := fun i hi => by
    simp only [Program.spares_append]
    exact ⟨⟨hclocks i hi, htints.clocks i hi⟩, hspares i⟩
  rw [Palette.colorPassCode_eq hcolor]
  refine ⟨read_clock hall hP.time, read_clock hall hP.life, ⟨fun place hplace => ?_,
    fun place hplace => ?_⟩⟩
  · rw [Program.run_append, Program.run_append, hpass place hplace, htints.multiplier place hplace,
      hones place hplace]
    rfl
  · rw [Program.run_append, Program.run_append, hpass' place hplace, htints.offset place hplace,
      hzeros place hplace]
    rfl

/-! ### Without animated color -/

omit [Scalar α] in
theorem gather_unanimated {nodes : List (Node α)} (hcatalogue : ∀ n ∈ nodes, n.behavior.IsCatalogue)
    (hblock : ∀ n ∈ nodes, n.info.block = .color)
    (hanimation : c.features.fragmentAnimation = false)
    (hcode : Leads (gather Node.vertexCode nodes) c p c') : p = [] ∧ c' = c := by
  induction nodes generalizing p with
  | nil => exact leads_result.mp hcode
  | cons n nodes ih =>
    rw [List.forall_mem_cons] at hcatalogue hblock
    obtain ⟨animation, hbehavior⟩ := Node.exists_animation hcatalogue.1 hblock.1
    simp only [gather, leads_bind, leads_pure] at hcode
    obtain ⟨first, c₁, hfirst, others, c₂, hothers, rfl, rfl⟩ := hcode
    unfold Node.vertexCode at hfirst
    simp only [hbehavior, Behavior.leads_colorCode, hanimation, Bool.false_eq_true, if_false] at hfirst
    obtain ⟨rfl, rfl⟩ := hfirst
    exact ih hcatalogue.2 hblock.2 hothers

/-- **Without animated color** the colors are no code and take nothing. -/
theorem Built.colorFragments_unanimated (h : s.Built) (hcovers : Covers f s)
    (hc : c.Begun shared .post f) (hnone : c.color = {}) (hanimation : f.fragmentAnimation = false)
    (hcode : Leads s.colorFragments c p c') : p = [] ∧ c' = { c with phase := .colorCombine } := by
  obtain ⟨start, c₁, color, c₂, d, hstart, hbegun, -, hblock, -, rfl, rfl⟩ :=
    h.of_colorFragments hcovers hc hcode
  obtain ⟨_, -, hinit⟩ := leads_initColor.mp hstart
  rw [if_neg (by rw [hc.features, hanimation]; exact Bool.false_ne_true)] at hinit
  obtain ⟨rfl, rfl⟩ := hinit
  obtain ⟨rfl, rfl⟩ := gather_unanimated
    (fun n hn => h.isCatalogue n (List.mem_filter.mp hn).1)
    (fun n hn => of_decide_eq_true (List.mem_filter.mp hn).2)
    (by rw [hbegun.features, hanimation]) hblock
  refine ⟨?_, rfl⟩
  unfold colorPassCode
  rw [hnone]
  rfl

end NodeSet

end ParticleShader
