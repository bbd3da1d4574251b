import ParticleShader.NodeSet.Code
import ParticleShader.Proofs.Node.Costs
import ParticleShader.Proofs.NodeSet.Features
import ParticleShader.Proofs.Rational

/-!
# Admission

Exactly which sets fit into what a pass leaves of a profile. Every pool that is asked
for anything has to hold the sum of what the nodes take, and the temporaries have to
hold the targets, the two shared ones, and the most that is claimed at once while the
code of a node is written. **`exists_leads_vertexCode_iff`** says that vertex code is
written if and only if this is so and the registers are named properly.
-/

namespace ParticleShader

variable {α : Type}

/-- How many kinds of color are animated. -/
def Features.colorKinds (f : Features) : Nat :=
  if f.fragmentAnimation then f.colorMultiplier.toNat + f.colorOffset.toNat else 0

namespace Node

/-- The registers of the pools that the vertex code of some nodes takes. -/
def totalDemand (features : Features) (nodes : List (Node α)) : Demand :=
  nodes.foldr (fun n d => (n.behavior.demand features).plus d) .none

/-- The most temporaries that one of some nodes needs at once. -/
def mostScratch (features : Features) (nodes : List (Node α)) : Nat :=
  nodes.foldr (fun n most => max (n.behavior.scratch features) most) 0

theorem totalDemand_append (features : Features) (ms ns : List (Node α)) :
    totalDemand features (ms ++ ns) =
      (totalDemand features ms).plus (totalDemand features ns) := by
  induction ms with
  | nil => exact (Demand.none_plus _).symm
  | cons m ms ih =>
    show (m.behavior.demand features).plus (totalDemand features (ms ++ ns)) = _
    rw [ih, ← Demand.plus_assoc]
    rfl

theorem totalDemand_perm {features : Features} {ms ns : List (Node α)} (h : ms.Perm ns) :
    totalDemand features ms = totalDemand features ns := by
  induction h with
  | nil => rfl
  | cons n _ ih => exact congrArg (n.behavior.demand features).plus ih
  | swap m n ns =>
    funext pool
    exact Nat.add_left_comm ..
  | trans _ _ ih ih' => exact ih.trans ih'

/-- The demand of all nodes is that of the blocks together. -/
theorem totalDemand_blocks (features : Features) (nodes : List (Node α)) :
    (totalDemand features (nodes.filter (·.info.block = .primary))).plus
      ((totalDemand features (nodes.filter (·.info.block = .post))).plus
        (totalDemand features (nodes.filter (·.info.block = .color)))) =
      totalDemand features nodes := by
  induction nodes with
  | nil => rfl
  | cons n nodes ih =>
    show _ = (n.behavior.demand features).plus (totalDemand features nodes)
    rw [← ih]
    funext pool
    cases hblock : n.info.block <;>
      simp only [List.filter_cons, hblock, decide_true, decide_false, reduceCtorEq, if_true,
        Bool.false_eq_true, if_false, totalDemand, List.foldr_cons, Demand.plus] <;> omega

/-- The most of all nodes outside the color block is the most of the other blocks. -/
theorem mostScratch_blocks (features : Features) (nodes : List (Node α)) :
    max (mostScratch features (nodes.filter (·.info.block = .primary)))
        (mostScratch features (nodes.filter (·.info.block = .post))) =
      mostScratch features (nodes.filter (·.info.block ≠ .color)) := by
  induction nodes with
  | nil => rfl
  | cons n nodes ih =>
    cases hblock : n.info.block <;>
      simp only [List.filter_cons, hblock, decide_true, decide_false, reduceCtorEq, if_true,
        Bool.false_eq_true, if_false, mostScratch, List.foldr_cons, ne_eq, not_true_eq_false,
        not_false_eq_true] at ih ⊢ <;> omega

end Node

/-! ### The code between the nodes -/

namespace Compilation

variable {c c' : Compilation α} {shared : SharedRegisters} {phase next : Phase} {d : Demand}
  {f : Features}

/-- The registers are shared out, a phase is reached, and some features are on. -/
structure Begun (c : Compilation α) (registers : SharedRegisters) (reached : Phase)
    (on : Features) : Prop where
  /-- The phase. -/
  phase : c.phase = reached
  /-- The shared registers. -/
  shared : c.shared = some registers
  /-- The features. -/
  features : c.features = on
  /-- The velocity is accumulated exactly if some node needs it. -/
  velocity : registers.velocity.isSome = on.velocity

theorem Begun.grows (h : c.Begun shared phase f) (hgrows : c.Grows c' d) :
    c'.Begun shared phase f := by
  refine ⟨hgrows.phase.trans h.phase, ?_, hgrows.features.trans h.features, h.velocity⟩
  rw [hgrows.frame]
  exact h.shared

theorem Begun.enter (h : c.Begun shared phase f) (next : Phase) :
    ({ c with phase := next }).Begun shared next f :=
  ⟨rfl, h.shared, h.features, h.velocity⟩

theorem Begun.shared? (h : c.Begun shared phase f) (hactive : phase.isActive = true) :
    c.shared? = .ok shared := by
  unfold Compilation.shared? isActive
  rw [h.phase, hactive, h.shared]

end Compilation

namespace NodeSet

open Compile Compilation Node

variable {c : Compilation α} {s : NodeSet α} {shared : SharedRegisters} {d : Demand}
  {peak kept : Nat} {f : Features}

theorem spends_enter_bind {β : Type} {phase next : Phase} {g : Unit → Compile α β}
    {after : β → Compilation α → Prop} (hc : c.Begun shared phase f)
    (hnext : phase.next = some next)
    (h : Spends (g ()) { c with phase := next } d peak kept after) :
    Spends (enter next >>= g) c d peak kept after :=
  h.transfer (fun _ _ => leads_enter_bind (by rw [hc.phase, hnext])) rfl rfl rfl

theorem takes_initCode (hshared : c.shared? = .ok shared) : Takes initCode c .none 0 := by
  have hcode : ∀ p c', Leads initCode c p c' ↔
      c' = c ∧ p = initProgram shared c.sources c.targets := by
    simp [leads_initCode, hshared, and_comm]
  exact takes_of_stays hcode (by simp)

theorem takes_combineCode (hshared : c.shared? = .ok shared) : Takes combineCode c .none 0 := by
  have hcode : ∀ p c', Leads combineCode c p c' ↔ c' = c ∧
      p = [Statement.add shared.vertex.xyz shared.vertex.xyz shared.displacement.xyz] := by
    simp [leads_combineCode, hshared, and_comm]
  exact takes_of_stays hcode (by simp)

/-- The code of nodes costs what they cost together. -/
theorem takes_gather {nodes : List (Node α)} (hcatalogue : ∀ n ∈ nodes, n.behavior.IsCatalogue)
    (hready : ∀ n ∈ nodes, c.Ready n.behavior) :
    Takes (gather Node.vertexCode nodes) c (totalDemand c.features nodes)
      (mostScratch c.features nodes) := by
  induction nodes generalizing c with
  | nil => exact takes_pure []
  | cons n nodes ih =>
    rw [List.forall_mem_cons] at hcatalogue hready
    refine (takes_vertexCode hcatalogue.1 hready.1).bind fun first c' hgrows => ?_
    have hrest := ih (c := c') hcatalogue.2 fun m hm => (hready.2 m hm).grows hgrows
    rw [hgrows.features] at hrest
    have hboth := hrest.bind fun rest c'' _ => takes_pure (c := c'') (first ++ rest)
    rwa [Demand.plus_none, Nat.max_zero] at hboth

/-- What the allocation of color accumulators leaves alone. -/
def Recolored (c c' : Compilation α) : Prop :=
  c' = { c with color := c'.color, temporaries := c'.temporaries, used := c'.used }

theorem Recolored.trans {c' c'' : Compilation α} (h : Recolored c c') (h' : Recolored c' c'') :
    Recolored c c'' := by
  unfold Recolored
  rw [h', h]

theorem spends_accumulator {wanted : Features → Bool} {start : Register}
    {putTarget putVarying : Register → ColorRegisters → ColorRegisters} :
    Spends (accumulator wanted start putTarget putVarying) c
      (.of .varying (wanted c.features).toNat) (wanted c.features).toNat (wanted c.features).toNat
      fun _ c' => Recolored c c' ∧ if wanted c.features then
        ∃ target varying, c'.color = putVarying varying (putTarget target c.color)
        else c'.color = c.color := by
  cases hwanted : wanted c.features with
  | false =>
    have hcode : ∀ p c', Leads (accumulator wanted start putTarget putVarying) c p c' ↔
        c' = c ∧ p = [] := by
      simp [leads_accumulator, hwanted, and_comm]
    have htakes := takes_of_stays hcode (by simp : (∃ p : Program, p = []) ↔ 0 ≤ c.free.length)
    rw [Bool.toNat_false, Demand.of_zero]
    refine ⟨htakes.leads_iff, htakes.spent, fun h => ?_⟩
    obtain ⟨rfl, -⟩ := (hcode _ _).mp h
    exact ⟨rfl, rfl⟩
  | true =>
    have hcode : ∀ p c', Leads (accumulator wanted start putTarget putVarying) c p c' ↔ _ :=
      fun p c' => by rw [leads_accumulator, if_pos hwanted]
    refine ⟨?_, fun h => ?_, fun h => ?_⟩
    · simp only [hcode, Bool.toNat_true, room_of Nat.one_pos]
      cases c.free <;> simp [Pool.Counts.get]
    · obtain ⟨target, rest, hfree, -, rfl, rfl⟩ := (hcode _ _).mp h
      refine ⟨rfl, get_set_of c.used .varying 1, ?_, ?_⟩
      · rw [hfree]
        exact free_claiming_head hfree
      · simp [hfree]
    · obtain ⟨target, rest, hfree, -, rfl, rfl⟩ := (hcode _ _).mp h
      exact ⟨rfl, _, _, rfl⟩

/-- Both color accumulators are there as far as nodes need them. -/
structure Colored (f : Features) (c : Compilation α) : Prop where
  /-- The accumulator for the multiplier. -/
  multiplier : f.colorMultiplier = true → c.color.multiplier.isSome = true
  /-- The accumulator for the offset. -/
  offset : f.colorOffset = true → c.color.offset.isSome = true

theorem spends_colorStart : Spends (do
      let multiplier ← multiplierStart shared
      let offset ← offsetStart shared
      return multiplier ++ offset) c
    (.of .varying (c.features.colorMultiplier.toNat + c.features.colorOffset.toNat))
    (c.features.colorMultiplier.toNat + c.features.colorOffset.toNat)
    (c.features.colorMultiplier.toNat + c.features.colorOffset.toNat)
    fun _ c' => Recolored c c' ∧ Colored c.features c' := by
  have hoffset : ∀ (multiplier : Program) (c₁ : Compilation α), Recolored c c₁ →
      (c.features.colorMultiplier = true → c₁.color.multiplier.isSome = true) →
      Spends (do
        let offset ← offsetStart shared
        return multiplier ++ offset) c₁ (.of .varying c.features.colorOffset.toNat)
        c.features.colorOffset.toNat c.features.colorOffset.toNat
        fun _ c' => Recolored c c' ∧ Colored c.features c' := by
    intro multiplier c₁ hrecolored hmultiplier
    have hfeatures : c₁.features = c.features := by rw [hrecolored]
    have hstart : Spends (offsetStart shared) c₁ _ _ _ _ := spends_accumulator
    have hcolored : ∀ c₂ : Compilation α, (if c₁.features.colorOffset then ∃ target varying,
        c₂.color = { c₁.color with offset := some target, offsetVarying := some varying }
        else c₂.color = c₁.color) → Colored c.features c₂ := by
      intro c₂ hcolor
      refine ⟨fun h => ?_, fun h => ?_⟩
      · have hsame : c₂.color.multiplier = c₁.color.multiplier := by
          split at hcolor
          · obtain ⟨_, _, hcolor⟩ := hcolor
            rw [hcolor]
          · rw [hcolor]
        rw [hsame]
        exact hmultiplier h
      · rw [← hfeatures] at h
        obtain ⟨_, _, hcolor⟩ := (if_pos h).mp hcolor
        rw [hcolor]
        rfl
    have hcode := hstart.bind fun offset c₂ _ hc₂ =>
      (spends_pure (multiplier ++ offset)).mono fun _ c' hc' =>
        (hc'.2 ▸ ⟨hrecolored.trans hc₂.1, hcolored c₂ hc₂.2⟩ :
          Recolored c c' ∧ Colored c.features c')
    rwa [hfeatures, Demand.plus_none, Nat.add_zero, Nat.max_self] at hcode
  have hstart : Spends (multiplierStart shared) c _ _ _ _ := spends_accumulator
  have hboth := hstart.bind fun multiplier c₁ _ hc₁ => hoffset multiplier c₁ hc₁.1 fun h => by
    obtain ⟨_, _, hcolor⟩ := (if_pos h).mp hc₁.2
    rw [hcolor]
    rfl
  rwa [Demand.of_plus_of, Nat.max_eq_right (Nat.le_add_right _ _)] at hboth

theorem Recolored.begun {c' : Compilation α} {phase : Phase} (h : Recolored c c')
    (hc : c.Begun shared phase f) : c'.Begun shared phase f := by
  refine ⟨?_, ?_, ?_, hc.velocity⟩ <;> rw [h]
  · exact hc.phase
  · exact hc.shared
  · exact hc.features

theorem spends_initColor {phase : Phase} (hc : c.Begun shared phase f)
    (hactive : phase.isActive = true) :
    Spends initColor c (.of .varying f.colorKinds) f.colorKinds f.colorKinds
      fun _ c' => Recolored c c' ∧ (f.fragmentAnimation = true → Colored f c') := by
  have hshared := hc.shared? hactive
  obtain rfl := hc.features
  unfold Features.colorKinds
  cases hanimation : c.features.fragmentAnimation with
  | false =>
    have hcode : ∀ p c', Leads initColor c p c' ↔ c' = c ∧ p = [] := by
      simp [leads_initColor, hshared, hanimation, and_comm]
    have htakes := takes_of_stays hcode (by simp : (∃ p : Program, p = []) ↔ 0 ≤ c.free.length)
    rw [if_neg Bool.false_ne_true, Demand.of_zero]
    refine ⟨htakes.leads_iff, htakes.spent, fun h => ?_⟩
    obtain ⟨rfl, -⟩ := (hcode _ _).mp h
    exact ⟨rfl, fun h => absurd h Bool.false_ne_true⟩
  | true =>
    rw [if_pos rfl]
    have hcode : ∀ p c', Leads initColor c p c' ↔ Leads (do
        let multiplier ← multiplierStart shared
        let offset ← offsetStart shared
        return multiplier ++ offset) c p c' := by
      intro p c'
      unfold initColor
      rw [leads_shared_bind]
      simp only [hshared, Except.ok.injEq, leads_has_bind, hanimation, if_true]
      exact exists_eq_left'
    exact (spends_colorStart.mono fun _ _ h => ⟨h.1, fun _ => h.2⟩).congr hcode

/-- Some features are at least those that the nodes of a set raise. -/
structure Covers (f : Features) (s : NodeSet α) : Prop where
  /-- The accumulated velocity. -/
  velocity : ∀ n ∈ s.nodes, n.behavior.raised.velocity = true → f.velocity = true
  /-- The accumulated multiplier. -/
  multiplier : ∀ n ∈ s.nodes, n.behavior.raised.colorMultiplier = true → f.colorMultiplier = true
  /-- The accumulated offset. -/
  offset : ∀ n ∈ s.nodes, n.behavior.raised.colorOffset = true → f.colorOffset = true

/-- Only nodes of the color block raise the features of colors. -/
theorem raised_of_block {n : Node α} (hcatalogue : n.behavior.IsCatalogue)
    (hblock : n.info.block ≠ .color) :
    n.behavior.raised.colorMultiplier = false ∧ n.behavior.raised.colorOffset = false := by
  unfold Node.info NodeInfo.block at hblock
  cases hbehavior : n.behavior with
  | color animation => simp [hbehavior, Behavior.priority, Block.ofPriority, Block.colorPriority,
      Block.postPriority] at hblock
  | custom node => simp [hbehavior, Behavior.IsCatalogue] at hcatalogue
  | _ => exact ⟨rfl, rfl⟩

/-- Everything that the nodes of a block rely on has been shared out. -/
theorem Covers.ready {block : Block} {phase : Phase} (hcovers : Covers f s)
    (hcatalogue : ∀ n ∈ s.nodes, n.behavior.IsCatalogue) (hc : c.Begun shared phase f)
    (hactive : phase.isActive = true)
    (hcolor : block = .color → f.fragmentAnimation = true → Colored f c) :
    ∀ n ∈ s.nodes.filter (·.info.block = block), c.Ready n.behavior := by
  have hshared : ∃ shared, c.shared? = .ok shared ∧ shared.velocity.isSome = c.features.velocity :=
    ⟨shared, hc.shared? hactive, by rw [hc.features, hc.velocity]⟩
  intro n hn
  obtain ⟨hn, hblock⟩ := List.mem_filter.mp hn
  have hblock : n.info.block = block := of_decide_eq_true hblock
  by_cases hkind : block = .color
  · refine ⟨hshared, ?_, ?_, ?_⟩ <;> rw [hc.features]
    · exact hcovers.velocity n hn
    · intro hanimation h
      exact (hcolor hkind hanimation).multiplier (hcovers.multiplier n hn h)
    · intro hanimation h
      exact (hcolor hkind hanimation).offset (hcovers.offset n hn h)
  · obtain ⟨hmultiplier, hoffset⟩ := raised_of_block (hcatalogue n hn) (hblock ▸ hkind)
    refine ⟨hshared, ?_, fun _ h => ?_, fun _ h => ?_⟩
    · rw [hc.features]
      exact hcovers.velocity n hn
    · exact absurd (hmultiplier ▸ h) Bool.false_ne_true
    · exact absurd (hoffset ▸ h) Bool.false_ne_true

/-- The code of a block costs what its nodes cost together, where the color
accumulators are there for the color block. -/
theorem takes_blockCode {block : Block} {phase : Phase}
    (hcatalogue : ∀ n ∈ s.nodes, n.behavior.IsCatalogue) (hcovers : Covers f s)
    (hc : c.Begun shared phase f) (hactive : phase.isActive = true)
    (hcolor : block = .color → f.fragmentAnimation = true → Colored f c) :
    Takes (s.blockCode block) c (totalDemand f (s.nodes.filter (·.info.block = block)))
      (mostScratch f (s.nodes.filter (·.info.block = block))) := by
  rw [← hc.features]
  exact takes_gather (fun n hn => hcatalogue n (List.mem_filter.mp hn).1)
    (hcovers.ready hcatalogue hc hactive hcolor)

theorem spends_placeFragments (hc : c.Begun shared .reset f)
    (hcatalogue : ∀ n ∈ s.nodes, n.behavior.IsCatalogue) (hcovers : Covers f s) :
    Spends s.placeFragments c
      ((totalDemand f (s.nodes.filter (·.info.block = .primary))).plus
        (totalDemand f (s.nodes.filter (·.info.block = .post))))
      (mostScratch f (s.nodes.filter (·.info.block ≠ .color))) 0
      fun _ c' => c'.Begun shared .post f := by
  unfold placeFragments
  apply Spends.of_eq
  · apply spends_enter_bind hc rfl
    have hinit := hc.enter .init
    apply Spends.bind (takes_initCode (hinit.shared? rfl))
    intro start c₁ _ hgrows
    have hprimary := (hinit.grows hgrows).enter .primary
    apply spends_enter_bind (hinit.grows hgrows) rfl
    apply Spends.bind (takes_blockCode hcatalogue hcovers hprimary rfl (by simp))
    intro primary c₂ _ hgrows
    have hcombine := (hprimary.grows hgrows).enter .combine
    apply spends_enter_bind (hprimary.grows hgrows) rfl
    apply Spends.bind (takes_combineCode (hcombine.shared? rfl))
    intro placed c₃ _ hgrows
    have hpost := (hcombine.grows hgrows).enter .post
    apply spends_enter_bind (hcombine.grows hgrows) rfl
    apply Spends.bind (takes_blockCode hcatalogue hcovers hpost rfl (by simp))
    intro post c₄ _ hgrows
    exact (spends_pure _).mono fun _ _ h => h.2 ▸ hpost.grows hgrows
  · rw [Demand.none_plus, Demand.none_plus, Demand.plus_none]
  · rw [← mostScratch_blocks]
    omega
  · rfl

theorem spends_colorFragments (hc : c.Begun shared .post f)
    (hcatalogue : ∀ n ∈ s.nodes, n.behavior.IsCatalogue) (hcovers : Covers f s) :
    Spends s.colorFragments c
      ((Demand.of .varying f.colorKinds).plus
        (totalDemand f (s.nodes.filter (·.info.block = .color))))
      (f.colorKinds + mostScratch f (s.nodes.filter (·.info.block = .color))) f.colorKinds
      fun _ _ => True := by
  unfold colorFragments
  apply Spends.of_eq
  · have hstart := hc.enter .colorInit
    apply spends_enter_bind hc rfl
    apply Spends.bind (spends_initColor hstart rfl)
    intro start c₁ _ ⟨hrecolored, hcolored⟩
    have hcolor := (hrecolored.begun hstart).enter .color
    apply spends_enter_bind (hrecolored.begun hstart) rfl
    apply Spends.bind (takes_blockCode hcatalogue hcovers hcolor rfl
      fun _ hanimation => ⟨(hcolored hanimation).multiplier, (hcolored hanimation).offset⟩)
    intro color c₂ _ hgrows
    apply spends_enter_bind (hcolor.grows hgrows) rfl
    exact ((spends_pure _).mono fun _ _ _ => trivial).congr fun _ _ => leads_get_bind
  · rw [Demand.plus_none]
  · omega
  · rfl

/-- **The cost of the vertex program** after the registers are shared out. -/
theorem spends_vertexFragments (hc : c.Begun shared .reset f)
    (hcatalogue : ∀ n ∈ s.nodes, n.behavior.IsCatalogue) (hcovers : Covers f s) :
    Spends s.vertexFragments c
      ((totalDemand f s.nodes).plus (.of .varying f.colorKinds))
      (max (mostScratch f (s.nodes.filter (·.info.block ≠ .color)))
        (f.colorKinds + mostScratch f (s.nodes.filter (·.info.block = .color))))
      f.colorKinds fun _ _ => True := by
  unfold vertexFragments
  apply Spends.of_eq
  · apply Spends.bind (spends_placeFragments hc hcatalogue hcovers)
    intro placed c₁ _ hc₁
    apply Spends.bind (spends_colorFragments hc₁ hcatalogue hcovers)
    intro colored c₂ _ _
    exact (spends_pure _).mono fun _ _ _ => trivial
  · rw [← totalDemand_blocks f s.nodes, Demand.plus_none]
    funext pool
    simp only [Demand.plus]
    omega
  · omega
  · omega

/-! ### The whole compilation -/

/-- The features that are on when a set is compiled for a pass. -/
def featuresFor (s : NodeSet α) (pass : Pass) : Features := s.raised ∪ pass.features

/-- The registers of the pools that the vertex code of a set takes in a pass: a
constant for the helper, an attribute and a constant for time once a node was added,
what the added nodes take, and a varying for every kind of color. -/
def demand (s : NodeSet α) (pass : Pass) : Demand :=
  (Demand.of .vertexConstant 1).plus
    ((if s.timeActive then (Demand.of .vertexAttribute 1).plus (.of .vertexConstant 1)
      else .none).plus
      ((totalDemand (s.featuresFor pass) s.added).plus
        (.of .varying (s.featuresFor pass).colorKinds)))

/-- The most temporaries that are claimed at once beside the targets: the two shared
ones, and either what a node before the color block needs, or the color accumulators
and what a node of the color block needs. -/
def peakTemporaries (s : NodeSet α) (pass : Pass) : Nat :=
  2 + max (mostScratch (s.featuresFor pass) (s.nodes.filter (·.info.block ≠ .color)))
    ((s.featuresFor pass).colorKinds +
      mostScratch (s.featuresFor pass) (s.nodes.filter (·.info.block = .color)))

/-- A set can be compiled for a pass under a profile, from sources to targets. -/
structure Admitted (s : NodeSet α) (pass : Pass) (profile : Profile)
    (sources targets : List Register) : Prop where
  /-- There is something to copy. -/
  nonempty : sources ≠ []
  /-- Every source has its target. -/
  paired : sources.length = targets.length
  /-- The temporaries among the targets are there. -/
  claimable : ∀ r ∈ targets, r.kind = .vertexTemporary → r.index < profile.limits.vertexTemporaries
  /-- Every pool that is asked for anything holds it beside what the pass uses. -/
  pools : ∀ pool, s.demand pass pool = 0 ∨
    pass.taken.get pool + s.demand pass pool ≤ profile.limits.of pool.kind
  /-- The temporaries hold the targets and the peak. -/
  temporaries : (Register.temporaryIndices targets).dedup.length + s.peakTemporaries pass ≤
    profile.limits.vertexTemporaries

variable [Scalar α]

theorem Built.demand_eq (h : s.Built) (pass : Pass) :
    s.demand pass = (Demand.of .vertexConstant 1).plus
      ((totalDemand (s.featuresFor pass) s.nodes).plus
        (.of .varying (s.featuresFor pass).colorKinds)) := by
  rw [totalDemand_perm h.nodes_perm, totalDemand_append, Demand.plus_assoc]
  unfold demand timeNodes
  split <;> rfl

omit [Scalar α] in
theorem covers_featuresFor (s : NodeSet α) (pass : Pass) : Covers (s.featuresFor pass) s := by
  have hunion : ∀ switch : Features → Bool, (∀ a b, switch (a ∪ b) = (switch a || switch b)) →
      switch {} = false → ∀ n ∈ s.nodes, switch n.behavior.raised = true →
        switch (s.featuresFor pass) = true := by
    intro switch hunion hempty n hn hraised
    rw [featuresFor, hunion, raised_of_mem s switch hempty hunion hn hraised, Bool.true_or]
  exact ⟨hunion (·.velocity) (fun _ _ => rfl) rfl, hunion (·.colorMultiplier) (fun _ _ => rfl) rfl,
    hunion (·.colorOffset) (fun _ _ => rfl) rfl⟩

omit [Scalar α] in
theorem spends_allocateShared {source vertex : Register} {directions : List Register} :
    Spends (allocateShared source vertex directions) c (.of .vertexConstant 1) 2 2
      fun shared c' => c'.features = c.features ∧ shared.velocity.isSome = c.features.velocity := by
  refine ⟨?_, fun hb => ?_, fun hb => ?_⟩
  · simp only [leads_allocateShared, room_of Nat.one_pos]
    rcases c.free with _ | ⟨_, _ | ⟨_, _⟩⟩ <;> simp [Pool.Counts.get]
  · obtain ⟨-, displacement, temporary, rest, hfree, -, rfl⟩ := leads_allocateShared.mp hb
    refine ⟨rfl, get_set_of c.used .vertexConstant 1, ?_, ?_⟩
    · rw [hfree]
      exact free_claiming_head (free_claiming_head hfree)
    · simp [hfree]
  · obtain ⟨-, displacement, temporary, rest, hfree, rfl, rfl⟩ := leads_allocateShared.mp hb
    exact ⟨rfl, SharedRegisters.isSome_velocity_ofPlaces ..⟩

/-- From the claimed targets on, a compilation costs the whole demand and peak. -/
theorem Built.spends_begin (h : s.Built) (pass : Pass) (source vertex : Register)
    (directions : List Register) (hfeatures : c.features = s.featuresFor pass) :
    Spends (do
      let shared ← allocateShared source vertex directions
      modify fun c => { c with shared := some shared, phase := .reset }
      s.vertexFragments) c (s.demand pass) (s.peakTemporaries pass)
      (2 + (s.featuresFor pass).colorKinds) fun _ _ => True := by
  apply Spends.of_eq
  · apply Spends.bind spends_allocateShared
    intro shared c₁ _ ⟨hfeatures₁, hvelocity⟩
    rw [hfeatures] at hfeatures₁ hvelocity
    have hbegun : ({ c₁ with shared := some shared, phase := .reset }).Begun shared .reset
      (s.featuresFor pass) := ⟨rfl, rfl, hfeatures₁, hvelocity⟩
    exact (spends_vertexFragments hbegun h.isCatalogue (covers_featuresFor s pass)).transfer
      (fun _ _ => leads_modify_bind) rfl rfl rfl
  · rw [h.demand_eq]
  · unfold peakTemporaries
    omega
  · rfl

/-- From a state in which nothing is claimed, sharing out the registers and writing
the program succeeds exactly if the set is admitted. -/
theorem Built.exists_leads_fragments_iff (h : s.Built) {pass : Pass} {profile : Profile}
    {sources targets : List Register} (hprofile : c.profile = profile)
    (hused : c.used = pass.taken) (hfeatures : c.features = s.featuresFor pass)
    (hfree : c.free = List.range profile.limits.vertexTemporaries)
    (hlength : c.temporaries.length = profile.limits.vertexTemporaries) :
    (∃ p c', Leads (do
      shareRegisters sources targets
      s.vertexFragments) c p c') ↔ s.Admitted pass profile sources targets := by
  have hfeatures' : (c.claimingAll (Register.temporaryIndices targets)).features =
      s.featuresFor pass := by rw [claimingAll_frame, ← hfeatures]
  have hroom : (c.claimingAll (Register.temporaryIndices targets)).Room (s.demand pass) ↔
      ∀ pool, s.demand pass pool = 0 ∨
        pass.taken.get pool + s.demand pass pool ≤ profile.limits.of pool.kind := by
    rw [claimingAll_frame]
    unfold Room Compilation.limit
    rw [hused, hprofile]
  have hcount : (∀ r ∈ targets, r.kind = .vertexTemporary →
      r.index < profile.limits.vertexTemporaries) →
      (c.claimingAll (Register.temporaryIndices targets)).free.length +
        (Register.temporaryIndices targets).dedup.length = profile.limits.vertexTemporaries := by
    intro hclaimable
    refine length_free_claimingAll hfree fun i hi => ?_
    obtain ⟨r, hr, hkind, rfl⟩ := Register.mem_temporaryIndices.mp hi
    exact hclaimable r hr hkind
  constructor
  · rintro ⟨p, c', hcode⟩
    obtain ⟨u, c₁, hshare, hfragments⟩ := leads_bind.mp hcode
    obtain ⟨source, rest, vertex, directions, shared, c₂, rfl, rfl, hpaired, hclaimable, hshared,
      rfl⟩ := leads_shareRegisters.mp hshare
    rw [hlength] at hclaimable
    obtain ⟨hpools, hpeak⟩ :=
      (h.spends_begin pass source vertex directions hfeatures').leads_iff.mp ⟨p, c', leads_bind.mpr
        ⟨shared, c₂, hshared, leads_modify_bind.mpr hfragments⟩⟩
    have hcount := hcount hclaimable
    exact ⟨List.cons_ne_nil _ _, hpaired, hclaimable, hroom.mp hpools, by omega⟩
  · rintro ⟨hnonempty, hpaired, hclaimable, hpools, htemporaries⟩
    obtain ⟨source, rest, rfl⟩ := List.exists_cons_of_ne_nil hnonempty
    obtain ⟨vertex, directions, rfl⟩ := List.exists_cons_of_length_eq_add_one hpaired.symm
    have hcount := hcount hclaimable
    obtain ⟨p, c', hcode⟩ := (h.spends_begin pass source vertex directions hfeatures').leads_iff.mpr
      ⟨hroom.mpr hpools, by omega⟩
    obtain ⟨shared, c₂, hshared, hfragments⟩ := leads_bind.mp hcode
    rw [← hlength] at hclaimable
    exact ⟨p, c', leads_bind.mpr ⟨(), _, leads_shareRegisters.mpr ⟨source, rest, vertex, directions,
      shared, c₂, rfl, rfl, hpaired, hclaimable, hshared, rfl⟩, leads_modify_bind.mp hfragments⟩⟩

/-- **Admission**: a built set can be compiled exactly if it is admitted, whatever was
compiled before. -/
theorem Built.exists_leads_vertexCode_iff (h : s.Built) (pass : Pass) (profile : Profile)
    (sourceNames targetNames : List String) (c : Compilation α) :
    (∃ p c', Leads (s.vertexCode pass profile sourceNames targetNames) c p c') ↔
      ∃ sources targets, sourceNames.mapM Register.ofName = .ok sources ∧
        targetNames.mapM Register.ofName = .ok targets ∧
        s.Admitted pass profile sources targets := by
  have hbegins : ∀ sources targets : List Register, (∃ p c', Leads (do
      shareRegisters sources targets
      s.vertexFragments)
      { c.restart profile pass (s.settings.features ∪ pass.features) with sources, targets } p c') ↔
      s.Admitted pass profile sources targets := fun sources targets =>
    h.exists_leads_fragments_iff rfl rfl (by rw [h.features_eq_raised]; rfl)
      (free_restart c profile pass (s.settings.features ∪ pass.features)) List.length_replicate
  simp only [← hbegins, vertexCode, leads_orAbandon, leads_bind, leads_reset]
  constructor
  · rintro ⟨p, c', u, c₁, ⟨sources, targets, hsources, htargets, hshare⟩, hcode⟩
    exact ⟨sources, targets, hsources, htargets, p, c', u, c₁, hshare, hcode⟩
  · rintro ⟨sources, targets, hsources, htargets, p, c', u, c₁, hshare, hcode⟩
    exact ⟨p, c', u, c₁, ⟨sources, targets, hsources, htargets, hshare⟩, hcode⟩

/-- Particles that move, turn along their velocity and change their color. -/
def headed : NodeSet Rat where
  settings := { features := { velocity := true, colorMultiplier := true } }
  nodes :=
    [{ behavior := .time {}, id := 0 },
     { behavior := .velocity (.perParticle .baked), id := 1, offset := 4 },
     { behavior := .rotateToHeading, id := 2 },
     { behavior := .color ⟨true, false, none, .perParticle .baked⟩, id := 3, offset := 7 }]
  stride := 15

/-- A pass that animates the color and uses some attributes itself. -/
def busyPass (attributes : Nat) : Pass where
  taken := { vertexAttributes := attributes }
  fragmentAnimation := true

/-- All attributes and all temporaries are used, and one more attribute is too much. -/
theorem headed_admission :
    (∃ p c', Leads (headed.vertexCode (busyPass 4) .baseline ["va0"] ["vt0"])
      { profile := .standard } p c') ∧
    ¬ ∃ p c', Leads (headed.vertexCode (busyPass 5) .baseline ["va0"] ["vt0"])
      { profile := .standard } p c' := by
  have hbuilt : headed.Built :=
    .add (b := .color ⟨true, false, none, .perParticle .baked⟩)
      (.add (b := .rotateToHeading)
        (.add (b := .velocity (.perParticle .baked)) (.empty {}) (by exact trivial) rfl)
        (by exact trivial) rfl)
      (by exact trivial) rfl
  have hsources : ["va0"].mapM Register.ofName = .ok [{ kind := .vertexAttribute, index := 0 }] :=
    rfl
  have htargets : ["vt0"].mapM Register.ofName = .ok [{ kind := .vertexTemporary, index := 0 }] :=
    rfl
  constructor
  · refine (hbuilt.exists_leads_vertexCode_iff _ _ _ _ _).mpr ⟨_, _, hsources, htargets, ?_⟩
    refine ⟨by decide, rfl, by decide, fun pool => ?_, by decide⟩
    cases pool <;> decide
  · intro h
    obtain ⟨_, _, -, -, hadmitted⟩ := (hbuilt.exists_leads_vertexCode_iff _ _ _ _ _).mp h
    exact absurd (hadmitted.pools .vertexAttribute) (by decide)

end NodeSet

end ParticleShader
