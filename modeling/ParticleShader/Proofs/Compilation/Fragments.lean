import Mathlib.Data.List.Dedup
import ParticleShader.Compilation.Fragments
import ParticleShader.Compilation.Start
import ParticleShader.Proofs.Compilation.Pools

/-!
# The fixed part of a compilation

When a compilation can be begun, which registers it shares out, and when the code
around the nodes can be written. All of it is said of the state alone: which
temporaries are free and how many registers of the pools are left.
-/

namespace ParticleShader

variable {α : Type}

/-- The vertex temporaries among some registers. -/
def Register.temporaryIndices (rs : List Register) : List Nat :=
  rs.filterMap fun r => if r.kind = .vertexTemporary then some r.index else none

theorem Register.mem_temporaryIndices {rs : List Register} {index : Nat} :
    index ∈ temporaryIndices rs ↔ ∃ r ∈ rs, r.kind = .vertexTemporary ∧ r.index = index := by
  simp [temporaryIndices]

/-- The shared registers that lie in certain places: where the velocity is kept it
shares its temporary with time, and the life lies behind the displacement. -/
def SharedRegisters.ofPlaces (source vertex : Register) (directions : List Register)
    (helper displacement temporary : Nat) (velocity : Bool) : SharedRegisters :=
  let constant : Register := { kind := .vertexConstant, index := helper }
  let common : SharedRegisters :=
    { source, vertex, directions
      displacement := .temporary displacement
      velocity := none
      time := (Register.temporary temporary).x
      life := (Register.temporary temporary).y
      zero := constant.x, one := constant.y, two := constant.z }
  if velocity then
    { common with
      velocity := some (.temporary temporary)
      time := (Register.temporary temporary).w
      life := (Register.temporary displacement).w }
  else common

theorem SharedRegisters.isSome_velocity_ofPlaces (source vertex : Register)
    (directions : List Register) (helper displacement temporary : Nat) (velocity : Bool) :
    (ofPlaces source vertex directions helper displacement temporary velocity).velocity.isSome =
      velocity := by
  cases velocity <;> rfl

namespace Compilation

/-- The state with one more claim on each of some temporaries. -/
def claimingAll (c : Compilation α) (indices : List Nat) : Compilation α :=
  indices.foldl claiming c

theorem claimingAll_frame (c : Compilation α) (indices : List Nat) :
    c.claimingAll indices = { c with temporaries := (c.claimingAll indices).temporaries } := by
  unfold claimingAll
  induction indices generalizing c with
  | nil => rfl
  | cons index indices ih => exact ih (c.claiming index)

theorem length_temporaries_claimingAll (c : Compilation α) (indices : List Nat) :
    (c.claimingAll indices).temporaries.length = c.temporaries.length := by
  unfold claimingAll
  induction indices generalizing c with
  | nil => rfl
  | cons index indices ih =>
    rw [List.foldl_cons, ih]
    exact List.length_modify ..

theorem free_claimingAll (c : Compilation α) (indices : List Nat) :
    (c.claimingAll indices).free = c.free.filter (· ∉ indices) := by
  unfold claimingAll
  induction indices generalizing c with
  | nil => simp
  | cons index indices ih =>
    rw [List.foldl_cons, ih, free_claiming, List.filter_filter]
    refine List.filter_congr fun i _ => ?_
    simp [Bool.and_comm]

/-- If all temporaries were free, as many are left as are not claimed. -/
theorem length_free_claimingAll {c : Compilation α} {indices : List Nat} {count : Nat}
    (hfree : c.free = List.range count) (hindices : ∀ i ∈ indices, i < count) :
    (c.claimingAll indices).free.length + indices.dedup.length = count := by
  have hclaimed : ((List.range count).filter (· ∈ indices)).Perm indices.dedup := by
    refine (List.perm_ext_iff_of_nodup (List.nodup_range.filter _) indices.nodup_dedup).mpr
      fun i => ?_
    simp only [List.mem_filter, List.mem_range, decide_eq_true_eq, List.mem_dedup]
    exact ⟨And.right, fun hi => ⟨hindices i hi, hi⟩⟩
  rw [free_claimingAll, hfree, ← hclaimed.length_eq, Nat.add_comm]
  have hsplit := List.length_eq_length_filter_add (l := List.range count) (· ∈ indices)
  rw [List.length_range] at hsplit
  simp only [decide_not]
  exact hsplit.symm

end Compilation

namespace Compile

open Compilation

variable {c c' : Compilation α} {p : Program} {r : Register}

/-! ### The beginning -/

/-- A target can be claimed if it is no temporary or one that there is. -/
theorem leads_claim {u : Unit} : Leads (claim r) c u c' ↔
    (r.kind = .vertexTemporary → r.index < c.temporaries.length) ∧
      c' = c.claimingAll (Register.temporaryIndices [r]) := by
  unfold claim
  by_cases hr : r.kind = .vertexTemporary
  · rw [if_pos hr, leads_get_bind]
    by_cases hi : r.index < c.temporaries.length
    · have hindices : Register.temporaryIndices [r] = [r.index] := by
        simp [Register.temporaryIndices, hr]
      rw [if_pos hi, leads_modify, hindices]
      exact ⟨fun h => ⟨fun _ => hi, h.symm⟩, fun h => h.2.symm⟩
    · simp [hr, hi]
  · have hindices : Register.temporaryIndices [r] = [] := by
      simp [Register.temporaryIndices, hr]
    rw [if_neg hr, leads_pure, hindices]
    exact ⟨fun h => ⟨fun h' => absurd h' hr, h.2.symm⟩, fun h => ⟨rfl, h.2.symm⟩⟩

theorem leads_forM_claim {targets : List Register} {u : Unit} :
    Leads (targets.forM claim) c u c' ↔
      (∀ r ∈ targets, r.kind = .vertexTemporary → r.index < c.temporaries.length) ∧
        c' = c.claimingAll (Register.temporaryIndices targets) := by
  induction targets generalizing c with
  | nil => simp [Register.temporaryIndices, claimingAll, eq_comm]
  | cons r targets ih =>
    have hindices : Register.temporaryIndices (r :: targets) =
        Register.temporaryIndices [r] ++ Register.temporaryIndices targets := by
      unfold Register.temporaryIndices
      rw [← List.filterMap_append, List.singleton_append]
    have hstate : c.claimingAll (Register.temporaryIndices (r :: targets)) =
        (c.claimingAll (Register.temporaryIndices [r])).claimingAll
          (Register.temporaryIndices targets) := by
      rw [hindices, claimingAll, List.foldl_append]
      rfl
    simp only [List.forM_eq_forM, List.forM_cons, leads_bind, leads_claim]
    simp only [List.forM_eq_forM] at ih
    rw [hstate]
    constructor
    · rintro ⟨_, _, ⟨hr, rfl⟩, hrest⟩
      obtain ⟨htargets, rfl⟩ := ih.mp hrest
      rw [length_temporaries_claimingAll] at htargets
      exact ⟨List.forall_mem_cons.mpr ⟨hr, htargets⟩, rfl⟩
    · rintro ⟨htargets, rfl⟩
      obtain ⟨hr, htargets⟩ := List.forall_mem_cons.mp htargets
      refine ⟨(), _, ⟨hr, rfl⟩, ih.mpr ⟨?_, rfl⟩⟩
      rwa [length_temporaries_claimingAll]

/-- One register of a pool can be taken if there is one left. -/
theorem leads_allocateRegister {pool : Pool} : Leads (allocateRegister pool) c r c' ↔
    r = { kind := pool.kind, index := c.used.get pool } ∧ c.used.get pool + 1 ≤ c.limit pool ∧
      c' = { c with used := c.used.set pool (c.used.get pool + 1) } := by
  simp only [allocateRegister, allocateRegisters, leads_bind, leads_allocate, leads_pure]
  constructor
  · rintro ⟨_, _, ⟨rfl, hroom, rfl⟩, rfl, rfl⟩
    exact ⟨rfl, hroom, rfl⟩
  · rintro ⟨rfl, hroom, rfl⟩
    exact ⟨_, _, ⟨rfl, hroom, rfl⟩, rfl, rfl⟩

/-- The shared registers can be allocated if a constant is left and two temporaries
are free. -/
theorem leads_allocateShared {source vertex : Register} {directions : List Register}
    {shared : SharedRegisters} :
    Leads (allocateShared source vertex directions) c shared c' ↔
      c.used.vertexConstants + 1 ≤ c.limit .vertexConstant ∧
        ∃ displacement temporary rest, c.free = displacement :: temporary :: rest ∧
          shared = .ofPlaces source vertex directions c.used.vertexConstants displacement temporary
            c.features.velocity ∧
          c' = { (c.claiming displacement).claiming temporary with
            used := c.used.set .vertexConstant (c.used.vertexConstants + 1) } := by
  unfold allocateShared
  rw [leads_bind]
  simp only [leads_allocateRegister, leads_acquire_bind, leads_has_bind]
  constructor
  · rintro ⟨_, _, ⟨rfl, hroom, rfl⟩, displacement, rest, hfree, temporary, rest', htemporary, h⟩
    refine ⟨hroom, displacement, temporary, rest', ?_⟩
    obtain rfl := (free_claiming_head hfree).symm.trans htemporary
    refine ⟨hfree, ?_⟩
    cases hvelocity : c.features.velocity with
    | true =>
      simp only [claiming, hvelocity, if_true, leads_pure] at h
      exact ⟨h.1.symm, h.2.symm⟩
    | false =>
      simp only [claiming, hvelocity, Bool.false_eq_true, if_false, leads_pure] at h
      exact ⟨h.1.symm, h.2.symm⟩
  · rintro ⟨hroom, displacement, temporary, rest, hfree, rfl, rfl⟩
    refine ⟨_, _, ⟨rfl, hroom, rfl⟩, displacement, _, hfree, temporary, rest,
      free_claiming_head hfree, ?_⟩
    cases hvelocity : c.features.velocity with
    | true =>
      simp only [claiming, hvelocity, if_true, leads_pure]
      exact ⟨rfl, rfl⟩
    | false =>
      simp only [claiming, hvelocity, Bool.false_eq_true, if_false, leads_pure]
      exact ⟨rfl, rfl⟩

/-- The registers can be shared out if every source has its target, the targets can
be claimed, and the shared registers can be allocated after that. -/
theorem leads_shareRegisters {sources targets : List Register} {u : Unit} :
    Leads (shareRegisters sources targets) c u c' ↔
      ∃ source rest vertex directions shared c₁, sources = source :: rest ∧
        targets = vertex :: directions ∧ sources.length = targets.length ∧
        (∀ r ∈ targets, r.kind = .vertexTemporary → r.index < c.temporaries.length) ∧
        Leads (allocateShared source vertex directions)
          (c.claimingAll (Register.temporaryIndices targets)) shared c₁ ∧
        c' = { c₁ with shared := some shared, phase := .reset } := by
  unfold shareRegisters
  cases sources with
  | nil => simp
  | cons source rest =>
    cases targets with
    | nil => simp
    | cons vertex directions =>
      by_cases hlength : (source :: rest).length = (vertex :: directions).length
      · simp only [hlength, ne_eq, not_true_eq_false, if_false]
        simp only [leads_bind, leads_forM_claim, leads_modify]
        constructor
        · rintro ⟨_, _, ⟨hclaim, rfl⟩, shared, c₁, hshared, rfl⟩
          exact ⟨source, rest, vertex, directions, shared, c₁, rfl, rfl, trivial, hclaim, hshared,
            rfl⟩
        · rintro ⟨_, _, _, _, shared, c₁, ⟨⟩, ⟨⟩, -, hclaim, hshared, rfl⟩
          exact ⟨(), _, ⟨hclaim, rfl⟩, shared, c₁, hshared, rfl⟩
      · simp only [ne_eq, hlength, not_false_eq_true, if_true, leads_bind, leads_throw]
        constructor
        · rintro ⟨_, _, h, -⟩
          exact h.elim
        · rintro ⟨_, _, _, _, _, _, -, -, h, -⟩
          exact h.elim

/-- A compilation begins with the registers that the names are read as. -/
theorem leads_reset {profile : Profile} {pass : Pass} {features : Features}
    {sourceNames targetNames : List String} {u : Unit} :
    Leads (reset profile pass features sourceNames targetNames) c u c' ↔
      ∃ sources targets, sourceNames.mapM Register.ofName = .ok sources ∧
        targetNames.mapM Register.ofName = .ok targets ∧
        Leads (shareRegisters sources targets)
          { c.restart profile pass features with sources, targets } u c' := by
  simp only [reset, leads_bind, leads_modify, leads_ofOutcome]
  constructor
  · rintro ⟨_, _, rfl, sources, _, ⟨hsources, rfl⟩, _, _, rfl, targets, _, ⟨htargets, rfl⟩, _, _,
      rfl, h⟩
    exact ⟨sources, targets, hsources, htargets, h⟩
  · rintro ⟨sources, targets, hsources, htargets, h⟩
    exact ⟨(), _, rfl, sources, _, ⟨hsources, rfl⟩, (), _, rfl, targets, _, ⟨htargets, rfl⟩, (), _,
      rfl, h⟩

theorem free_restart (c : Compilation α) (profile : Profile) (pass : Pass) (features : Features) :
    (c.restart profile pass features).free = List.range profile.limits.vertexTemporaries := by
  refine List.Pairwise.eq_of_mem_iff (pairwise_free _) List.pairwise_lt_range fun i => ?_
  rw [mem_free, List.mem_range, Compilation.restart, List.getElem?_replicate]
  simp

/-! ### The code around the nodes -/

theorem leads_enter_bind {β : Type} {b : β} {phase : Phase} {f : Unit → Compile α β}
    (hphase : c.phase.next = some phase) :
    Leads (enter phase >>= f) c b c' ↔ Leads (f ()) { c with phase } b c' := by
  simp only [leads_bind, leads_enter]
  constructor
  · rintro ⟨_, _, ⟨-, rfl⟩, h⟩
    exact h
  · intro h
    exact ⟨(), _, ⟨hphase, rfl⟩, h⟩

/-- Copies the sources to the targets and clears the accumulators. -/
def initProgram (shared : SharedRegisters) (sources targets : List Register) : Program :=
  targets.zipWith (fun (target source : Register) => Statement.mov target source) sources ++
    Statement.mov shared.displacement.xyz shared.zero ::
      shared.velocity.toList.map fun (velocity : Register) =>
        Statement.mov velocity.xyz shared.zero

theorem leads_initCode : Leads initCode c p c' ↔
    ∃ shared, c.shared? = .ok shared ∧ p = initProgram shared c.sources c.targets ∧ c' = c := by
  unfold initCode
  rw [leads_shared_bind]
  refine exists_congr fun shared => and_congr_right fun _ => ?_
  rw [leads_get_bind]
  exact leads_result

theorem leads_combineCode : Leads combineCode c p c' ↔
    ∃ shared, c.shared? = .ok shared ∧
      p = [Statement.add shared.vertex.xyz shared.vertex.xyz shared.displacement.xyz] ∧ c' = c := by
  unfold combineCode
  rw [leads_shared_bind]
  exact exists_congr fun shared => and_congr_right fun _ => leads_result

/-- A color accumulator takes a temporary and a varying if it is wanted. -/
theorem leads_accumulator {wanted : Features → Bool} {start : Register}
    {putTarget putVarying : Register → ColorRegisters → ColorRegisters} :
    Leads (accumulator wanted start putTarget putVarying) c p c' ↔
      if wanted c.features then
        ∃ target rest, c.free = target :: rest ∧ c.used.varyings + 1 ≤ c.limit .varying ∧
          p = [Statement.mov (Register.temporary target) start] ∧
          c' = { c.claiming target with
            color := putVarying { kind := .varying, index := c.used.varyings }
              (putTarget (.temporary target) c.color)
            used := c.used.set .varying (c.used.varyings + 1) }
      else p = [] ∧ c' = c := by
  unfold accumulator
  rw [leads_has_bind]
  cases wanted c.features with
  | false => exact leads_result
  | true =>
    simp only [if_true, leads_acquire_bind, leads_modify_bind]
    refine exists_congr fun target => exists_congr fun rest => and_congr_right fun _ => ?_
    rw [leads_bind]
    simp only [leads_allocateRegister, leads_modify_bind, leads_pure]
    constructor
    · rintro ⟨_, _, ⟨rfl, hroom, rfl⟩, rfl, rfl⟩
      exact ⟨hroom, rfl, rfl⟩
    · rintro ⟨hroom, rfl, rfl⟩
      exact ⟨_, _, ⟨rfl, hroom, rfl⟩, rfl, rfl⟩

/-- The color accumulators, that of the multiplier first. -/
theorem leads_initColor : Leads initColor c p c' ↔
    ∃ shared, c.shared? = .ok shared ∧
      if c.features.fragmentAnimation then
        ∃ multiplier c₁ offset, Leads (multiplierStart shared) c multiplier c₁ ∧
          Leads (offsetStart shared) c₁ offset c' ∧ p = multiplier ++ offset
      else p = [] ∧ c' = c := by
  unfold initColor
  rw [leads_shared_bind]
  refine exists_congr fun shared => and_congr_right fun _ => ?_
  rw [leads_has_bind]
  cases c.features.fragmentAnimation with
  | false => exact leads_result
  | true =>
    simp only [if_true, leads_bind, leads_pure]
    constructor
    · rintro ⟨multiplier, c₁, hmultiplier, offset, _, hoffset, rfl, rfl⟩
      exact ⟨multiplier, c₁, offset, hmultiplier, hoffset, rfl⟩
    · rintro ⟨multiplier, c₁, offset, hmultiplier, hoffset, rfl⟩
      exact ⟨multiplier, c₁, hmultiplier, offset, c', hoffset, rfl, rfl⟩

/-- The registers of the texture code: the nodes work on the displacement. -/
theorem leads_setUv {sourceName targetName : String} {uv : UvRegisters} :
    Leads (setUv sourceName targetName) c uv c' ↔
      ∃ shared source target, c.shared? = .ok shared ∧ Register.ofName sourceName = .ok source ∧
        Register.ofName targetName = .ok target ∧
        uv = { source, working := shared.displacement, target } ∧
        c' = { c with uv := some uv } := by
  unfold setUv
  rw [leads_shared_bind]
  simp only [leads_bind, leads_ofOutcome, leads_modify, leads_pure]
  constructor
  · rintro ⟨shared, hshared, source, _, ⟨hsource, rfl⟩, target, _, ⟨htarget, rfl⟩, _, _, rfl, rfl,
      rfl⟩
    exact ⟨shared, source, target, hshared, hsource, htarget, rfl, rfl⟩
  · rintro ⟨shared, source, target, hshared, hsource, htarget, rfl, rfl⟩
    exact ⟨shared, hshared, source, c, ⟨hsource, rfl⟩, target, c, ⟨htarget, rfl⟩, ⟨⟩, _, rfl, rfl,
      rfl⟩

end Compile

end ParticleShader
