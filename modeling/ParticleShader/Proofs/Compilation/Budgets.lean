import ParticleShader.Proofs.Compilation.Fragments
import ParticleShader.Proofs.Node.Closure

/-!
# Larger budgets

A step that succeeds under one budget does the same under a larger one. The two runs differ
in the limits and in the number of temporaries: the larger budget has some more behind those
of the smaller one, which nobody claims (`widen`). What is handed out depends on neither, since
the pools are handed out in order and the first free temporary is the same in both runs; only
whether there is something left depends on the budget.

A step is `Neutral` if it takes no notice of the budget at all, so that it fails in the same
way as well, and it `Scales` if it succeeds in the same way wherever the limits are larger.
-/

namespace ParticleShader

variable {α β γ : Type}

namespace Compilation

/-- The state with the limits of another profile and more temporaries that are free. -/
def widen (q : Profile) (more : Nat) (c : Compilation α) : Compilation α :=
  { c with profile := q, temporaries := c.temporaries ++ List.replicate more 0 }

/-- The same budget once more changes nothing. -/
theorem widen_self (c : Compilation α) : c.widen c.profile 0 = c := by
  unfold widen
  rw [List.replicate_zero, List.append_nil]

/-- What is free stays free and comes first. -/
theorem free_widen (q : Profile) (more : Nat) (c : Compilation α) :
    ∃ rest, (c.widen q more).free = c.free ++ rest :=
  ⟨_, List.findIdxs_append⟩

/-- A change of one count that leaves counts of zero alone behind the end changes none of the
additional ones. -/
theorem modify_append_replicate {f : Nat → Nat} {counts : List Nat} {index : Nat} (more : Nat)
    (h : index < counts.length ∨ f 0 = 0) :
    (counts ++ List.replicate more 0).modify index f =
      counts.modify index f ++ List.replicate more 0 := by
  refine List.ext_getElem? fun i => ?_
  rw [List.getElem?_modify, List.getElem?_append, List.getElem?_append, List.length_modify,
    List.getElem?_modify]
  by_cases hi : i < counts.length
  · rw [if_pos hi, if_pos hi]
  · rw [if_neg hi, if_neg hi, List.getElem?_replicate]
    split
    · rename_i hindex
      split
      · exact congrArg some (h.resolve_left (by omega))
      · rfl
    · exact id_map _

theorem claiming_widen {q : Profile} {more index : Nat} {c : Compilation α}
    (h : index < c.temporaries.length) :
    (c.widen q more).claiming index = (c.claiming index).widen q more := by
  unfold claiming widen
  rw [modify_append_replicate more (.inl h)]

/-- Nobody claims one of the additional temporaries, so giving up a claim on it changes nothing. -/
theorem releasing_widen (q : Profile) (more index : Nat) (c : Compilation α) :
    (c.widen q more).releasing index = (c.releasing index).widen q more := by
  unfold releasing widen
  rw [modify_append_replicate more (.inr rfl)]

end Compilation

namespace Compile

open Compilation

/-! ### Steps that take no notice of the budget -/

/-- A result, with another budget in its state. -/
def widened (q : Profile) (more : Nat) :
    EStateM.Result Fault (Compilation α) β → EStateM.Result Fault (Compilation α) β
  | .ok b c => .ok b (c.widen q more)
  | .error fault c => .error fault (c.widen q more)

/-- A step that does the same under any budget. -/
def Neutral (x : Compile α β) : Prop :=
  ∀ q more c, x.run (c.widen q more) = widened q more (x.run c)

theorem neutral_pure (b : β) : Neutral (pure b : Compile α β) := fun _ _ _ => rfl

theorem neutral_throw (fault : Fault) : Neutral (throw fault : Compile α β) := fun _ _ _ => rfl

theorem neutral_bind {x : Compile α β} {f : β → Compile α γ} (hx : Neutral x)
    (hf : ∀ b, Neutral (f b)) : Neutral (x >>= f) := by
  intro q more c
  rw [EStateM.run_bind, EStateM.run_bind, hx]
  cases x.run c with
  | ok b c' => exact hf b q more c'
  | error fault c' => rfl

theorem neutral_get_bind {g : Compilation α → Compile α β}
    (hg : ∀ q more c, g (c.widen q more) = g c) (h : ∀ c, Neutral (g c)) :
    Neutral (get >>= g) := by
  intro q more c
  show (g (c.widen q more)).run (c.widen q more) = widened q more ((g c).run c)
  rw [hg]
  exact h c q more c

theorem neutral_modify {f : Compilation α → Compilation α}
    (hf : ∀ q more c, f (c.widen q more) = (f c).widen q more) :
    Neutral (modify f : Compile α Unit) := by
  intro q more c
  show EStateM.Result.ok () (f (c.widen q more)) = .ok () ((f c).widen q more)
  rw [hf]

theorem neutral_ofOutcome (outcome : Except Fault β) :
    Neutral (ofOutcome outcome : Compile α β) := by
  cases outcome with
  | ok b => exact neutral_pure b
  | error fault => exact neutral_throw fault

/-- What nodes do that take no registers takes no notice of the budget. -/
theorem sequential_neutral : Sequential fun β (x : Compile α β) => Neutral x where
  pure := neutral_pure
  throw := neutral_throw
  bind := neutral_bind
  view _ := neutral_get_bind (fun _ _ _ => rfl) fun _ => neutral_pure _
  setVertexConstant _ _ := neutral_get_bind (fun _ _ _ => rfl) fun _ =>
    neutral_bind (neutral_ofOutcome _) fun _ => neutral_modify fun _ _ _ => rfl

theorem neutral_enter (phase : Phase) : Neutral (enter phase : Compile α Unit) := by
  refine neutral_get_bind (fun _ _ _ => rfl) fun c => ?_
  split
  · exact neutral_throw _
  · split
    · exact neutral_modify fun _ _ _ => rfl
    · exact neutral_throw _

theorem neutral_setIndex (node : NodeId) (slot index : Nat) :
    Neutral (setIndex node slot index : Compile α Unit) := neutral_modify fun _ _ _ => rfl

theorem neutral_release (r : Register) : Neutral (release r : Compile α Unit) := by
  refine neutral_modify fun q more c => ?_
  split
  · exact releasing_widen q more r.index c
  · rfl

variable [Scalar α] in
theorem neutral_finish : Neutral (finish : Compile α Unit) :=
  neutral_bind (neutral_enter _) fun _ => neutral_bind (neutral_modify fun _ _ _ => rfl) fun _ =>
    neutral_bind sequential_neutral.shared fun _ => sequential_neutral.setVertexConstant _ _

/-! ### Steps that succeed under a larger budget as well -/

/-- A step that leads to the same under a larger budget. -/
def Scales (p q : Profile) (more : Nat) (x : Compile α β) : Prop :=
  ∀ ⦃c b c'⦄, c.profile = p → Leads x c b c' →
    Leads x (c.widen q more) b (c'.widen q more) ∧ c'.profile = p

variable {p q : Profile} {more : Nat}

/-- A step that takes no notice of the budget leaves the profile as it is: otherwise it would
make a difference whether the profile is set to what it is. -/
theorem Neutral.scales {x : Compile α β} (h : Neutral x) : Scales p q more x := by
  rintro c b c' rfl hx
  have hrun : x.run c = .ok b c' := hx
  have hself := h c.profile 0 c
  rw [widen_self, hrun] at hself
  injection hself with _ hstate
  have hprofile : c'.profile = (c'.widen c.profile 0).profile :=
    congrArg Compilation.profile hstate
  refine ⟨?_, hprofile⟩
  show x.run (c.widen q more) = .ok b (c'.widen q more)
  rw [h, hrun]
  rfl

theorem scales_bind {x : Compile α β} {f : β → Compile α γ} (hx : Scales p q more x)
    (hf : ∀ b, Scales p q more (f b)) : Scales p q more (x >>= f) := by
  intro c r c' hc h
  obtain ⟨b, c₁, hfirst, hrest⟩ := leads_bind.mp h
  obtain ⟨hfirst, hc₁⟩ := hx hc hfirst
  obtain ⟨hrest, hc'⟩ := hf b hc₁ hrest
  exact ⟨leads_bind.mpr ⟨b, _, hfirst, hrest⟩, hc'⟩

theorem scales_get_bind {g : Compilation α → Compile α β}
    (hg : ∀ c : Compilation α, g (c.widen q more) = g c) (h : ∀ c, Scales p q more (g c)) :
    Scales p q more (get >>= g) := by
  intro c b c' hc hleads
  obtain ⟨hwide, hc'⟩ := h c hc hleads
  refine ⟨?_, hc'⟩
  show Leads (g (c.widen q more)) (c.widen q more) b (c'.widen q more)
  rwa [hg]

section

variable (hle : ∀ kind, p.limits.of kind ≤ q.limits.of kind)
include hle

/-- A larger pool has the same registers left, and more. -/
theorem scales_allocate (pool : Pool) (count : Nat) :
    Scales p q more (allocate pool count : Compile α Nat) := by
  rintro c first c' rfl h
  obtain ⟨rfl, hroom, rfl⟩ := leads_allocate.mp h
  exact ⟨leads_allocate.mpr ⟨rfl, Nat.le_trans hroom (hle pool.kind), rfl⟩, rfl⟩

omit hle in
/-- The first free temporary is the same. -/
theorem scales_acquire : Scales p q more (acquire : Compile α Register) := by
  rintro c r c' rfl h
  obtain ⟨index, rest, hfree, rfl, rfl⟩ := leads_acquire.mp h
  obtain ⟨others, hothers⟩ := free_widen q more c
  have hmem : index ∈ c.free := hfree ▸ List.mem_cons_self
  obtain ⟨hlt, -⟩ := List.getElem?_eq_some_iff.mp (mem_free.mp hmem)
  refine ⟨leads_acquire.mpr ⟨index, rest ++ others, ?_, rfl, (claiming_widen hlt).symm⟩, rfl⟩
  rw [hothers, hfree, List.cons_append]

omit hle in
theorem scales_claim (r : Register) : Scales p q more (claim r : Compile α Unit) := by
  rintro c u c' rfl h
  obtain ⟨hbound, rfl⟩ := leads_claim.mp h
  by_cases hr : r.kind = .vertexTemporary
  · have hindices : Register.temporaryIndices [r] = [r.index] := by
      simp [Register.temporaryIndices, hr]
    have hwide : r.index < (c.widen q more).temporaries.length := by
      unfold widen
      rw [List.length_append]
      exact Nat.lt_add_right _ (hbound hr)
    refine ⟨leads_claim.mpr ⟨fun _ => hwide, ?_⟩, ?_⟩
    · rw [hindices]
      exact (claiming_widen (hbound hr)).symm
    · rw [hindices]
      rfl
  · have hindices : Register.temporaryIndices [r] = [] := by
      simp [Register.temporaryIndices, hr]
    exact ⟨leads_claim.mpr ⟨fun hkind => absurd hkind hr, by rw [hindices]; rfl⟩,
      by rw [hindices]; rfl⟩

/-- What nodes do succeeds under a larger budget as well. -/
theorem claiming_scales : Claiming fun β (x : Compile α β) => Scales p q more x where
  pure b := (neutral_pure b).scales
  throw fault := (neutral_throw fault).scales
  bind := scales_bind
  view f := (sequential_neutral.view f).scales
  setVertexConstant index value := (sequential_neutral.setVertexConstant index value).scales
  allocate := scales_allocate hle
  acquire := scales_acquire
  release r := (neutral_release r).scales
  setIndex node slot index := (neutral_setIndex node slot index).scales
  bindStream _ _ _ _ :=
    scales_bind (scales_bind (scales_allocate hle _ _) fun _ => (neutral_pure _).scales) fun _ =>
      scales_bind (neutral_setIndex _ _ _).scales fun _ =>
        scales_bind (neutral_modify fun _ _ _ => rfl).scales fun _ => (neutral_pure _).scales

end

end Compile

end ParticleShader
