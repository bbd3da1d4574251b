import ParticleShader.Proofs.Compilation.Budgets
import ParticleShader.Proofs.NodeSet.Activation

/-!
# Larger budgets never change the program

A set that is compiled under one profile is compiled under every profile with limits at least
as large, to the same code with the same registers (**`budget_spec`**). The fixed fragments
succeed under the larger budget as the code of the nodes does; what is staged afterwards takes
no notice of the budget, so it is the same, or refused for the same reason.
-/

namespace ParticleShader

open Compile Compilation

variable {α β γ : Type} {p q : Profile} {more : Nat}

/-! ### The fixed fragments -/

namespace Compile

theorem scales_orAbandon {x : Compile α β} (h : Scales p q more x) :
    Scales p q more (orAbandon x) := by
  intro c b c' hc hx
  obtain ⟨hwide, hc'⟩ := h hc (leads_orAbandon.mp hx)
  exact ⟨leads_orAbandon.mpr hwide, hc'⟩

theorem neutral_initCode : Neutral (initCode : Compile α Program) :=
  neutral_bind sequential_neutral.shared fun _ => neutral_get_bind (fun _ _ _ => rfl) fun _ =>
    neutral_pure _

theorem neutral_combineCode : Neutral (combineCode : Compile α Program) :=
  neutral_bind sequential_neutral.shared fun _ => neutral_pure _

theorem neutral_setUv (source target : String) :
    Neutral (setUv source target : Compile α UvRegisters) :=
  neutral_bind sequential_neutral.shared fun _ => neutral_bind (neutral_ofOutcome _) fun _ =>
    neutral_bind (neutral_ofOutcome _) fun _ => neutral_bind (neutral_modify fun _ _ _ => rfl)
      fun _ => neutral_pure _

theorem neutral_storeUvCode (code : Program) : Neutral (storeUvCode code : Compile α Unit) :=
  neutral_modify fun _ _ _ => rfl

section

variable (hle : ∀ kind, p.limits.of kind ≤ q.limits.of kind)
include hle

theorem scales_accumulator (wanted : Features → Bool) (start : Register)
    (putTarget putVarying : Register → ColorRegisters → ColorRegisters) :
    Scales p q more (accumulator wanted start putTarget putVarying : Compile α Program) := by
  refine scales_bind (sequential_neutral.has wanted).scales fun on => ?_
  split
  · exact scales_bind scales_acquire fun _ =>
      scales_bind (neutral_modify fun _ _ _ => rfl).scales fun _ =>
        scales_bind ((claiming_scales hle).allocateRegisters _ _) fun _ =>
          scales_bind (neutral_modify fun _ _ _ => rfl).scales fun _ => (neutral_pure _).scales
  · exact (neutral_pure _).scales

theorem scales_initColor : Scales p q more (initColor : Compile α Program) := by
  refine scales_bind sequential_neutral.shared.scales fun shared =>
    scales_bind (sequential_neutral.has _).scales fun on => ?_
  split
  · exact scales_bind (scales_accumulator hle ..) fun _ =>
      scales_bind (scales_accumulator hle ..) fun _ => (neutral_pure _).scales
  · exact (neutral_pure _).scales

theorem scales_allocateShared (source vertex : Register) (directions : List Register) :
    Scales p q more (allocateShared source vertex directions : Compile α SharedRegisters) := by
  refine scales_bind ((claiming_scales hle).allocateRegisters _ _) fun _ =>
    scales_bind scales_acquire fun _ => scales_bind scales_acquire fun _ =>
      scales_bind (sequential_neutral.has _).scales fun on => ?_
  split
  · exact (neutral_pure _).scales
  · exact (neutral_pure _).scales

theorem scales_shareRegisters (sources targets : List Register) :
    Scales p q more (shareRegisters sources targets : Compile α Unit) := by
  unfold shareRegisters
  split
  · split
    · exact (neutral_throw _).scales
    · exact scales_bind ((claiming_scales hle).forM scales_claim _) fun _ =>
        scales_bind (scales_allocateShared hle ..) fun _ =>
          (neutral_modify fun _ _ _ => rfl).scales
  · exact (neutral_throw _).scales

/-- The beginning of a compilation leads to the same under a larger budget, from any state. -/
theorem leads_reset_widen {pass : Pass} {features : Features} {sources targets : List String}
    {c c' : Compilation α} {u : Unit} (h : Leads (reset p pass features sources targets) c u c')
    (d : Compilation α) : c'.profile = p ∧
    Leads (reset q pass features sources targets) d u
      (c'.widen q (q.limits.vertexTemporaries - p.limits.vertexTemporaries)) := by
  simp only [reset, leads_bind, leads_modify, leads_ofOutcome] at h ⊢
  obtain ⟨_, _, rfl, registers, _, ⟨hsources, rfl⟩, _, _, rfl, goals, _, ⟨htargets, rfl⟩, _, _,
    rfl, hshare⟩ := h
  obtain ⟨hwide, hprofile⟩ := scales_shareRegisters hle registers goals rfl hshare
  refine ⟨hprofile, (), _, rfl, registers, _, ⟨hsources, rfl⟩, (), _, rfl, goals, _,
    ⟨htargets, rfl⟩, (), _, rfl, ?_⟩
  -- the temporaries of the larger budget are those of the smaller one and the rest
  have hcount : p.limits.vertexTemporaries ≤ q.limits.vertexTemporaries := hle .vertexTemporary
  have htemporaries : List.replicate q.limits.vertexTemporaries 0 =
      List.replicate p.limits.vertexTemporaries 0 ++
        List.replicate (q.limits.vertexTemporaries - p.limits.vertexTemporaries) 0 := by
    rw [List.replicate_append_replicate, Nat.add_sub_of_le hcount]
  unfold widen restart at hwide
  unfold restart
  rw [htemporaries]
  exact hwide

end

end Compile

/-! ### The code of a set -/

namespace NodeSet

theorem scales_gather {code : Node α → Compile α Program} {nodes : List (Node α)}
    (h : ∀ n ∈ nodes, Scales p q more (code n)) : Scales p q more (gather code nodes) := by
  induction nodes with
  | nil => exact (neutral_pure _).scales
  | cons n ns ih =>
    obtain ⟨hn, hns⟩ := List.forall_mem_cons.mp h
    exact scales_bind hn fun _ => scales_bind (ih hns) fun _ => (neutral_pure _).scales

variable {s : NodeSet α} [Scalar α]

theorem neutral_writeAll {nodes : List (Node α)} (h : ∀ n ∈ nodes, n.Modest) (frame : Frame α) :
    Neutral (nodes.forM (·.writeConstants frame)) := by
  induction nodes with
  | nil => exact neutral_pure ()
  | cons n ns ih =>
    obtain ⟨hn, hns⟩ := List.forall_mem_cons.mp h
    exact neutral_bind (Node.sequential_writeConstants sequential_neutral hn frame) fun _ => ih hns

theorem Built.neutral_activate (hs : s.Built) (frame : Frame α) : Neutral (s.activate frame) := by
  have hrest : Neutral (do s.nodes.forM (·.writeConstants frame); return (← get).bindings) :=
    neutral_bind (neutral_writeAll hs.modest frame) fun _ =>
      neutral_get_bind (fun _ _ _ => rfl) fun _ => neutral_pure _
  refine neutral_get_bind (fun _ _ _ => rfl) fun c => ?_
  split
  · exact neutral_bind (neutral_throw _) fun _ => hrest
  · exact hrest

section

variable (hle : ∀ kind, p.limits.of kind ≤ q.limits.of kind)
include hle

theorem Built.scales_blockCode (hs : s.Built) (block : Block) :
    Scales p q more (s.blockCode block) :=
  scales_gather fun n hn =>
    Node.claiming_vertexCode (claiming_scales hle) (hs.isCatalogue n (List.mem_of_mem_filter hn))

theorem Built.scales_vertexFragments (hs : s.Built) : Scales p q more s.vertexFragments :=
  scales_bind
    (scales_bind (neutral_enter _).scales fun _ => scales_bind neutral_initCode.scales fun _ =>
      scales_bind (neutral_enter _).scales fun _ => scales_bind (hs.scales_blockCode hle _) fun _ =>
      scales_bind (neutral_enter _).scales fun _ => scales_bind neutral_combineCode.scales fun _ =>
      scales_bind (neutral_enter _).scales fun _ => scales_bind (hs.scales_blockCode hle _) fun _ =>
      (neutral_pure _).scales) fun _ =>
  scales_bind
    (scales_bind (neutral_enter _).scales fun _ => scales_bind (scales_initColor hle) fun _ =>
      scales_bind (neutral_enter _).scales fun _ => scales_bind (hs.scales_blockCode hle _) fun _ =>
      scales_bind (neutral_enter _).scales fun _ =>
      scales_get_bind (fun _ => rfl) fun _ => (neutral_pure _).scales) fun _ =>
  (neutral_pure _).scales

theorem Built.scales_writeUvCode (hs : s.Built) (source target : String) :
    Scales p q more (s.writeUvCode source target) := by
  refine scales_bind (sequential_neutral.has _).scales fun on => ?_
  split
  · exact scales_bind (neutral_setUv source target).scales fun _ =>
      scales_bind (scales_gather fun n hn =>
        Node.claiming_uvCode (claiming_scales hle) (hs.modest n hn)) fun _ =>
        scales_bind (neutral_storeUvCode _).scales fun _ => (neutral_pure _).scales
  · exact scales_bind (neutral_ofOutcome _).scales fun _ =>
      scales_bind (neutral_ofOutcome _).scales fun _ => (neutral_pure _).scales

theorem Built.scales_uvCode (hs : s.Built) (source target : String) :
    Scales p q more (s.uvCode source target) := by
  refine scales_get_bind (fun _ => rfl) fun c => ?_
  split
  · show Scales p q more (throw .notCompiled : Compile α Program)
    exact (neutral_throw _).scales
  · refine scales_bind (neutral_ofOutcome _).scales fun written => ?_
    split
    · exact (neutral_pure _).scales
    · exact scales_orAbandon (hs.scales_writeUvCode hle source target)

/-- The vertex code is written under a larger budget as well, from any state. -/
theorem Built.leads_vertexCode_widen (hs : s.Built) {pass : Pass} {sources targets : List String}
    {c c' : Compilation α} {code : Program}
    (h : Leads (s.vertexCode pass p sources targets) c code c') (d : Compilation α) :
    c'.profile = p ∧ Leads (s.vertexCode pass q sources targets) d code
      (c'.widen q (q.limits.vertexTemporaries - p.limits.vertexTemporaries)) := by
  unfold vertexCode at h ⊢
  rw [leads_orAbandon, leads_bind] at h
  obtain ⟨u, c₁, hreset, hcode⟩ := h
  obtain ⟨hprofile, hreset⟩ := leads_reset_widen hle hreset d
  obtain ⟨hcode, hprofile⟩ := hs.scales_vertexFragments hle hprofile hcode
  exact ⟨hprofile, leads_orAbandon.mpr (leads_bind.mpr ⟨u, _, hreset, hcode⟩)⟩

end

/-! ### Everything that is compiled -/

/-- What is staged for a frame when the writing of code is ended: the streams to bind and the
rows of constants, or why not. -/
def stagedFor (s : NodeSet α) (frame : Frame α) (c : Compilation α) :
    Except Fault (List StreamBinding × List (Vec4 α) × List (Vec4 α)) :=
  match (do finish; s.activate frame : Compile α (List StreamBinding)).run c with
  | .ok bindings c' => .ok (bindings, c'.vertexRows, c'.fragmentRows)
  | .error fault _ => .error fault

/-- What is staged depends on no budget. -/
theorem Built.stagedFor_widen (hs : s.Built) (frame : Frame α) (q : Profile) (more : Nat)
    (c : Compilation α) : s.stagedFor frame (c.widen q more) = s.stagedFor frame c := by
  have hneutral : Neutral (do finish; s.activate frame : Compile α (List StreamBinding)) :=
    neutral_bind neutral_finish fun _ => hs.neutral_activate frame
  unfold stagedFor
  rw [hneutral]
  cases (do finish; s.activate frame : Compile α (List StreamBinding)).run c <;> rfl

/-- **A larger budget changes nothing**: a set that is compiled under a profile is compiled
under any profile of which every limit is at least as large, from whatever state, to the same
code; it uses the same registers and binds the same streams, and in every frame it stages the
same constants or is refused for the same reason. -/
theorem Built.budget_spec (hs : s.Built) (hle : ∀ kind, p.limits.of kind ≤ q.limits.of kind)
    {pass : Pass} {sources targets : List String} {source target : String} {code uv : Program}
    {c c₁ c₂ : Compilation α} (hcode : Leads (s.vertexCode pass p sources targets) c code c₁)
    (huv : Leads (s.uvCode source target) c₁ uv c₂) (d : Compilation α) :
    ∃ d₁ d₂, Leads (s.vertexCode pass q sources targets) d code d₁ ∧
      Leads (s.uvCode source target) d₁ uv d₂ ∧ d₁.used = c₁.used ∧ d₂.used = c₂.used ∧
      d₂.bindings = c₂.bindings ∧ (∀ node slot, d₂.index? node slot = c₂.index? node slot) ∧
      ∀ frame, s.stagedFor frame d₂ = s.stagedFor frame c₂ := by
  obtain ⟨hprofile, hcode⟩ := hs.leads_vertexCode_widen hle hcode d
  obtain ⟨huv, -⟩ := hs.scales_uvCode hle source target hprofile huv
  exact ⟨_, _, hcode, huv, rfl, rfl, rfl, fun _ _ => rfl, fun frame => hs.stagedFor_widen frame ..⟩

/-- What spins under the smallest profile spins in the same way under the full one. -/
theorem spun_scales : (∀ kind, Profile.baseline.limits.of kind ≤ Profile.standard.limits.of kind) ∧
    ∃ code uv c₁ c₂ d₁ d₂,
      Leads (spun.vertexCode { uvAnimation := true } .baseline ["va0"] ["vt0"])
        { profile := .standard } code c₁ ∧ Leads (spun.uvCode "va1" "v0") c₁ uv c₂ ∧
      Leads (spun.vertexCode { uvAnimation := true } .standard ["va0"] ["vt0"])
        { profile := .baseline } code d₁ ∧ Leads (spun.uvCode "va1" "v0") d₁ uv d₂ ∧
      ∀ frame, spun.stagedFor frame d₂ = spun.stagedFor frame c₂ := by
  have hle : ∀ kind, Profile.baseline.limits.of kind ≤ Profile.standard.limits.of kind := by
    intro kind
    cases kind <;> decide
  obtain ⟨uv, c₂, hcompile⟩ := exists_leads (x := (do
      let _ ← spun.vertexCode { uvAnimation := true } .baseline ["va0"] ["vt0"]
      spun.uvCode "va1" "v0")) (s := { profile := .standard }) (by decide +kernel)
  obtain ⟨code, c₁, hcode, huv⟩ := leads_bind.mp hcompile
  obtain ⟨d₁, d₂, hcode', huv', -, -, -, -, hstaged⟩ :=
    built_spun.budget_spec hle hcode huv { profile := .baseline }
  exact ⟨hle, code, uv, c₁, c₂, d₁, d₂, hcode, huv, hcode', huv', hstaged⟩

end NodeSet

end ParticleShader
