import ParticleShader.Proofs.NodeSet.Keeping
import ParticleShader.Proofs.NodeSet.Sequence

/-!
# Going on with a compilation

Between one beginning and the next a compilation is driven by calls of its users and by sets, and
each of them may be refused (`Continues`). Nodes do no more than that either: those of the catalogue
are written with calls, and a node of the user is expected to keep to them. So whatever is done, the
features that the compilation began with stay on, its shared registers stay there, and what was
remembered of the texture code is not forgotten (**`Continues.upholds`**).
-/

namespace ParticleShader

open Compile Compilation

variable {α : Type}

namespace Compilation

/-- What only a beginning takes back. -/
structure Upholds (c c' : Compilation α) : Prop where
  /-- The same features are on. -/
  features : c'.features = c.features
  /-- Registers of the texture code stay bound. -/
  uv : c.uv.isSome = true → c'.uv.isSome = true
  /-- Texture code stays written. -/
  uvCode : c.uvCode.isSome = true → c'.uvCode.isSome = true
  /-- The shared registers stay there. -/
  equipped : c.Equipped → c'.Equipped

end Compilation

/-- Taking registers takes none away. -/
theorem lenient_upholds : Lenient (Upholds (α := α)) where
  refl _ := ⟨rfl, id, id, id⟩
  trans h h' := ⟨h'.features.trans h.features, h'.uv ∘ h.uv, h'.uvCode ∘ h.uvCode,
    h'.equipped ∘ h.equipped⟩
  phase _ _ := ⟨rfl, id, id, id⟩
  allocate c pool count := by
    refine ⟨rfl, id, id, fun ⟨registers, hshared, hzero, hused⟩ => ⟨registers, hshared, hzero, ?_⟩⟩
    refine Nat.lt_of_lt_of_le hused ?_
    cases pool with
    | vertexConstant => exact Nat.le_add_right _ _
    | _ => exact Nat.le_refl _
  temporaries _ _ := ⟨rfl, id, id, id⟩
  indices _ _ := ⟨rfl, id, id, id⟩
  bindings _ _ := ⟨rfl, id, id, id⟩
  uv _ _ := ⟨rfl, fun _ => rfl, id, id⟩
  uvCode _ _ := ⟨rfl, id, fun _ => rfl, id⟩
  rows _ _ _ := ⟨rfl, id, id, id⟩

/-- What nodes do outside the vertex code takes back nothing of what is remembered. -/
theorem tolerant_sameTexture : Tolerant (NodeSet.SameTexture (α := α)) where
  refl _ := ⟨rfl, rfl, rfl⟩
  trans h h' := h.trans h'
  allocate _ _ _ := ⟨rfl, rfl, rfl⟩
  temporaries _ _ := ⟨rfl, rfl, rfl⟩
  indices _ _ := ⟨rfl, rfl, rfl⟩
  bindings _ _ := ⟨rfl, rfl, rfl⟩
  rows _ _ _ := ⟨rfl, rfl, rfl⟩

variable [Scalar α]

theorem Node.Modest.leavesTexture {n : Node α} (hn : n.Modest) :
    NodeSet.LeavesTexture n.uvCode := by
  intro c p c' hcode
  have hsame := Node.claiming_uvCode tolerant_sameTexture.claiming hn c
  rwa [hcode.after_eq] at hsame

/-- The states that a compilation comes to without another beginning: by calls of its users, by
requests of sets for texture code and by staging their frames, whatever they are answered. -/
inductive Continues (c : Compilation α) : Compilation α → Prop where
  /-- The state itself. -/
  | refl : Continues c c
  /-- A call is made. -/
  | call {d : Compilation α} {k : Call α} :
    k.continues = true → Continues c d → Continues c (d.after k.run)
  /-- Texture code is asked for. -/
  | uvCode {d : Compilation α} {s : NodeSet α} (source target : String) :
    s.Modest → Continues c d → Continues c (d.after (s.uvCode source target))
  /-- A frame is staged. -/
  | activate {d : Compilation α} {s : NodeSet α} (frame : Frame α) :
    s.Modest → Continues c d → Continues c (d.after (s.activate frame))

namespace Continues

variable {c c' c'' : Compilation α}

theorem trans (h : Continues c c') (h' : Continues c' c'') : Continues c c'' := by
  induction h' with
  | refl => exact h
  | call hk _ ih => exact .call hk ih
  | uvCode source target hs _ ih => exact .uvCode source target hs ih
  | activate frame hs _ ih => exact .activate frame hs ih

/-- **Nothing is taken back** as long as no compilation is begun. -/
theorem upholds (h : Continues c c') : c.Upholds c' := by
  have hlenient := lenient_upholds (α := α)
  induction h with
  | refl => exact hlenient.refl c
  | call hk _ ih =>
    exact hlenient.trans ih (hlenient.call (fun _ _ => ⟨rfl, id, id, id⟩) hk _)
  | uvCode source target hs _ ih => exact hlenient.trans ih (hlenient.request hs source target _)
  | activate frame hs _ ih => exact hlenient.trans ih (hlenient.activate hs frame _)

end Continues

/-! ### The vertex code -/

namespace Compile

variable {β γ : Type}

theorem continues_bind {x : Compile α β} {f : β → Compile α γ} (hx : Keeps Continues x)
    (hf : ∀ b, Keeps Continues (f b)) : Keeps Continues (x >>= f) :=
  keeps_bind (R := Continues) (fun _ _ _ => Continues.trans) hx hf

/-- A call whose result is used. -/
theorem continues_of_call {x : Compile α β} (k : Call α) (hk : k.continues = true)
    (hrun : k.run = do let _ ← x) : Keeps Continues x := by
  intro c
  have hsame : c.after k.run = c.after x := by
    rw [hrun, after_bind]
    unfold Compilation.after
    cases x.run c <;> rfl
  rw [← hsame]
  exact .call hk .refl

/-- The steps that nodes are written with are calls. -/
theorem claiming_continues : Claiming (α := α) fun _ x => Keeps Continues x where
  pure _ _ := .refl
  throw _ _ := .refl
  bind := continues_bind
  view _ _ := .refl
  setVertexConstant index value _ := .call (k := .setVertexConstant index value) rfl .refl
  allocate pool count := continues_of_call (.allocate pool count) rfl rfl
  acquire := continues_of_call .acquire rfl rfl
  release r _ := .call (k := .release r) rfl .refl
  setIndex node slot index _ := .call (k := .setIndex node slot index) rfl .refl
  bindStream info slot start components :=
    continues_of_call (.bindStream info slot start components) rfl rfl

theorem continues_enter (phase : Phase) : Keeps Continues (enter phase : Compile α Unit) :=
  fun _ => .call (k := .enter phase) rfl .refl

theorem continues_initCode : Keeps Continues (initCode : Compile α Program) :=
  continues_bind claiming_continues.shared fun _ _ => .refl

theorem continues_combineCode : Keeps Continues (combineCode : Compile α Program) :=
  continues_bind claiming_continues.shared fun _ _ => .refl

theorem continues_initColor : Keeps Continues (initColor : Compile α Program) :=
  continues_of_call .initColor rfl rfl

end Compile

namespace NodeSet

variable {s : NodeSet α} {c c' : Compilation α} {p : Program}

/-- A set of nodes each of which keeps to the calls of the compilation. -/
structure Cooperates (s : NodeSet α) : Prop where
  /-- In the vertex code they may be any calls but a beginning. -/
  vertexCalls : ∀ n ∈ s.nodes, ∀ node, n.behavior = .custom node →
    Keeps Continues (node.vertexCode n.info)
  /-- Otherwise they are those that the nodes of the catalogue make. -/
  modest : s.Modest

theorem Cooperates.vertexCode (h : s.Cooperates) {n : Node α} (hn : n ∈ s.nodes) :
    Keeps Continues n.vertexCode := by
  by_cases hcatalogue : n.behavior.IsCatalogue
  · exact Node.claiming_vertexCode claiming_continues hcatalogue
  · cases hb : n.behavior with
    | custom node =>
      have hcode : n.vertexCode = node.vertexCode n.info := by
        unfold Node.vertexCode
        rw [hb]
      rw [hcode]
      exact h.vertexCalls n hn node hb
    | _ => exact absurd (by rw [hb]; exact trivial) hcatalogue

theorem Cooperates.blockCode (h : s.Cooperates) (block : Block) :
    Keeps Continues (s.blockCode block) :=
  keeps_gather (R := Continues) (fun _ => .refl) (fun _ _ _ => Continues.trans) fun _ hn =>
    h.vertexCode (List.mem_filter.mp hn).1

theorem Cooperates.placeFragments (h : s.Cooperates) : Keeps Continues s.placeFragments :=
  continues_bind (continues_enter _) fun _ => continues_bind continues_initCode fun _ =>
    continues_bind (continues_enter _) fun _ => continues_bind (h.blockCode _) fun _ =>
      continues_bind (continues_enter _) fun _ => continues_bind continues_combineCode fun _ =>
        continues_bind (continues_enter _) fun _ => continues_bind (h.blockCode _) fun _ _ => .refl

theorem Cooperates.colorFragments (h : s.Cooperates) : Keeps Continues s.colorFragments :=
  continues_bind (continues_enter _) fun _ => continues_bind continues_initColor fun _ =>
    continues_bind (continues_enter _) fun _ => continues_bind (h.blockCode _) fun _ =>
      continues_bind (continues_enter _) fun _ _ => .refl

/-- The vertex program is written with calls. -/
theorem Cooperates.vertexFragments (h : s.Cooperates) : Keeps Continues s.vertexFragments :=
  continues_bind h.placeFragments fun _ => continues_bind h.colorFragments fun _ _ => .refl

variable {pass : Pass} {profile : Profile} {sourceNames targetNames : List String}

/-- Behind its vertex code a compilation has the features of the set and of the pass, and it can be
finished. -/
theorem Cooperates.of_vertexCode (h : s.Cooperates)
    (hcode : Leads (s.vertexCode pass profile sourceNames targetNames) c p c') :
    c'.features = s.settings.features ∪ pass.features ∧ c'.phase = .colorCombine ∧ c'.Equipped := by
  obtain ⟨_, c₀, hreset, hfragments⟩ := leads_bind.mp (leads_orAbandon.mp hcode)
  have hupholds := (h.vertexFragments c₀).upholds
  rw [hfragments.after_eq] at hupholds
  obtain ⟨q, -, ⟨_, _, _, _, _, _, -, -, -, -, -, -, rfl, -⟩, -⟩ := of_vertexFragments hfragments
  refine ⟨hupholds.features.trans (texture_of_reset hreset).1, rfl, hupholds.equipped ?_⟩
  exact (equipped_of_leads_reset hreset).2

end NodeSet

end ParticleShader
