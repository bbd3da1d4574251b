import ParticleShader.Proofs.Compilation.Phases
import ParticleShader.Proofs.NodeSet.Activation

/-!
# What steps bear out

Much of what is said of a compilation relates the state behind a step to the one in front of it,
whether the step succeeds or not. A relation that can be chained and that bears with the few changes
that steps are made of (`Lenient`) holds across all that nodes do, across every call but a
beginning, which clears the state (`Lenient.call`), and across a request for texture code and the
staging of a frame.
-/

namespace ParticleShader

open Compilation

variable {α β γ : Type}

namespace Compile

theorem keeps_get_bind {R : Compilation α → Compilation α → Prop}
    {f : Compilation α → Compile α β} (h : ∀ c, R c (c.after (f c))) : Keeps R (get >>= f) := h

theorem keeps_modify {R : Compilation α → Compilation α → Prop}
    {f : Compilation α → Compilation α} (h : ∀ c, R c (f c)) :
    Keeps R (modify f : Compile α PUnit) := h

/-- A relation that can be chained and that bears with the changes that nodes make. -/
structure Tolerant (R : Compilation α → Compilation α → Prop) : Prop where
  /-- Nothing changes. -/
  refl (c : Compilation α) : R c c
  /-- One change follows another. -/
  trans {c c' c'' : Compilation α} : R c c' → R c' c'' → R c c''
  /-- Registers of a pool are taken. -/
  allocate (c : Compilation α) (pool : Pool) (count : Nat) :
    R c { c with used := c.used.set pool (c.used.get pool + count) }
  /-- Temporaries are claimed or given back. -/
  temporaries (c : Compilation α) (temporaries : List Nat) : R c { c with temporaries }
  /-- The registers of parameters are remembered. -/
  indices (c : Compilation α) (indices : List ((NodeId × Nat) × Nat)) : R c { c with indices }
  /-- Attributes are bound. -/
  bindings (c : Compilation α) (bindings : List StreamBinding) : R c { c with bindings }
  /-- Constants are staged. -/
  rows (c : Compilation α) (vertexRows fragmentRows : List (Vec4 α)) :
    R c { c with vertexRows, fragmentRows }

/-- A relation that can be chained and that bears with the changes that steps are made of. -/
structure Lenient (R : Compilation α → Compilation α → Prop) : Prop extends Tolerant R where
  /-- The compilation goes on or is abandoned. -/
  phase (c : Compilation α) (phase : Phase) : R c { c with phase }
  /-- The registers of the texture code are bound. -/
  uv (c : Compilation α) (uv : UvRegisters) : R c { c with uv := some uv }
  /-- The texture code is remembered. -/
  uvCode (c : Compilation α) (code : Program) : R c { c with uvCode := some code }

/-- Code of nodes, one after the other. -/
theorem keeps_gather {R : Compilation α → Compilation α → Prop} (hrefl : ∀ c, R c c)
    (htrans : ∀ c c' c'', R c c' → R c' c'' → R c c'') {code : Node α → Compile α Program}
    {nodes : List (Node α)} (h : ∀ n ∈ nodes, Keeps R (code n)) :
    Keeps R (NodeSet.gather code nodes) := by
  induction nodes with
  | nil => exact hrefl
  | cons n nodes ih =>
    obtain ⟨hfirst, hothers⟩ := List.forall_mem_cons.mp h
    exact keeps_bind htrans hfirst fun _ => keeps_bind htrans (ih hothers) fun _ => hrefl

namespace Tolerant

variable {R : Compilation α → Compilation α → Prop} (h : Tolerant R)
include h

theorem bind {x : Compile α β} {f : β → Compile α γ} (hx : Keeps R x) (hf : ∀ b, Keeps R (f b)) :
    Keeps R (x >>= f) := keeps_bind (R := R) (fun _ _ _ => h.trans) hx hf

theorem pure (b : β) : Keeps R (Pure.pure b : Compile α β) := h.refl

theorem throw (fault : Fault) : Keeps R (MonadExcept.throw fault : Compile α β) := h.refl

theorem ofOutcome (outcome : Except Fault β) : Keeps R (ofOutcome outcome : Compile α β) := by
  cases outcome with
  | ok b => exact h.pure b
  | error fault => exact h.throw fault

theorem stages {x : Compile α β} (hx : Stages x) : Keeps R x := fun c => by
  rw [hx c]
  exact h.rows c _ c.fragmentRows

theorem allocations (pool : Pool) (count : Nat) : Keeps R (Compile.allocate pool count) := by
  intro c
  cases hrun : (Compile.allocate pool count : Compile α Nat).run c with
  | error fault c' =>
    obtain rfl := (run_allocate_of_error hrun).1
    rw [after_of_error hrun]
    exact h.refl c'
  | ok first c' =>
    obtain ⟨-, -, rfl⟩ := leads_allocate.mp hrun
    rw [Leads.after_eq hrun]
    exact h.allocate c pool count

/-- Such a relation holds across the steps that nodes are written with. -/
theorem claiming : Claiming fun _ x => Keeps R x where
  pure := h.pure
  throw := h.throw
  bind := h.bind
  view _ := h.refl
  setVertexConstant index value := h.stages (stages_setVertexConstant index value)
  allocate := h.allocations
  acquire := keeps_get_bind fun c => by
    split
    · exact h.refl c
    · exact h.temporaries c _
  release r := keeps_modify fun c => by
    split
    · exact h.temporaries c _
    · exact h.refl c
  setIndex _ _ _ := keeps_modify fun c => h.indices c _
  bindStream _ _ _ _ := h.bind (h.bind (h.allocations _ _) fun _ => h.pure _) fun _ =>
    h.bind (keeps_modify fun c => h.indices c _) fun _ =>
      h.bind (keeps_modify fun c => h.bindings c _) fun _ => h.pure _

end Tolerant

namespace Lenient

variable {R : Compilation α → Compilation α → Prop} (h : Lenient R)
include h

theorem orAbandon {x : Compile α β} (hx : Keeps R x) : Keeps R (orAbandon x) := by
  intro c
  have hfirst := hx c
  cases hrun : x.run c with
  | error fault c' =>
    rw [after_of_error hrun] at hfirst
    rw [after_of_error (run_orAbandon_of_error hrun)]
    exact h.trans hfirst (h.phase c' .failed)
  | ok b c' =>
    rw [Leads.after_eq hrun] at hfirst
    rwa [Leads.after_eq (leads_orAbandon.mpr hrun)]

theorem enter (phase : Phase) : Keeps R (enter phase) := by
  refine keeps_get_bind fun c => ?_
  split
  · exact h.refl c
  · split
    · exact h.phase c _
    · exact h.refl c

theorem finish [Scalar α] : Keeps R (finish : Compile α Unit) :=
  h.bind (h.enter _) fun _ => h.bind (keeps_modify fun c => h.rows c _ _) fun _ =>
    h.bind h.claiming.shared fun _ => h.claiming.setVertexConstant _ _

theorem claim (r : Register) : Keeps R (claim r) := by
  unfold Compile.claim
  split
  · refine keeps_get_bind fun c => ?_
    split
    · exact h.temporaries c _
    · exact h.bind (h.ofOutcome _) (fun _ => h.throw _) c
  · exact h.pure _

theorem setFragmentConstant (index : Nat) (value : Vec4 α) :
    Keeps R (setFragmentConstant index value) :=
  keeps_get_bind fun c =>
    h.bind (h.ofOutcome _) (fun _ => keeps_modify fun c => h.rows c c.vertexRows _) c

theorem accumulator (hcolor : ∀ (c : Compilation α) color, R c { c with color })
    (wanted : Features → Bool) (start : Register)
    (putTarget putVarying : Register → ColorRegisters → ColorRegisters) :
    Keeps R (accumulator wanted start putTarget putVarying) := by
  refine h.bind (h.claiming.has _) fun _ => ?_
  split
  · exact h.bind h.claiming.acquire fun _ => h.bind (keeps_modify fun c => hcolor c _) fun _ =>
      h.bind (h.claiming.allocateRegisters _ _) fun _ =>
        h.bind (keeps_modify fun c => hcolor c _) fun _ => h.pure _
  · exact h.pure _

theorem initColor (hcolor : ∀ (c : Compilation α) color, R c { c with color }) :
    Keeps R initColor := by
  refine h.bind h.claiming.shared fun _ => h.bind (h.claiming.has _) fun _ => ?_
  split
  · exact h.bind (h.accumulator hcolor _ _ _ _) fun _ =>
      h.bind (h.accumulator hcolor _ _ _ _) fun _ => h.pure _
  · exact h.pure _

theorem setUv (source target : String) : Keeps R (setUv source target) :=
  h.bind h.claiming.shared fun _ => h.bind (h.ofOutcome _) fun _ =>
    h.bind (h.ofOutcome _) fun _ => h.bind (keeps_modify fun c => h.uv c _) fun _ => h.pure _

/-- It holds across every call but a beginning, if it bears with other registers of the colors. -/
theorem call [Scalar α] (hcolor : ∀ (c : Compilation α) color, R c { c with color }) {k : Call α}
    (hk : k.continues = true) : Keeps R k.run := by
  cases k with
  | reset => exact absurd hk Bool.false_ne_true
  | enter phase => exact h.enter phase
  | abandon => exact keeps_modify fun c => h.phase c _
  | finish => exact h.finish
  | allocate pool count => exact h.bind (h.allocations pool count) fun _ => h.pure _
  | acquire => exact h.bind h.claiming.acquire fun _ => h.pure _
  | claim r => exact h.claim r
  | release r => exact h.claiming.release r
  | setIndex node slot index => exact h.claiming.setIndex node slot index
  | parameter info slot start components =>
    exact h.bind (h.claiming.parameter info slot start components) fun _ => h.pure _
  | bindStream info slot start components =>
    exact h.bind (h.claiming.bindStream info slot start components) fun _ => h.pure _
  | initColor => exact h.bind (h.initColor hcolor) fun _ => h.pure _
  | setUv source target => exact h.bind (h.setUv source target) fun _ => h.pure _
  | storeUvCode code => exact keeps_modify fun c => h.uvCode c code
  | setVertexConstant index value => exact h.claiming.setVertexConstant index value
  | setVertexMatrix index m => exact h.claiming.setVertexMatrix index m
  | setFragmentConstant index value => exact h.setFragmentConstant index value

section

variable [Scalar α] {s : NodeSet α}

theorem writeUvCode (hs : s.Modest) (source target : String) :
    Keeps R (s.writeUvCode source target) := by
  have hnodes : Keeps R (NodeSet.gather Node.uvCode s.nodes) :=
    keeps_gather h.refl (fun _ _ _ => h.trans) fun n hn => Node.claiming_uvCode h.claiming (hs n hn)
  refine h.bind (h.claiming.has _) fun on => ?_
  split
  · exact h.bind (h.setUv source target) fun _ => h.bind hnodes fun _ =>
      h.bind (keeps_modify fun c => h.uvCode c _) fun _ => h.pure _
  · exact h.bind (h.ofOutcome _) fun _ => h.bind (h.ofOutcome _) fun _ => h.pure _

/-- It holds across a request for texture code. -/
theorem request (hs : s.Modest) (source target : String) : Keeps R (s.uvCode source target) := by
  refine keeps_get_bind fun c => ?_
  split
  · exact h.refl c
  · refine h.bind (h.ofOutcome _) (fun written => ?_) c
    split
    · exact h.pure _
    · exact h.orAbandon (h.writeUvCode hs source target)

/-- It holds across the staging of a frame. -/
theorem activate (hs : s.Modest) (frame : Frame α) : Keeps R (s.activate frame) :=
  h.stages (hs.stages_activate frame)

end

end Lenient

end Compile

end ParticleShader
