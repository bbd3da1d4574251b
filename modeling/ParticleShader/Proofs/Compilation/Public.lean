import ParticleShader.NodeSet.Code
import ParticleShader.Proofs.Outcome

/-!
# The public interface of a compilation

What users of a compilation can do with it: the steps that are offered to them, put
together in any way, with the faults caught or not. The lists of registers to copy
are the one part of a state that nobody is shown.
-/

namespace ParticleShader

variable {α β γ : Type}

/-- A state without the lists of registers to copy. -/
def Compilation.withoutLists (c : Compilation α) : Compilation α :=
  { c with sources := [], targets := [] }

namespace Compile

/-- A step whose fault is caught. -/
def attempt (x : Compile α β) : Compile α (Except Fault β) := fun c =>
  match x c with
  | .ok b c => .ok (.ok b) c
  | .error fault c => .ok (.error fault) c

theorem leads_attempt {x : Compile α β} {c c' : Compilation α} {answer : Except Fault β} :
    Leads (attempt x) c answer c' ↔ (∃ b, answer = .ok b ∧ Leads x c b c') ∨
      ∃ fault, answer = .error fault ∧ x.run c = .error fault c' := by
  simp only [Leads, attempt, EStateM.run]
  cases x c <;> cases answer <;> simp [eq_comm]

/-- The programs that use a compilation through its public interface. -/
inductive Public [Scalar α] : {β : Type} → Compile α β → Prop where
  /-- A result. -/
  | pure {β : Type} (b : β) : Public (Pure.pure b)
  /-- A fault. -/
  | throw {β : Type} (fault : Fault) : Public (MonadExcept.throw fault : Compile α β)
  /-- One program after another, which may depend on what the first one gave. -/
  | bind {β γ : Type} {x : Compile α β} {f : β → Compile α γ} :
    Public x → (∀ b, Public (f b)) → Public (x >>= f)
  /-- A program whose fault is caught. -/
  | attempt {β : Type} {x : Compile α β} : Public x → Public (attempt x)
  /-- What can be seen of the state. -/
  | view {β : Type} (f : Compilation α → β) : Public do return f (← get).withoutLists
  /-- The beginning of a compilation. -/
  | reset (profile : Profile) (pass : Pass) (features : Features) (sources targets : List String) :
    Public (reset profile pass features sources targets)
  /-- The next phase. -/
  | enter (phase : Phase) : Public (enter phase)
  /-- The end of a compilation that failed. -/
  | abandon : Public abandon
  /-- The registers that all nodes share. -/
  | shared : Public shared
  /-- Registers of a pool. -/
  | allocate (pool : Pool) (count : Nat) : Public (allocate pool count)
  /-- A free temporary. -/
  | acquire : Public acquire
  /-- A claim on a temporary. -/
  | claim (r : Register) : Public (claim r)
  /-- The end of a claim. -/
  | release (r : Register) : Public (release r)
  /-- The register of a parameter. -/
  | setIndex (node : NodeId) (slot index : Nat) : Public (setIndex node slot index)
  /-- An attribute that is bound to a place of a node. -/
  | bindStream (info : NodeInfo) (slot start components : Nat) :
    Public (bindStream info slot start components)
  /-- The copy of the vertex. -/
  | initCode : Public initCode
  /-- The placement of the vertex. -/
  | combineCode : Public combineCode
  /-- The preparation of the color. -/
  | initColor : Public initColor
  /-- The registers of the texture code. -/
  | setUv (source target : String) : Public (setUv source target)
  /-- The texture code to remember. -/
  | storeUvCode (code : Program) : Public (storeUvCode code)
  /-- The end of the writing of code. -/
  | finish : Public finish
  /-- A vertex constant. -/
  | setVertexConstant (index : Nat) (value : Vec4 α) : Public (setVertexConstant index value)
  /-- A matrix of vertex constants. -/
  | setVertexMatrix (index : Nat) (m : Mat3 α) : Public (setVertexMatrix index m)
  /-- A fragment constant. -/
  | setFragmentConstant (index : Nat) (value : Vec4 α) : Public (setFragmentConstant index value)
  /-- The vertex code of a set. -/
  | vertexCode (s : NodeSet α) (pass : Pass) (profile : Profile) (sources targets : List String) :
    Public (s.vertexCode pass profile sources targets)
  /-- The texture code of a set. -/
  | uvCode (s : NodeSet α) (source target : String) : Public (s.uvCode source target)
  /-- The constants of a frame. -/
  | activate (s : NodeSet α) (frame : Frame α) : Public (s.activate frame)

end Compile

end ParticleShader
