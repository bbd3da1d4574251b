import ParticleShader.Proofs.NodeSet.Keeping

/-!
# What follows the vertex code

Behind its vertex code a compilation is asked for texture code, it is finished, and frames are
staged. None of this concerns the colors: the registers that were allocated for them stay as they
are, whether what is asked for succeeds or not (**`Follows.color`**). The nodes are written with
steps that leave them alone, so they do as well.
-/

namespace ParticleShader

open Compile Compilation

variable {α : Type}

namespace Compile

variable {β : Type}

/-- Only the preparation of the colors changes their registers. -/
theorem lenient_color : Lenient fun c c' : Compilation α => c'.color = c.color where
  refl _ := rfl
  trans h h' := h'.trans h
  phase _ _ := rfl
  allocate _ _ _ := rfl
  temporaries _ _ := rfl
  indices _ _ := rfl
  bindings _ _ := rfl
  uv _ _ := rfl
  uvCode _ _ := rfl
  rows _ _ _ := rfl

end Compile

namespace NodeSet

section

variable [Scalar α] (s : NodeSet α)

/-- The states of a compilation behind its vertex code: texture code is asked for, the code is
finished, and frames are staged, in any order and whether that is refused or not. -/
inductive Follows (c : Compilation α) : Compilation α → Prop where
  /-- The state itself. -/
  | refl : Follows c c
  /-- Texture code is asked for. -/
  | uvCode {d : Compilation α} (source target : String) :
    Follows c d → Follows c (d.after (s.uvCode source target))
  /-- The code is finished. -/
  | finish {d : Compilation α} : Follows c d → Follows c (d.after finish)
  /-- A frame is staged. -/
  | activate {d : Compilation α} (frame : Frame α) :
    Follows c d → Follows c (d.after (s.activate frame))

variable {s}

/-- Nothing that follows changes the registers of the colors. -/
theorem Follows.color {c d : Compilation α} (hs : s.Modest) (h : s.Follows c d) :
    d.color = c.color := by
  induction h with
  | refl => rfl
  | @uvCode d source target _ ih => exact (lenient_color.request hs source target d).trans ih
  | @finish d _ ih => exact (lenient_color.finish d).trans ih
  | @activate d frame _ ih => exact (lenient_color.activate hs frame d).trans ih

end

end NodeSet

end ParticleShader
