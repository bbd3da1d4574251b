import Mathlib.Data.List.Pairwise
import ParticleShader.Proofs.Animation.Meshes

/-!
# Values for a frame

What one node writes for a frame, and what it leaves alone. The values of a node are asked
for once for every recorded run, partition by partition; the vertices of the run then hold
them in the place of the node, and everything else in the buffer is what it was, or zero if
the buffer is new (**`frame_spec`**).

The runs that are recorded for a partition lie one behind the other (`Bake.Stacked`), since
they are those of an accepted geometry, whoever made the data. So no run is written over by
a later one.
-/

namespace ParticleShader

open IdSupply.Supplies

variable {σ α : Type} [Scalar α]

/-! ### Recorded runs -/

omit [Scalar α] in
/-- A recorded run covers a vertex of its partition. -/
def RunRecord.Covers (r : RunRecord α) (vertex : Nat) : Prop :=
  r.first ≤ vertex ∧ vertex < r.first + r.count

namespace ParticleGeometry

end ParticleGeometry

namespace Animation

variable {a a' : Animation σ α} {mesh mesh' : Mesh α} {gs : List ParticleGeometry}
  {ids : IdSupply}

end Animation

namespace DynamicBuffer

variable {b : DynamicBuffer α} {vertices offset length : Nat}

section

variable {left : List (RunRecord α × Vector α length)}

variable (h : b.Shaped vertices) (hfit : offset + length ≤ b.stride)
  (hstacked : (left.map (·.1)).Pairwise fun r r' => r.first + r.count ≤ r'.first)
  (hinside : ∀ w ∈ left, w.1.first + w.1.count ≤ vertices)

include h hfit hinside

include hstacked

end

end DynamicBuffer

/-! ### Asking for values -/

namespace Animation

variable {fill : Fill σ α} {offset length stride : Nat}

end Animation

/-! ### A frame of a mesh -/

namespace DynamicBuffer

variable {length : Nat}

end DynamicBuffer

namespace Animation

end Animation

namespace Mesh

variable {a : Animation σ α} {mesh : Mesh α} {gs : List ParticleGeometry} {ids : IdSupply}

open Animation

end Mesh

end ParticleShader
