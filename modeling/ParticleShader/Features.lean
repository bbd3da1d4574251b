/-!
# Features

The switches of a compilation: what the nodes of a set contribute or need, and
what the material asks for. They are written as the bits of a word.
-/

namespace ParticleShader

/-- A set of switches. -/
structure Features where
  /-- A node animates texture coordinates. -/
  uvNode : Bool := false
  /-- The velocity is accumulated for other nodes to read. -/
  velocity : Bool := false
  /-- A node turns the particles towards the camera. -/
  billboard : Bool := false
  /-- A node multiplies the shaded color. -/
  colorMultiplier : Bool := false
  /-- A node adds to the shaded color. -/
  colorOffset : Bool := false
  /-- The material applies the animated color in its fragment program. -/
  fragmentAnimation : Bool := false
  /-- The material wants animated texture coordinates. -/
  uvAnimation : Bool := false
deriving DecidableEq, Repr

namespace Features

/-- The features that are in one of two sets. -/
def union (a b : Features) : Features where
  uvNode := a.uvNode || b.uvNode
  velocity := a.velocity || b.velocity
  billboard := a.billboard || b.billboard
  colorMultiplier := a.colorMultiplier || b.colorMultiplier
  colorOffset := a.colorOffset || b.colorOffset
  fragmentAnimation := a.fragmentAnimation || b.fragmentAnimation
  uvAnimation := a.uvAnimation || b.uvAnimation

instance : Union Features := ⟨union⟩

/-- The switches from the lowest bit up, with their names. -/
def named (f : Features) : List (String × Bool) :=
  [("HAS_UV_NODE", f.uvNode), ("NEED_VELOCITY", f.velocity), ("HAS_BILLBOARD", f.billboard),
   ("HAS_COLOR_MUL_NODE", f.colorMultiplier), ("HAS_COLOR_ADD_NODE", f.colorOffset),
   ("NEED_FRAGMENT_ANIMATION", f.fragmentAnimation), ("NEED_UV_ANIMATION", f.uvAnimation)]

/-- The word whose bits are the switches. -/
def toBits (f : Features) : Nat :=
  f.named.foldr (fun (_, on) high => 2 * high + on.toNat) 0

/-- The switches of a word; bits without a switch are dropped. -/
def ofBits (bits : Nat) : Features where
  uvNode := bits.testBit 0
  velocity := bits.testBit 1
  billboard := bits.testBit 2
  colorMultiplier := bits.testBit 3
  colorOffset := bits.testBit 4
  fragmentAnimation := bits.testBit 5
  uvAnimation := bits.testBit 6

/-- The names of the switches that are on. -/
def names (f : Features) : List String :=
  f.named.filterMap fun (name, on) => if on then some name else none

/-- The switches as a listing shows them. -/
def describe (f : Features) : String :=
  "CompilationFlags(" ++ (if f.names.isEmpty then "0x0" else " | ".intercalate f.names) ++ ")"

end Features

end ParticleShader
