/-!
# Phases of a compilation

The steps that one compilation goes through, in the only order they may run.
-/

namespace ParticleShader

/-- A step of a compilation. -/
inductive Phase where
  /-- Nothing was compiled yet. -/
  | idle
  /-- The registers that all nodes share are allocated. -/
  | reset
  /-- The vertex is copied and the accumulators are cleared. -/
  | init
  /-- The nodes that work on the vertex before it is placed. -/
  | primary
  /-- The vertex is placed. -/
  | combine
  /-- The nodes that work on the placed vertex. -/
  | post
  /-- The color accumulators are allocated. -/
  | colorInit
  /-- The nodes that work on the color. -/
  | color
  /-- The color is handed to the fragment program. -/
  | colorCombine
  /-- All code is written and the constants can be staged. -/
  | done
  /-- The compilation was abandoned; it has to start again. -/
  | failed
deriving DecidableEq, Repr

namespace Phase

/-- The phase that follows. -/
def next : Phase → Option Phase
  | reset => some init
  | init => some primary
  | primary => some combine
  | combine => some post
  | post => some colorInit
  | colorInit => some color
  | color => some colorCombine
  | colorCombine => some done
  | idle | done | failed => none

/-- The name of a phase. -/
def name : Phase → String
  | idle => "Idle"
  | reset => "Reset"
  | init => "Init"
  | primary => "Primary"
  | combine => "Combine"
  | post => "Post"
  | colorInit => "ColorInit"
  | color => "Color"
  | colorCombine => "ColorCombine"
  | done => "Done"
  | failed => "Failed"

/-- All phases. -/
def all : List Phase :=
  [idle, reset, init, primary, combine, post, colorInit, color, colorCombine, done, failed]

/-- The phase with a name. -/
def ofName? (text : String) : Option Phase := all.find? (·.name == text)

/-- Whether a compilation in this phase was started and not abandoned. -/
def isActive : Phase → Bool
  | idle | failed => false
  | _ => true

end Phase

end ParticleShader
