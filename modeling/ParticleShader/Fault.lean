import ParticleShader.Phase
import ParticleShader.Register.Name

/-!
# Faults

Everything that can go wrong while a set of nodes is assembled, compiled or
filled with data. A fault records its cause; `Fault.message` words it.
-/

namespace ParticleShader

/-- The handle of a node in its set. -/
abbrev NodeId := Nat

/-- A disagreement between runs of vertices and the partitions they lie in. -/
inductive GeometryFault where
  /-- A run of an earlier particle stands behind one of a later particle. -/
  | descending (particle previous : Nat)
  /-- A run points at a partition that does not exist. -/
  | missingPartition (particle partition : Nat)
  /-- A run does not begin where its partition is filled, or leaves it. -/
  | misplacedRun (particle first last partition filled : Nat)
  /-- Vertices are added to a particle before the last one. -/
  | addedLate (particle last : Nat)
  /-- A run is larger than what is left of a partition. -/
  | oversizedRun (vertices capacity : Nat)
  /-- A run does not begin where the data of its partition ends. -/
  | misplacedData (particle first partition filled : Nat)
  /-- A partition has no data yet. -/
  | noData (partition : Nat)
  /-- The data of a partition was made for another layout. -/
  | otherLayout (partition made used : Nat)
deriving DecidableEq, Repr

/-- Why a node cannot use the properties of a particle. Values are given by their
text. -/
inductive PropertyFault where
  /-- A particle has no positive duration. -/
  | duration (particle : Nat) (value : String)
  /-- A cycle has no positive duration. -/
  | cycle (value : String)
  /-- A rotation has no positive period. -/
  | period (value : String)
  /-- A rotation axis has no direction. -/
  | axis
deriving DecidableEq, Repr

/-- Why a node or a request does not go with a set. Values are given by their
text. -/
inductive SettingsFault where
  /-- The cycle of a sprite sheet has no positive duration. -/
  | spriteSheetCycle (value : String)
  /-- A sprite sheet without cycle is added to particles without duration. -/
  | spriteSheetDuration
  /-- The cycle of a color has no positive duration. -/
  | colorCycle (value : String)
  /-- A heading is asked for where no velocity is accumulated. -/
  | headingVelocity
  /-- Texture code was already written for other registers. -/
  | otherUvRegisters (source target : Register)
deriving DecidableEq, Repr

/-- Why register names are refused. -/
inductive NameFault where
  /-- A text names no register. -/
  | unreadable (text : String)
  /-- There is no source or no target. -/
  | noPair
  /-- There are not as many targets as sources. -/
  | unpaired (sources targets : Nat)
deriving DecidableEq, Repr

/-- What can go wrong. -/
inductive Fault where
  /-- Data is asked for before an initializer is installed. -/
  | missingInitializer
  /-- The geometry of a mesh has no particles. -/
  | notParticleGeometry
  /-- The geometry of a mesh has no vertices. -/
  | emptyGeometry
  /-- Runs and partitions disagree. -/
  | geometryMismatch (cause : GeometryFault)
  /-- A particle lacks a property that a node reads. -/
  | missingProperty (node property : String)
  /-- A property has a value that a node cannot use. -/
  | invalidProperty (node : String) (cause : PropertyFault)
  /-- A node or a request does not go with the set. -/
  | invalidConfiguration (cause : SettingsFault)
  /-- A pool has fewer registers than are needed. -/
  | registerOverflow (kind : Register.Kind) (requested limit : Nat)
  /-- Register names are refused. -/
  | invalidRegister (cause : NameFault)
  /-- A text names no profile. -/
  | unknownProfile (text : String)
  /-- A phase is entered out of turn. -/
  | phaseOrder (expected found : Phase)
  /-- Nothing is being compiled. -/
  | notCompiled
  /-- A constant is written that is not staged. -/
  | constantOutOfRange (index : Nat)
  /-- A node does not provide an operation. -/
  | unimplemented (node operation : String)
  /-- A handle names no suitable node of a set. -/
  | unknownNode (node : NodeId)
  /-- A size does not fit in a word. -/
  | sizeOverflow
deriving DecidableEq, Repr

namespace GeometryFault

/-- The cause in words. -/
def message : GeometryFault → String
  | descending particle previous => s!"particle {particle} follows particle {previous}"
  | missingPartition particle partition =>
    s!"particle {particle} points at missing partition {partition}"
  | misplacedRun particle first last partition filled =>
    s!"particle {particle} run {first}..{last} does not continue partition {partition} " ++
      s!"at vertex {filled}"
  | addedLate particle last => s!"particle {particle} added after particle {last}"
  | oversizedRun vertices capacity =>
    s!"run of {vertices} vertices overflows a partition of {capacity}"
  | misplacedData particle first partition filled =>
    s!"particle {particle} starts at vertex {first} of partition {partition}, expected {filled}"
  | noData partition => s!"no animation data generated for partition {partition}"
  | otherLayout partition made used =>
    s!"partition {partition} was generated for dynamic stride {made}, set uses {used}"

end GeometryFault

namespace PropertyFault

/-- The cause in words. -/
def message : PropertyFault → String
  | duration particle value => s!"particle {particle} has non-positive duration {value}"
  | cycle value => s!"cycle duration must be positive, got {value}"
  | period value => s!"rotation period must be positive, got {value}"
  | axis => "rotation axis must not be zero"

end PropertyFault

namespace SettingsFault

/-- The cause in words. -/
def message : SettingsFault → String
  | spriteSheetCycle value => s!"sprite sheet cycle duration must be positive, got {value}"
  | spriteSheetDuration => "a sprite sheet without cycle needs an animation set using duration"
  | colorCycle value => s!"color cycle duration must be positive, got {value}"
  | headingVelocity => "rotate_to_heading needs the velocity register"
  | otherUvRegisters source target =>
    s!"UV code was already generated for {source.name} -> {target.name}"

end SettingsFault

namespace NameFault

/-- The cause in words. -/
def message : NameFault → String
  | unreadable text => text
  | noPair => "at least one source and one target register are required"
  | unpaired sources targets => s!"{sources} source registers but {targets} target registers"

end NameFault

namespace Fault

/-- The fault in words. -/
def message : Fault → String
  | missingInitializer =>
    "no particle initializer set: call set_initializer before generating animation data"
  | notParticleGeometry => "particle animation can only be performed on particle geometry"
  | emptyGeometry => "particle geometry must contain at least one vertex"
  | geometryMismatch cause => s!"geometry mismatch: {cause.message}"
  | missingProperty node property =>
    s!"node {node} requires particle property '{property}' but the initializer did not set it"
  | invalidProperty node cause => s!"invalid property for node {node}: {cause.message}"
  | invalidConfiguration cause => s!"invalid configuration: {cause.message}"
  | registerOverflow kind requested limit =>
    s!"register overflow: {kind.description} registers exhausted " ++
      s!"(needed {requested}, limit {limit})"
  | invalidRegister cause => s!"invalid register: '{cause.message}'"
  | unknownProfile text => s!"unknown shader profile: '{text}'"
  | phaseOrder expected found =>
    s!"compilation phase order violated: expected {expected.name}, got {found.name}"
  | notCompiled => "no compilation in progress"
  | constantOutOfRange index => s!"constant register {index} is outside the staged constant data"
  | unimplemented node operation => s!"node {node} does not implement {operation}"
  | unknownNode node => s!"unknown node #{node}"
  | sizeOverflow => "a size exceeds the range of a word"

end Fault

/-- The register that a text names, or the fault that it names none. -/
def Register.ofName (text : String) : Except Fault Register :=
  match Register.ofName? text with
  | some r => .ok r
  | none => .error (.invalidRegister (.unreadable text))

end ParticleShader
