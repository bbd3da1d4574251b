import ParticleShader.Description
import ParticleShader.Json.Number
import ParticleShader.Json.Reader

/-!
# Reading descriptions

A description is an object of JSON, and so are its parts; each may also be an
array of its fields in order. Members that are not known are not looked at, a
known member may not repeat, and `null` stands for a missing value only where a
value may be missing.

A node is first taken as a whole: all of its numbers and strings have to be
readable, and it may not be nested too deeply. Its member `type` says which other
members are known.
-/

namespace ParticleShader.Description

open Json (Name)

/-! ### Members -/

/-- The member with a name, which may not repeat. -/
def member? (members : List (Name × Json)) (name : String) : Option (Option Json) :=
  match members.filter (·.1 == some name) with
  | [] => some none
  | [(_, value)] => some (some value)
  | _ => none

/-- The known members of an object, in the order of `known`. All names have to be
readable. -/
def knownMembers? (known : List String) (members : List (Name × Json)) :
    Option (List (Option Json)) :=
  if members.all (·.1.isSome) then known.mapM (member? members) else none

/-- The fields of a part, from an object or from an array whose last items may be
missing. -/
def fields? (known : List String) : Json → Option (List (Option Json))
  | .object members => knownMembers? known members
  | .array items =>
    if items.length ≤ known.length then
      some (items.map some ++ List.replicate (known.length - items.length) none)
    else none
  | _ => none

/-- A field that has a value of its own when it is missing. -/
def field? {β : Type} (value : β) (read? : Json → Option β) : Option Json → Option β
  | none => some value
  | some json => read? json

/-- A field that may be missing or `null`. -/
def optional? {β : Type} (read? : Json → Option β) : Option Json → Option (Option β)
  | none | some .null => some none
  | some json => (read? json).map some

/-- A field that may not be missing. -/
def required? {β : Type} (read? : Json → Option β) (field : Option Json) : Option β :=
  field.bind read?

/-! ### Values -/

/-- A truth value. -/
def bool? : Json → Option Bool
  | .bool b => some b
  | _ => none

/-- An integer from zero on and below `bound`. -/
def count? (bound : Nat) : Json → Option Nat
  | .number n => (n.integer?.bind Int.toNat?).filter (· < bound)
  | _ => none

/-- A size. -/
def size? : Json → Option Nat := count? Size.bound

/-- A size of a sprite sheet. -/
def cells? : Json → Option Nat := count? (Nat.pow 2 32)

/-- A binary32 value. -/
def scalar? : Json → Option Float32
  | .number n => n.binary32?
  | _ => none

/-- An array of binary32 values. -/
def scalars? : Json → Option (List Float32)
  | .array items => items.mapM scalar?
  | _ => none

/-- A vector of three coordinates. -/
def vec3? (json : Json) : Option (Vec3 Float32) :=
  match scalars? json with
  | some [x, y, z] => some ⟨x, y, z⟩
  | _ => none

/-- A vector of four coordinates. -/
def vec4? (json : Json) : Option (Vec4 Float32) :=
  match scalars? json with
  | some [x, y, z, w] => some ⟨x, y, z, w⟩
  | _ => none

/-- The value `null`. -/
def isNull : Json → Bool
  | .null => true
  | _ => false

/-- The value `null` or the empty object. -/
def isVoid : Json → Bool
  | .null | .object [] => true
  | _ => false

/-- One of some names, alone or as the only member of an object, with a value that
says nothing. -/
def oneOf? {β : Type} (nothing : Json → Bool) (named : List (String × β)) : Json → Option β
  | .string (some name) => named.lookup name
  | .object [(some name, value)] => if nothing value then named.lookup name else none
  | _ => none

/-- A profile. -/
def profile? : Json → Option Profile :=
  oneOf? isNull <| [Profile.baseline, .baselineExtended, .standard].map fun p => (p.name, p)

/-- Where parameters are kept. -/
def mode? : Json → Option Mode :=
  oneOf? isVoid
    [("global", .global), ("local_static", .perParticle .baked),
     ("local_dynamic", .perParticle .dynamic)]

/-- A texture axis. -/
def axis? : Json → Option UvAxis := oneOf? isVoid [("u", .u), ("v", .v)]

/-- A color transform. -/
def colorTransform? (json : Json) : Option (ColorTransform Float32) := do
  match ← fields? ["multiplier", "offset"] json with
  | [multiplier, offset] => return ⟨← required? vec4? multiplier, ← required? vec4? offset⟩
  | _ => none

/-! ### Nodes -/

/-- How deeply arrays and objects may be nested in a description. -/
def deepest : Nat := 127

/-- Whether all numbers and strings of a value can be read and at most `room`
arrays and objects are nested in it. -/
def sound : Nat → Json → Bool
  | _, .null | _, .bool _ => true
  | _, .number n => n.inRange
  | _, .string s => s.isSome
  | 0, .array _ | 0, .object _ => false
  | room + 1, .array items => items.all (sound room)
  | room + 1, .object members => members.all fun (name, value) => name.isSome && sound room value

/-- The members that are known for each type of node. -/
def membersOf? : String → Option (List String)
  | "position" | "velocity" | "acceleration" => some ["mode", "value"]
  | "scale" => some ["mode", "min", "max", "cycle", "phase"]
  | "rotational_velocity" => some ["mode", "axis", "period"]
  | "rotate_to_heading" | "follow" => some []
  | "billboard" => some ["axis"]
  | "uv" => some ["mode", "axis", "cycle", "scale"]
  | "sprite_sheet" => some ["columns", "rows", "total_frames", "cycle", "phase"]
  | "color" => some ["mode", "multiplier", "offset", "start", "end", "cycle", "phase"]
  | _ => none

/-- The node of a type with the given fields. -/
def nodeOf? : String → List (Option Json) → Option (NodeSpec Float32)
  | "position", [mode, value] => return .position (← optional? mode? mode) (← optional? vec3? value)
  | "velocity", [mode, value] => return .velocity (← optional? mode? mode) (← optional? vec3? value)
  | "acceleration", [mode, value] =>
    return .acceleration (← optional? mode? mode) (← optional? vec3? value)
  | "scale", [mode, least, greatest, cycle, phase] =>
    return .scale (← optional? mode? mode) (← optional? scalar? least)
      (← optional? scalar? greatest) (← optional? scalar? cycle) (← optional? scalar? phase)
  | "rotational_velocity", [mode, axis, period] =>
    return .rotationalVelocity (← optional? mode? mode) (← optional? vec3? axis)
      (← optional? scalar? period)
  | "rotate_to_heading", [] => some .rotateToHeading
  | "follow", [] => some .follow
  | "billboard", [axis] => return .billboard (← optional? vec3? axis)
  | "uv", [mode, axis, cycle, scale] =>
    return .uv (← optional? mode? mode) (← field? .u axis? axis) (← optional? scalar? cycle)
      (← optional? scalar? scale)
  | "sprite_sheet", [columns, rows, frames, cycle, phase] =>
    return .spriteSheet (← required? cells? columns) (← required? cells? rows)
      (← optional? cells? frames) (← optional? scalar? cycle) (← optional? scalar? phase)
  | "color", [mode, multiplier, offset, first, last, cycle, phase] =>
    return .color (← optional? mode? mode) (← field? true bool? multiplier)
      (← field? false bool? offset) (← optional? colorTransform? first)
      (← optional? colorTransform? last) (← optional? scalar? cycle) (← optional? scalar? phase)
  | _, _ => none

/-- A node: an object with the member `type`, or an array of the type and all
fields. It stands in two other values. -/
def node? (json : Json) : Option (NodeSpec Float32) :=
  if sound (deepest - 2) json then
    match json with
    | .object members => do
      match ← member? members "type" with
      | some (.string (some type)) =>
        nodeOf? type (← knownMembers? (← membersOf? type) members)
      | _ => none
    | .array (.string (some type) :: items) => do
      if items.length = (← membersOf? type).length then nodeOf? type (items.map some) else none
    | _ => none
  else none

/-! ### Descriptions -/

/-- How the particles live. -/
def lifecycle? (json : Json) : Option Lifecycle := do
  match ← fields? ["uses_duration", "uses_looping", "uses_delay"] json with
  | [duration, looping, delay] =>
    return { usesDuration := ← field? false bool? duration
             usesLooping := ← field? false bool? looping
             usesDelay := ← field? false bool? delay }
  | _ => none

/-- A pass. -/
def pass? (json : Json) : Option Pass := do
  match ← fields?
      ["vertex_constants", "vertex_attributes", "varyings", "fragment_constants",
       "need_fragment_animation", "need_uv_animation"] json with
  | [constants, attributes, varyings, fragmentConstants, fragment, uv] =>
    let taken : Pool.Counts :=
      { vertexAttributes := ← field? 0 size? attributes
        vertexConstants := ← field? 0 size? constants
        fragmentConstants := ← field? 0 size? fragmentConstants
        varyings := ← field? 0 size? varyings }
    return { taken
             fragmentAnimation := ← field? false bool? fragment
             uvAnimation := ← field? false bool? uv }
  | _ => none

/-- The nodes of a description. -/
def nodes? : Json → Option (List (NodeSpec Float32))
  | .array items => items.mapM node?
  | _ => none

/-- A description. -/
def ofJson? (json : Json) : Option (Description Float32) := do
  match ← fields? ["settings", "pass", "profile", "nodes"] json with
  | [settings, pass, profile, nodes] =>
    return { lifecycle := ← field? {} lifecycle? settings
             pass := ← field? {} pass? pass
             profile := ← field? .baseline profile? profile
             nodes := ← field? [] nodes? nodes }
  | _ => none

/-- The description that a text writes. -/
def ofText? (text : String) : Option (Description Float32) := (Json.ofText? text).bind ofJson?

end ParticleShader.Description
