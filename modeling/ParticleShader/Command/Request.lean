import ParticleShader.Command.Arguments
import ParticleShader.Decimal.Literal
import ParticleShader.Geometry.Builder
import ParticleShader.Profile

/-!
# Requests

What a user can ask for on the command line: to compile a set, to generate its
data, to show its layout, or to complete commands in a shell.
-/

namespace ParticleShader.Command

/-- How a set is compiled. -/
structure CompileOptions where
  /-- The registers to copy, the vertex first. -/
  sources : List String := []
  /-- The registers to copy them to. -/
  targets : List String := []
  /-- The attribute with the texture coordinates. -/
  uvSource : String := "va1"
  /-- The varying for the texture coordinates. -/
  uvTarget : String := "v0"
  /-- The register with the shaded color. -/
  shaded : String := "ft0"
  /-- The profile, if not the one of the description. -/
  profile : Option Profile := none
  /-- The frame time to stage constants for. -/
  time : Option Float32 := none

/-- How data is generated. -/
structure GenerateOptions where
  /-- The number of particles. -/
  particles : Nat := 16
  /-- The number of vertices of a particle. -/
  vertices : Nat := 4
  /-- The largest number of vertices of a partition. -/
  capacity : Nat := GeometryBuilder.defaultCapacity
  /-- The time between the starts of two particles. -/
  interval : Float32 := Float32.ofNat 0
  /-- The life of a particle. -/
  duration : Float32 := Float32.ofNat 1000
  /-- The file for the data. -/
  output : Option String := none
  /-- Whether to show the record of every particle. -/
  dump : Bool := false

/-- What a user asks for. -/
inductive Request where
  /-- The code of a set. -/
  | compile (path : String) (options : CompileOptions)
  /-- The data of a set. -/
  | generate (path : String) (options : GenerateOptions)
  /-- The layout of a set. -/
  | info (path : String)
  /-- The completions for a shell. -/
  | completions (shell : String)

namespace Request

/-! ### Values -/

/-- A value that a switch stores. -/
def store {σ β : Type} (read? : String → Option β) (put : β → σ → σ) : Action σ :=
  .value fun text settings => (read? text).map (put · settings)

/-- Any text. -/
def text? : String → Option String := some

/-- A path, which may not be empty. -/
def path? (text : String) : Option String := if text.isEmpty then none else some text

/-- A size. -/
def size? (text : String) : Option Nat := Text.numeral? Size.bound text.toList

/-! ### Switches -/

/-- The switches that are known everywhere. Their effect on messages is the only
one they have. -/
def commonSwitches {σ : Type} : List (Switch σ) :=
  [{ name := "verbose", letter := some 'v', repeatable := true, action := .flag fun s => s },
   { name := "quiet", letter := some 'q', action := .flag fun s => s },
   { name := "help", letter := some 'h', action := .help }]

/-- The switches before the command. -/
def rootSwitches : List (Switch Unit) :=
  { name := "version", letter := some 'V', action := .help } :: commonSwitches

/-- The switches of compiling. -/
def compileSwitches : List (Switch CompileOptions) :=
  [{ name := "source", repeatable := true
     action := store text? fun r s => { s with sources := s.sources ++ [r] } },
   { name := "target", repeatable := true
     action := store text? fun r s => { s with targets := s.targets ++ [r] } },
   { name := "uv-source", action := store text? fun r s => { s with uvSource := r } },
   { name := "uv-target", action := store text? fun r s => { s with uvTarget := r } },
   { name := "shaded", action := store text? fun r s => { s with shaded := r } },
   { name := "profile", action := store Profile.ofText? fun p s => { s with profile := some p } },
   { name := "time", action := store Decimal.binary32? fun t s => { s with time := some t } }] ++
  commonSwitches

/-- The switches of generating. -/
def generateSwitches : List (Switch GenerateOptions) :=
  [{ name := "particles", letter := some 'n'
     action := store size? fun n s => { s with particles := n } },
   { name := "vertices", letter := some 'k'
     action := store size? fun n s => { s with vertices := n } },
   { name := "max-vertices", action := store size? fun n s => { s with capacity := n } },
   { name := "interval"
     action := store Decimal.binary32? fun t s => { s with interval := t } },
   { name := "duration"
     action := store Decimal.binary32? fun t s => { s with duration := t } },
   { name := "output", letter := some 'o'
     action := store path? fun path s => { s with output := some path } },
   { name := "dump", action := .flag fun s => { s with dump := true } }] ++
  commonSwitches

/-! ### Requests -/

/-- The shells that can complete commands. -/
def shells : List String := ["bash", "elvish", "fish", "powershell", "zsh"]

/-- The commands that help can be asked about. -/
def commands : List String := ["compile", "generate", "info", "completions", "help"]

/-- The settings and the single plain argument of a command. -/
def withOne {σ : Type} (switches : List (Switch σ)) (accepts : String → Bool) (settings : σ)
    (args : List String) : Except Refusal (σ × String) := do
  let p ← Progress.takeAll switches (fun place text => place = 0 && accepts text) { settings } args
  match p.plain with
  | [text] => return (p.settings, text)
  | _ => throw .usage

/-- The request of a command with its arguments. -/
def ofCommand (command : String) (args : List String) : Except Refusal Request := do
  let isPath (text : String) : Bool := !text.isEmpty
  match command with
  | "compile" =>
    let (options, path) ← withOne compileSwitches isPath {} args
    let orDefault (names : List String) (name : String) := if names.isEmpty then [name] else names
    return .compile path
      { options with sources := orDefault options.sources "va0"
                     targets := orDefault options.targets "vt0" }
  | "generate" =>
    let (options, path) ← withOne generateSwitches isPath {} args
    return .generate path options
  | "info" =>
    let (_, path) ← withOne commonSwitches isPath () args
    return .info path
  | "completions" =>
    let (_, shell) ← withOne commonSwitches shells.contains () args
    return .completions shell
  | "help" =>
    match args with
    | [] => throw .help
    | [topic] => if commands.contains topic then throw .help else throw .usage
    | _ => throw .usage
  | _ => throw .usage

/-- The request of all arguments: switches, a command, and its arguments. -/
def ofArguments (p : Progress Unit) : List String → Except Refusal Request
  | [] => .error .usage
  | text :: rest =>
    let continue? (step : Except Refusal (Progress Unit × Option (Switch Unit))) :=
      match step with
      | .ok (p, none) => ofArguments p rest
      | .ok (_, some _) => .error .usage
      | .error refusal => .error refusal
    match Argument.ofText text with
    | .terminator => .error .usage
    | .named name value => continue? (p.takeNamed rootSwitches name value)
    | .letters letters => continue? (p.takeLetters rootSwitches letters)
    | .plain command => ofCommand command rest

/-- The request that arguments make. -/
def parse (args : List String) : Except Refusal Request := ofArguments { settings := () } args

end Request

end ParticleShader.Command
