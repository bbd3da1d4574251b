import ParticleShader.Command.Report
import ParticleShader.Command.Request
import ParticleShader.NodeSet.Code

/-!
# Compiling a description

The code of a set, the registers it uses and, for a frame time, the streams to
bind and the constants.
-/

namespace ParticleShader.Command

variable {α : Type} [Scalar α]

/-- The program in its three parts. -/
structure CompiledCode where
  /-- The vertex program. -/
  vertex : Program
  /-- The texture code. -/
  uv : Program
  /-- The fragment code. -/
  fragment : Program

/-- A step of a compilation within an activity. -/
def within {β : Type} (activity : String) (step : Compile α β) :
    EStateM Failure (Compilation α) β :=
  step.adaptExcept (Failure.faultDuring activity)

/-- Writes all code of a set. -/
def writeCode (set : NodeSet α) (pass : Pass) (profile : Profile) (options : CompileOptions) :
    EStateM Failure (Compilation α) CompiledCode := do
  let vertex ← within "Vertex code generation failed"
    (set.vertexCode pass profile options.sources options.targets)
  let uv ← within "UV code generation failed" (set.uvCode options.uvSource options.uvTarget)
  let fragment ← within "Fragment code generation failed" do
    Compile.ofOutcome (NodeSet.fragmentCode (← get) options.shaded)
  Compile.finish.adaptExcept Failure.ofFault
  return { vertex, uv, fragment }

/-- The code and the registers that it uses. -/
def codeListing (code : CompiledCode) (profile : Profile) (used : Pool.Counts) : String :=
  "; vertex\n" ++ code.vertex.text ++ "; uv\n" ++ code.uv.text ++
    "; fragment\n" ++ code.fragment.text ++
    printLines
      [s!"; usage ({profile.name})",
       s!";   attribute streams:  {used.vertexAttributes}",
       s!";   vertex constants:   {used.vertexConstants}",
       s!";   fragment constants: {used.fragmentConstants}",
       s!";   varyings:           {used.varyings}"]

/-- The line of a stream. -/
def streamLine (set : NodeSet α) (b : StreamBinding) : String :=
  let buffer :=
    match b.buffer with
    | .baked => "static"
    | .dynamic => "dynamic"
  let name := ((set.node? b.node).map (·.behavior.name)).getD "?"
  s!";   va{b.register} <- {buffer}[{b.offset}..{b.offset + b.components}] ({name})"

/-- The lines of staged constants from register `first` on. -/
def constantLines (letters : String) (first : Nat) (rows : List (Vec4 α)) : List String :=
  rows.zipIdx.map fun (row, k) => s!";   {letters}{first + k} = {Scalar.listText row.toList}"

/-- The streams and the constants of a frame. -/
def frameListing (set : NodeSet α) (bindings : List StreamBinding) (time : α)
    (c : Compilation α) : String :=
  printLines <|
    "; streams" :: bindings.map (streamLine set) ++
    s!"; constants at t={Scalar.text time}" ::
      constantLines "vc" c.taken.vertexConstants c.vertexRows ++
      constantLines "fc" c.taken.fragmentConstants c.fragmentRows

/-- Compiles a description. -/
def compile (description : Description Float32) (options : CompileOptions) : Report :=
  match description.animation (σ := Unit) with
  | .error failure => .failed failure
  | .ok animation =>
    let set := animation.nodes
    let profile := options.profile.getD description.profile
    match writeCode set description.pass profile options { profile } with
    | .error failure _ => .failed failure
    | .ok code c =>
      let printed := codeListing code profile c.used
      match options.time with
      | none => { printed }
      | some time =>
        match within "Failed to stage constants" (set.activate (.at time)) c with
        | .error failure _ => { printed, failure := some failure }
        | .ok bindings c => { printed := printed ++ frameListing set bindings time c }

end ParticleShader.Command
