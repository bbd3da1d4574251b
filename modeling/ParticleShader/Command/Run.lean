import ParticleShader.Command.Compile
import ParticleShader.Command.Generate
import ParticleShader.Command.Info

/-!
# Running a request

The report of a request, given the contents of the file that it names.
-/

namespace ParticleShader.Command

/-- The file that a request reads. -/
def Request.input? : Request → Option String
  | compile path _ | generate path _ | info path => some path
  | completions _ => none

/-- Runs a request. `contents` is the text of the file that it reads, if that can
be read; `sin` and `cos` are the functions that data is generated with. -/
def Request.run (sin cos : Float32 → Float32) (contents : Option String) : Request → Report
  | compile path options => described path fun d => Command.compile d options
  | generate path options => described path fun d => Command.generate sin cos d options
  | info path => described path fun d => Command.info path d
  | completions _ => {}
where
  /-- The report on the description in a file. -/
  described (path : String) (report : Description Float32 → Report) : Report :=
    match load path contents with
    | .error failure => .failed failure
    | .ok description => report description

/-- Runs a request in a working directory with the given files. -/
def Request.runAmong (sin cos : Float32 → Float32) (files : String → Option String)
    (request : Request) : Report :=
  let contents := request.input?.bind fun path => (Place.ofPath path).contents? files
  (request.run sin cos contents).settle fun file =>
    (Place.ofPath file.path).write (4 * file.values.length)

end ParticleShader.Command
