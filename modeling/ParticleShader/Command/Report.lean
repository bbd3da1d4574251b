import ParticleShader.Command.Place
import ParticleShader.Decimal.Binary32
import ParticleShader.Description.Reader

/-!
# Reports

What a command prints, the file it writes, and how it fails. What was printed
before a failure stays printed.
-/

namespace ParticleShader.Command

/-- A file to be written. -/
structure OutputFile where
  /-- Where it goes. -/
  path : String
  /-- Its values in order. -/
  values : List Float32
  /-- What is printed when it is written. -/
  confirmation : String

/-- The effects of a command. -/
structure Report where
  /-- What is printed. -/
  printed : String := ""
  /-- The file to be written. -/
  file : Option OutputFile := none
  /-- How the command fails. -/
  failure : Option Failure := none

namespace Report

/-- The report of a command that fails at once. -/
def failed (failure : Failure) : Report := { failure := some failure }

/-- The report that is complete, given how the writing of its file ended. -/
def settle (r : Report) (writing : OutputFile → Writing) : Report :=
  match r.file with
  | none => r
  | some file =>
    match writing file with
    | .complete => { r with printed := r.printed ++ file.confirmation }
    | .refused =>
      { r with
        file := none
        failure := some { context := [s!"Failed to create {file.path}"], cause := .file } }
    | .cutOff => { r with file := none, failure := some { cause := .file } }

end Report

/-- Lines as they are printed. -/
def printLines (lines : List String) : String := String.join (lines.map (· ++ "\n"))

/-- The description in a file, whose contents are given if it can be read. -/
def load (path : String) (contents : Option String) : Except Failure (Description Float32) :=
  match contents with
  | none => .error { context := [s!"Failed to read {path}"], cause := .file }
  | some text =>
    match Description.ofText? text with
    | none => .error { context := [s!"Failed to parse animation set {path}"], cause := .malformed }
    | some description => .ok description

end ParticleShader.Command
