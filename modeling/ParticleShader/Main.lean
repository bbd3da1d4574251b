import ParticleShader.Command.Run

/-!
# The command line

Reads the file that the arguments name, runs the request, and prints its report.
-/

namespace ParticleShader.Command

/-- The contents of a file, if it can be read. -/
def readInput (path : String) : IO (Option String) := do
  try
    return some (← IO.FS.readFile path)
  catch _ => return none

/-- The bytes of a binary32 value, the lowest first. -/
def bytesOf (value : Float32) : List UInt8 :=
  let bits := value.toBits
  [bits.toUInt8, (bits >>> 8).toUInt8, (bits >>> 16).toUInt8, (bits >>> 24).toUInt8]

/-- Writes values to an open file. -/
def writeValues (handle : IO.FS.Handle) (values : List Float32) : IO Writing := do
  try
    handle.write (ByteArray.mk (values.flatMap bytesOf).toArray)
    handle.flush
    return .complete
  catch _ => return .cutOff

/-- Writes a file and tells how that ended. -/
def writeOutput (file : OutputFile) : IO Writing := do
  try writeValues (← IO.FS.Handle.mk file.path .write) file.values
  catch _ => return .refused

/-- Prints a failure, the cause below what was being done. -/
def printFailure (failure : Failure) : IO Unit := do
  match failure.chain with
  | [] => IO.eprintln "Error"
  | widest :: causes =>
    IO.eprintln ("Error: " ++ widest)
    unless causes.isEmpty do
      IO.eprintln "\nCaused by:"
      causes.forM fun cause => IO.eprintln ("    " ++ cause)

/-- What can be asked for. -/
def usage : String :=
  "Usage: particle-shader [-v...] [-q] <compile | generate | info | completions | help> [ARGUMENTS]"

end ParticleShader.Command

open ParticleShader.Command

/-- The program: its exit code tells wrong arguments and failures apart. -/
def main (args : List String) : IO UInt32 := do
  match Request.parse args with
  | .error .help =>
    IO.println usage
    return 0
  | .error .usage =>
    IO.eprintln usage
    return 2
  | .ok request =>
    let contents ← match request.input? with
      | some path => readInput path
      | none => pure none
    let report := request.run Float32.sin Float32.cos contents
    let writing ← report.file.mapM writeOutput
    let report := report.settle fun _ => writing.getD .complete
    IO.print report.printed
    match report.failure with
    | none => return 0
    | some failure =>
      printFailure failure
      return 1
