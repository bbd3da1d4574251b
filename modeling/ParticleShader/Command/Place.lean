/-!
# Places

What the path of a file leads to. A path is followed step by step, from the root
if it begins with `/` and from the working directory otherwise. An empty step
and `.` stay, `..` goes up, and only the last step may name a file: a path that
ends in `/` leads to no file. The working directory holds files only; of the
other directories only those are known that every system has.
-/

namespace ParticleShader.Command

/-- What a path leads to. -/
inductive Place where
  /-- A file of the working directory, which may not be there yet. -/
  | file (name : String)
  /-- A file that is not there yet, in another directory that takes files. -/
  | scratch
  /-- The device that is empty and takes all bytes. -/
  | null
  /-- The device that takes no bytes. -/
  | full
  /-- Nothing that is a file or can become one. -/
  | nowhere
deriving DecidableEq, Repr

/-- A directory that is known. -/
inductive Directory where
  /-- The working directory. -/
  | working
  /-- The directory of the working directory. -/
  | above
  /-- The root. -/
  | root
  /-- The directory of the devices. -/
  | devices
  /-- The directory of files that do not last. -/
  | temporary
deriving DecidableEq, Repr

namespace Directory

/-- The directory that a step leads to. -/
def enter? : Directory → String → Option Directory
  | d, "" | d, "." => some d
  | working, ".." => some above
  | root, ".." | devices, ".." | temporary, ".." => some root
  | root, "dev" => some devices
  | root, "tmp" => some temporary
  | _, _ => none

/-- The longest name of a file, in bytes. -/
def longestName : Nat := 255

/-- What a name stands for in a directory. Standard input counts as empty. -/
def place (d : Directory) (name : String) : Place :=
  if name.utf8ByteSize ≤ longestName then
    match d, name with
    | _, ".." | root, _ => .nowhere
    | working, name => .file name
    | devices, "null" | devices, "stdin" => .null
    | devices, "full" => .full
    | devices, _ => .nowhere
    | above, _ | temporary, _ => .scratch
  else .nowhere

/-- Where steps lead. A directory is no file. -/
def follow : Directory → List String → Place
  | _, [] => .nowhere
  | d, step :: rest =>
    match d.enter? step with
    | some next => next.follow rest
    | none => if rest.isEmpty then d.place step else .nowhere

end Directory

namespace Place

/-- The longest path, in bytes. -/
def longestPath : Nat := 4095

/-- Where a path leads. -/
def ofPath (path : String) : Place :=
  let steps := (path.toList.splitOn '/').map String.ofList
  if path.utf8ByteSize ≤ longestPath ∧ '\x00' ∉ path.toList then
    (if path.toList.head? = some '/' then Directory.root else .working).follow steps
  else .nowhere

/-- What can be read at a place, given the files of the working directory. -/
def contents? (files : String → Option String) : Place → Option String
  | file name => files name
  | null => some ""
  | scratch | full | nowhere => none

end Place

/-- How the writing of a file ends. -/
inductive Writing where
  /-- All bytes are written. -/
  | complete
  /-- The file cannot be made. -/
  | refused
  /-- The file is made, but not all bytes can be written to it. -/
  | cutOff
deriving DecidableEq, Repr

/-- How writing some bytes to a place ends. -/
def Place.write (size : Nat) : Place → Writing
  | file _ | scratch | null => .complete
  | full => if size = 0 then .complete else .cutOff
  | nowhere => .refused

end ParticleShader.Command
