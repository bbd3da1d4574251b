import ParticleShader.Fault

/-!
# Failures

Why a command failed: a cause, and what was being done when it arose, the widest
activity first.
-/

namespace ParticleShader

/-- What made a command fail. -/
inductive Cause where
  /-- A fault of the library. -/
  | fault (fault : Fault)
  /-- A description that makes no sense. -/
  | unsound (reason : String)
  /-- A file that cannot be read or written. -/
  | file
  /-- A text that is no description. -/
  | malformed
deriving DecidableEq, Repr

/-- A cause and the activities around it. -/
structure Failure where
  /-- The activities, the widest first. -/
  context : List String := []
  /-- The cause. -/
  cause : Cause
deriving DecidableEq, Repr

namespace Failure

/-- The failure within a wider activity. -/
def during (activity : String) (f : Failure) : Failure :=
  { f with context := activity :: f.context }

/-- The failure that a fault is. -/
def ofFault (fault : Fault) : Failure := { cause := .fault fault }

/-- The failure that a fault is within an activity. -/
def faultDuring (activity : String) (fault : Fault) : Failure := (ofFault fault).during activity

/-- The activities and the cause in words. A file or a text that is refused has no
words of its own. -/
def chain (f : Failure) : List String :=
  f.context ++
    match f.cause with
    | .fault fault => [fault.message]
    | .unsound reason => [reason]
    | .file | .malformed => []

end Failure

end ParticleShader
