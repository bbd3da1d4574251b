import ParticleShader.Text.Numeral

/-!
# Command line arguments

The syntax of arguments. A switch is written `--name`, or `-x` with its letter;
letters may be joined. A value is the next argument or is attached, by `=` or
directly behind a letter; only an attached value may begin with `-`. Behind `--`
everything is plain. Arguments are taken one after the other and the first that
is not understood, or that asks for help, decides.
-/

namespace ParticleShader.Command

/-- Why arguments do not make a request. -/
inductive Refusal where
  /-- The arguments are wrong. -/
  | usage
  /-- The arguments ask for help or for the version. -/
  | help
deriving DecidableEq, Repr

/-- What a switch does to settings of type `σ`. -/
inductive Action (σ : Type) where
  /-- It stands alone. -/
  | flag (apply : σ → σ)
  /-- It takes a value, which may be refused. -/
  | value (apply : String → σ → Option σ)
  /-- It asks for help. -/
  | help

/-- A switch. -/
structure Switch (σ : Type) where
  /-- Its name. -/
  name : String
  /-- Its letter. -/
  letter : Option Char := none
  /-- Whether it may be given more than once. -/
  repeatable : Bool := false
  /-- What it does. -/
  action : Action σ

/-- An argument by its form. -/
inductive Argument where
  /-- The end of the switches. -/
  | terminator
  /-- The name of a switch, with a value if one is attached. -/
  | named (name : List Char) (value : Option (List Char))
  /-- Letters of switches. -/
  | letters (letters : List Char)
  /-- Anything else. -/
  | plain (text : String)
deriving DecidableEq, Repr

/-- The form of an argument. A single `-` is plain. -/
def Argument.ofText (text : String) : Argument :=
  match text.toList with
  | ['-', '-'] => .terminator
  | '-' :: '-' :: rest =>
    .named (rest.takeWhile (· != '=')) ((rest.dropWhile (· != '=')).tail?)
  | '-' :: c :: rest => .letters (c :: rest)
  | _ => .plain text

/-- Whether an argument may be the value of the switch before it. -/
def Argument.isValue (text : String) : Bool := Argument.ofText text = .plain text

/-- How far arguments are understood. -/
structure Progress (σ : Type) where
  /-- The settings. -/
  settings : σ
  /-- The names of the switches that were given. -/
  given : List String := []
  /-- The plain arguments. -/
  plain : List String := []

namespace Progress

variable {σ : Type}

/-- Notes that a switch is given. -/
def note (p : Progress σ) (s : Switch σ) : Except Refusal (Progress σ) :=
  if !s.repeatable && p.given.contains s.name then .error .usage
  else .ok { p with given := s.name :: p.given }

/-- Takes a switch with its value. -/
def takeValue (p : Progress σ) (s : Switch σ) (text : String) : Except Refusal (Progress σ) := do
  let p ← p.note s
  match s.action with
  | .value apply =>
    match apply text p.settings with
    | some settings => return { p with settings }
    | none => throw .usage
  | _ => throw .usage

/-- Takes a switch that stands alone. -/
def takeFlag (p : Progress σ) (s : Switch σ) (apply : σ → σ) : Except Refusal (Progress σ) := do
  let p ← p.note s
  return { p with settings := apply p.settings }

/-- Takes a switch by name. The result has the switch that still wants a value. -/
def takeNamed (switches : List (Switch σ)) (p : Progress σ) (name : List Char)
    (value : Option (List Char)) : Except Refusal (Progress σ × Option (Switch σ)) :=
  match switches.find? (·.name == String.ofList name) with
  | none => .error .usage
  | some s =>
    match s.action, value with
    | .help, none => .error .help
    | .flag apply, none => do return (← p.takeFlag s apply, none)
    | .value _, none => .ok (p, some s)
    | .value _, some value => do return (← p.takeValue s (String.ofList value), none)
    | _, some _ => .error .usage

/-- Takes joined letters. The result has the switch that still wants a value. -/
def takeLetters (switches : List (Switch σ)) (p : Progress σ) :
    List Char → Except Refusal (Progress σ × Option (Switch σ))
  | [] => .ok (p, none)
  | c :: rest =>
    match switches.find? (·.letter == some c) with
    | none => .error .usage
    | some s =>
      match s.action with
      | .help => .error .help
      | .flag apply => do takeLetters switches (← p.takeFlag s apply) rest
      | .value _ =>
        match rest with
        | [] => .ok (p, some s)
        | '=' :: value => do return (← p.takeValue s (String.ofList value), none)
        | value => do return (← p.takeValue s (String.ofList value), none)

/-- Takes a plain argument, which `accepts` has to allow in its place. -/
def takePlain (accepts : Nat → String → Bool) (p : Progress σ) (text : String) :
    Except Refusal (Progress σ) :=
  if accepts p.plain.length text then .ok { p with plain := p.plain ++ [text] }
  else .error .usage

/-- Takes all arguments. -/
def takeAll (switches : List (Switch σ)) (accepts : Nat → String → Bool) (p : Progress σ) :
    List String → Except Refusal (Progress σ)
  | [] => .ok p
  | text :: rest =>
    let continue? (step : Except Refusal (Progress σ × Option (Switch σ))) :=
      match step, rest with
      | .error refusal, _ => .error refusal
      | .ok (p, none), rest => takeAll switches accepts p rest
      | .ok (_, some _), [] => .error .usage
      | .ok (p, some s), value :: rest =>
        if Argument.isValue value then do
          takeAll switches accepts (← p.takeValue s value) rest
        else .error .usage
    match Argument.ofText text with
    | .terminator => rest.foldlM (takePlain accepts) p
    | .named name value => continue? (takeNamed switches p name value)
    | .letters letters => continue? (takeLetters switches p letters)
    | .plain text => do takeAll switches accepts (← p.takePlain accepts text) rest

end Progress

end ParticleShader.Command
