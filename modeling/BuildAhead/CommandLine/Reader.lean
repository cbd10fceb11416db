import BuildAhead.Files.Path
import BuildAhead.Profile

set_option autoImplicit false

/-!
# Command line: reading arguments

A level of a command line is a set of options and, perhaps, of commands, each of which begins a level
of its own. An option is written `--name value` or `--name=value` and may be given once. The value of
an option that stands apart is settled only when the next option is met, or at the end of the level:
until then its faults do not show, so a fault of a later argument can come first.

Two dashes alone end the options of a level. No level takes arguments besides its options and
commands.
-/

namespace BuildAhead.CommandLine

/-- What is wrong with a command line, or what else it asks for. -/
inductive UsageError where
  | unknownArgument (argument : String)
  /-- an option without a value, or with an empty path -/
  | invalidValue (name : String)
  /-- a value that is none of the possible ones -/
  | valueValidation (name value : String)
  | missingRequired (name : String)
  /-- an option that is given twice -/
  | argumentConflict (name : String)
  /-- a value for a switch -/
  | tooManyValues (name : String)
  | invalidCommand (argument : String)
  | missingCommand
  | help
  /-- nothing was given where a command is needed -/
  | helpForNothing
  deriving DecidableEq, Repr, Inhabited

/-- What the value of an option must be. -/
inductive ValueKind where
  | text
  /-- a path, which is not empty -/
  | path
  | profile
  deriving DecidableEq, Repr, Inhabited

/-- An option of a level. -/
structure OptionRule where
  name : String
  /-- what its value must be; a switch takes none -/
  takes : Option ValueKind := some .text
  required : Bool := false
  deriving DecidableEq, Repr, Inhabited

/-- The options and commands of a level. -/
structure Level where
  options : List OptionRule := []
  commands : List String := []
  deriving DecidableEq, Repr, Inhabited

/-- Options with their values, in the order in which they were given; a switch has no text. -/
abbrev Given : Type := List (String × String)

/-- An option whose value is not settled, with the value if there is one. -/
structure PendingOption where
  rule : OptionRule
  value : Option String := none
  deriving DecidableEq, Repr, Inhabited

/-- What was read of a level so far. -/
structure Reading where
  given : Given := []
  pending : Option PendingOption := none
  /-- whether two dashes have ended the options -/
  ended : Bool := false
  deriving DecidableEq, Repr, Inhabited

/-- A value is checked by its kind. -/
def ValueKind.check (name value : String) : ValueKind → Except UsageError Unit
  | .text => .ok ()
  | .path => if value.isEmpty then .error (.invalidValue name) else .ok ()
  | .profile =>
    match Profile.parse? value with
    | some _ => .ok ()
    | none => .error (.valueValidation name value)

namespace Reading

/-- Whether the option has been settled. -/
def has (r : Reading) (name : String) : Bool := r.given.any fun g => g.1 == name

/-- Whether the next argument is the value of an option. -/
def awaits (r : Reading) : Bool :=
  match r.pending with
  | some ⟨_, none⟩ => true
  | _ => false

/-- Enters an option with its value. -/
def accept (r : Reading) (rule : OptionRule) (value : String) : Except UsageError Reading := do
  if r.has rule.name then throw (.argumentConflict rule.name)
  match rule.takes with
  | some kind => kind.check rule.name value
  | none => pure ()
  return { r with given := r.given ++ [(rule.name, value)] }

/-- Settles the option that is pending. -/
def settle (r : Reading) : Except UsageError Reading :=
  match r.pending with
  | none => .ok r
  | some ⟨rule, none⟩ => .error (.invalidValue rule.name)
  | some ⟨rule, some value⟩ => accept { r with pending := none } rule value

end Reading

/-- The name of the switch that asks for help; every level has it. -/
def helpName : String := "help"

/-- The letter of the same switch. -/
def helpLetter : Char := 'h'

namespace Level

/-- The option of a name. -/
def option? (l : Level) (name : String) : Option OptionRule :=
  l.options.find? fun o => o.name == name

/-- Reads an argument that begins with two dashes: a name and perhaps a value behind an equals
sign. -/
def takeLong (l : Level) (r : Reading) (argument : String) : Except UsageError Reading :=
  let body := String.ofList (argument.toList.drop 2)
  let (name, value) :=
    match Text.splitFirst? '=' body with
    | some (name, value) => (name, some value)
    | none => (body, none)
  let rule? :=
    if name = helpName then some { name, takes := none } else l.option? name
  match rule? with
  | none => .error (.unknownArgument argument)
  | some rule =>
    match rule.takes, value with
    | none, some _ => .error (.tooManyValues name)
    | none, none => do
      let r ← r.settle
      if name = helpName then throw .help
      r.accept rule ""
    | some _, some value => do (← r.settle).accept rule value
    | some _, none => do return { ← r.settle with pending := some ⟨rule, none⟩ }

/-- Reads an argument that begins with one dash; only the letter for help is known. -/
def takeShort (r : Reading) (argument : String) : Except UsageError Reading :=
  match argument.toList with
  | _ :: c :: _ =>
    if c = helpLetter then do
      let _ ← r.settle
      throw .help
    else .error (.unknownArgument argument)
  | _ => .error (.unknownArgument argument)

/-- The fault of an argument that is neither an option nor a value. -/
def stray (l : Level) (r : Reading) (argument : String) : UsageError :=
  if l.commands.isEmpty then .unknownArgument argument
  else if r.ended && l.commands.contains argument then .unknownArgument argument
  else .invalidCommand argument

/-- Reads one argument that is no command. -/
def take (l : Level) (r : Reading) (argument : String) : Except UsageError Reading :=
  if r.ended then .error (l.stray r argument)
  else if argument = "--" then .ok { r with ended := true }
  else if Text.startsWith argument "--" then l.takeLong r argument
  else if Text.startsWith argument "-" && argument != "-" then takeShort r argument
  else
    match r.pending with
    | some ⟨rule, none⟩ => .ok { r with pending := some ⟨rule, some argument⟩ }
    | _ => .error (l.stray r argument)

/-- Whether an argument is a command here. -/
def isCommand (l : Level) (r : Reading) (argument : String) : Bool :=
  !r.ended && !r.awaits && l.commands.contains argument

/-- Reads arguments up to a command, or all of them. Answers the command with what is behind it. -/
def read (l : Level) (r : Reading) :
    List String → Except UsageError (Reading × Option (String × List String))
  | [] => .ok (r, none)
  | argument :: rest =>
    if l.isCommand r argument then .ok (r, some (argument, rest))
    else do l.read (← l.take r argument) rest

/-- The first required option that was not given. -/
def missing? (l : Level) (r : Reading) : Option OptionRule :=
  l.options.find? fun o => o.required && !r.has o.name

/-- Reads the arguments of a level without commands. -/
def readAll (l : Level) (arguments : List String) : Except UsageError Given := do
  let (r, _) ← l.read {} arguments
  let r ← r.settle
  match l.missing? r with
  | some o => throw (.missingRequired o.name)
  | none => return r.given

end Level

end BuildAhead.CommandLine
