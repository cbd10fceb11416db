import BuildAhead.CommandLine.Reader
import BuildAhead.Collection.Dict

set_option autoImplicit false

/-!
# Command line: commands

The commands of the program with their options, and the options that stand before a command and say
how the program logs.
-/

namespace BuildAhead

/-- What the program is asked to do. -/
inductive Command where
  /-- run a build -/
  | run (application output : Files.Path) (config : Option Files.Path) (package : Option String)
    (runtime : Option Profile)
  /-- list the modules of a profile -/
  | modules (runtime : Profile) (format : String)
  /-- write a sample configuration -/
  | exportConfig (runtime : Profile) (file : Files.Path)
  deriving DecidableEq, Repr, Inhabited

namespace Command

/-- The configuration file that a command reads. -/
def configFile? : Command → Option Files.Path
  | .run _ _ config _ _ => config
  | _ => none

/-- The name of a command. -/
def name : Command → String
  | .run .. => "run"
  | .modules .. => "modules"
  | .exportConfig .. => "export-config"

end Command

/-- The options before a command. -/
structure LogOptions where
  verbose : Bool := false
  level : Option String := none
  format : Option String := none
  output : Option String := none
  file : Option Files.Path := none
  deriving DecidableEq, Repr, Inhabited

/-- A command line that was read. -/
structure Invocation where
  log : LogOptions
  command : Command
  deriving DecidableEq, Repr, Inhabited

namespace CommandLine

/-- The options of `run`. -/
def runLevel : Level where
  options :=
    [{ name := "application", takes := some .path, required := true },
      { name := "output", takes := some .path, required := true },
      { name := "config", takes := some .path },
      { name := "package" },
      { name := "runtime", takes := some .profile }]

/-- The options of `modules`. -/
def modulesLevel : Level where
  options := [{ name := "runtime", takes := some .profile }, { name := "format" }]

/-- The options of `export-config`. -/
def exportLevel : Level where
  options :=
    [{ name := "runtime", takes := some .profile, required := true },
      { name := "file", takes := some .path, required := true }]

/-- The commands with their levels. -/
def commandLevels : List (String × Level) :=
  [("run", runLevel), ("modules", modulesLevel), ("export-config", exportLevel)]

/-- The command that asks for help about the others. -/
def helpCommand : String := helpName

/-- What may stand before a command, and the commands. -/
def rootLevel : Level where
  options :=
    [{ name := "verbose", takes := none },
      { name := "log-level" },
      { name := "log-format" },
      { name := "log-output" },
      { name := "log-file", takes := some .path }]
  commands := commandLevels.map (·.1) ++ [helpCommand]

/-- The value of an option. -/
def value? (g : Given) (name : String) : Option String := Dict.lookup name g

/-- The profile of an option. -/
def profile? (g : Given) (name : String) : Option Profile := (value? g name).bind Profile.parse?

/-- The value of an option that is required. -/
def required {α : Type} (get : Given → String → Option α) (g : Given) (name : String) :
    Except UsageError α :=
  match get g name with
  | some a => .ok a
  | none => .error (.missingRequired name)

/-- What `help` asks for, followed by the arguments behind it: the name of one command at most. -/
def helpFor (arguments : List String) : UsageError :=
  match arguments with
  | [] => .help
  | a :: rest =>
    if rootLevel.commands.contains a then
      match rest with
      | [] => .help
      | b :: _ => .invalidCommand b
    else .invalidCommand a

/-- Reads a command with the arguments behind it. -/
def readCommand (name : String) (arguments : List String) : Except UsageError Command := do
  match Dict.lookup name commandLevels with
  | none => throw (helpFor arguments)
  | some level =>
    let g ← level.readAll arguments
    if name = "run" then
      return .run (← required value? g "application") (← required value? g "output")
        (value? g "config") (value? g "package") (profile? g "runtime")
    else if name = "modules" then
      return .modules ((profile? g "runtime").getD .jit) ((value? g "format").getD "text")
    else
      return .exportConfig (← required profile? g "runtime") (← required value? g "file")

/-- The log options among what was given before a command. -/
def logOptions (g : Given) : LogOptions where
  verbose := (value? g "verbose").isSome
  level := value? g "log-level"
  format := value? g "log-format"
  output := value? g "log-output"
  file := value? g "log-file"

/-- Reads a command line, without the name of the program. The faults of a command come before those
of the last option in front of it. -/
def parse (arguments : List String) : Except UsageError Invocation := do
  match ← rootLevel.read {} arguments with
  | (r, some (name, rest)) =>
    let command ← readCommand name rest
    let r ← r.settle
    return ⟨logOptions r.given, command⟩
  | (r, none) =>
    let r ← r.settle
    throw (if r.given.isEmpty then .helpForNothing else .missingCommand)

example :
    (parse ["--verbose", "modules", "--runtime=AOT"]).toOption =
      some ⟨{ verbose := true }, .modules .native "text"⟩ := by
  decide +kernel

end CommandLine

end BuildAhead
