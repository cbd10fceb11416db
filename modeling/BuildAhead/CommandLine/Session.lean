import BuildAhead.CommandLine.Execution
import BuildAhead.Logging.Line

set_option autoImplicit false

/-!
# Command line: sessions

One run of the program, from its arguments to its exit code. The log is set up first, from the
configuration file of the command, the environment and the options before the command; a log that
cannot be set up ends the run. A command that fails prints its error and leaves exit code 1; a
command line that cannot be read leaves 2.
-/

namespace BuildAhead

namespace LogOptions

/-- The log settings with the options in place of what they name. -/
def applyTo (o : LogOptions) (s : LoggingSettings) : LoggingSettings :=
  { s with
    level := o.level.getD (if o.verbose then "debug" else s.level)
    format := o.format.getD s.format
    output := o.output.getD s.output
    file := o.file.getD s.file }

end LogOptions

namespace Invocation

/-- The log settings of a run. Settings that cannot be loaded count as none here. -/
def logging (i : Invocation) (tree : Files.Tree) (e : Environment) : LoggingSettings :=
  let configured :=
    match Settings.load tree i.command.configFile? e [] with
    | .ok s => LoggingSettings.ofSettings s
    | .error _ => {}
  i.log.applyTo configured

end Invocation

/-- What a run of the program leaves besides its files. -/
structure SessionResult where
  code : Nat
  stdout : String := ""
  stderr : String := ""
  deriving DecidableEq, Repr, Inhabited

namespace CommandLine

/-- How the program is called. -/
def usage : String :=
  "Usage: prebake [OPTIONS] <COMMAND>\n\n" ++
    "Commands:\n" ++
    "  run            Run every enabled optimization module against an application manifest\n" ++
    "  modules        List the modules applicable to a runtime, in execution order\n" ++
    "  export-config  Write a sample configuration file for a runtime\n" ++
    "  help           Print this message or the help of the given subcommand(s)\n"

/-- What is wrong with a command line. -/
def UsageError.message : UsageError → String
  | .unknownArgument argument => "unexpected argument '" ++ argument ++ "' found"
  | .invalidValue name => "a value is required for '--" ++ name ++ "' but none was supplied"
  | .valueValidation name value =>
    "invalid value '" ++ value ++ "' for '--" ++ name ++ "': " ++ Profile.unknownMessage value
  | .missingRequired name => "the required option '--" ++ name ++ "' was not provided"
  | .argumentConflict name => "the option '--" ++ name ++ "' cannot be used multiple times"
  | .tooManyValues name => "a value for '--" ++ name ++ "' was found but none is expected"
  | .invalidCommand argument => "unrecognized subcommand '" ++ argument ++ "'"
  | .missingCommand => "a subcommand is required but none was provided"
  | .help => ""
  | .helpForNothing => ""

/-- The result of a run whose command line cannot be read. -/
def UsageError.result : UsageError → SessionResult
  | .help => { code := 0, stdout := usage }
  | .helpForNothing => { code := 2, stderr := usage }
  | e => { code := 2, stderr := "error: " ++ e.message ++ "\n\n" ++ usage }

end CommandLine

namespace Session

/-- The part of the program that runs sessions. -/
def target : String := "prebake"

/-- What a session tells the log about its command. -/
def journal (r : Registry) (e : Environment) (tree : Files.Tree) (command : Command)
    (outcome : Except BuildError String) : List LogRecord :=
  ⟨.info, target, "Prebake CLI starting"⟩ :: command.journal r e tree outcome ++
    [match outcome with
      | .ok _ => ⟨.info, target, "Command completed successfully"⟩
      | .error err => ⟨.error, target, "Command failed: " ++ err.message⟩]

/-- Writes lines to the log file. A log that can no longer be written loses its lines. -/
def writeLog (path : Files.Path) (lines : String) : StateM Files.Tree Unit := do
  match (← get).append path lines with
  | .ok tree => set tree
  | .error _ => pure ()

/-- The result of a command. -/
def resultOf (outcome : Except BuildError String) : SessionResult :=
  match outcome with
  | .ok text => { code := 0, stdout := text ++ "\n" }
  | .error err => { code := 1, stderr := Report.failure err ++ "\n" }

/-- Writes the lines of the log to where they go. -/
def deliverLog (logger : Logger) (lines : String) (result : SessionResult) :
    StateM Files.Tree SessionResult := do
  match logger.output with
  | .stdout => return { result with stdout := lines ++ result.stdout }
  | .stderr => return { result with stderr := lines ++ result.stderr }
  | .file =>
    writeLog logger.file lines
    return result

/-- Runs a command behind a log. -/
def runCommand (r : Registry) (e : Environment) (now : String) (logger : Option Logger)
    (command : Command) : StateM Files.Tree SessionResult := do
  let before ← get
  let outcome ← (command.execute r e now).run
  match logger with
  | none => return resultOf outcome
  | some logger =>
    deliverLog logger (logger.lines now (journal r e before command outcome)) (resultOf outcome)

/-- Runs the program. -/
def run (r : Registry) (e : Environment) (now : String) (arguments : List String) :
    StateM Files.Tree SessionResult := do
  match CommandLine.parse arguments with
  | .error fault => return fault.result
  | .ok invocation =>
    let settings := invocation.logging (← get) e
    let remarks := String.join ((Logging.remarks settings e).map (· ++ "\n"))
    let result ←
      match ← (Logging.start settings e).run with
      | .error err =>
        pure { code := 1, stderr := "Failed to initialize logging: " ++ err.message ++ "\n" }
      | .ok logger => runCommand r e now logger invocation.command
    return { result with stderr := remarks ++ result.stderr }

end Session

end BuildAhead
