import BuildAhead.Files.Writing
import BuildAhead.Logging.Filter
import BuildAhead.Settings.Loading

set_option autoImplicit false

/-!
# Logging: setup

What the settings say about the log and what environment variables change in it. A variable with a
valid filter takes the place of the level and of all module levels. The levels, the format and the
output are checked in this order, before any file is made; only a log that goes to a file makes one.
-/

namespace BuildAhead

/-- The settings of the log, as they are written. -/
structure LoggingSettings where
  enabled : Bool := true
  level : String := "info"
  format : String := "text"
  output : String := "stderr"
  file : Files.Path := "prebake.log"
  color : Bool := true
  /-- levels of single targets -/
  modules : Dict String := ∅
  deriving DecidableEq, Repr, Inhabited

namespace LoggingSettings

/-- A target and its level, written with an equals sign between them. -/
def moduleLevel? (item : String) : Option (String × String) :=
  (Text.splitFirst? '=' item).map fun (target, level) => (Text.trim target, Text.trim level)

/-- The log that a configuration asks for. -/
def ofSettings (s : Settings) : LoggingSettings :=
  let d : LoggingSettings := {}
  { enabled := s.bool "logging.enabled" d.enabled
    level := (s.text? "logging.level").getD d.level
    format := (s.text? "logging.format").getD d.format
    output := (s.text? "logging.output").getD d.output
    file := (s.text? "logging.file").getD d.file
    color := s.bool "logging.color" d.color
    modules := .ofList ((s.items "logging.modules").filterMap moduleLevel?) }

end LoggingSettings

/-- How a record is written. -/
inductive LogFormat where
  | text
  | json
  deriving DecidableEq, Repr, Inhabited

/-- The format of a name. -/
def LogFormat.ofName? (name : String) : Option LogFormat :=
  if name = "json" then some .json else if name = "text" then some .text else none

/-- Where records go. -/
inductive LogOutput where
  | stdout
  | stderr
  | file
  deriving DecidableEq, Repr, Inhabited

/-- The output of a name. -/
def LogOutput.ofName? (name : String) : Option LogOutput :=
  if name = "stdout" then some .stdout
  else if name = "stderr" then some .stderr
  else if name = "file" then some .file
  else none

/-- How the texts of filters are read. -/
structure FilterReader where
  /-- the filter that a text writes, if it is valid -/
  filter? : String → Option LogFilter
  /-- the directive that a text writes, or why it is none -/
  directive : String → Except String LogDirective
  /-- the filter of those parts of a text that are valid -/
  lenient : String → LogFilter

/-- Filters are lists of directives, which are read character by character. -/
def FilterReader.standard : FilterReader where
  filter? := LogFilter.parse?
  directive text := (LogDirective.parse text).mapError DirectiveFault.message
  lenient := LogFilter.ofText

/-- A log that is ready to be written. -/
structure Logger where
  filter : LogFilter
  format : LogFormat
  output : LogOutput
  color : Bool
  file : Files.Path
  deriving DecidableEq, Repr, Inhabited

namespace Logging

/-- The variable with a filter. -/
def filterVariable : String := "PREBAKE_LOG"

/-- The variable with a format. -/
def formatVariable : String := "PREBAKE_LOG_FORMAT"

/-- The variable with an output. -/
def outputVariable : String := "PREBAKE_LOG_OUTPUT"

/-- The variable with levels of single targets. -/
def modulesVariable : String := "PREBAKE_LOG_MODULES"

/-- The filter of the environment, if it is valid. -/
def environmentFilter? (r : FilterReader) (e : Environment) : Option LogFilter :=
  (e.get? filterVariable).bind r.filter?

/-- The level that no module level changes: nothing passes. -/
def silentLevel : String := "off"

/-- The module levels in force: those of the settings, then those of the environment. -/
def moduleLevels (s : LoggingSettings) (e : Environment) : List (String × String) :=
  let items := Text.pieces (· == ',') ((e.get? modulesVariable).getD "")
  s.modules.toList ++ items.filterMap LoggingSettings.moduleLevel?

/-- The directive of a module level. -/
def directiveOf (r : FilterReader) (m : String × String) : Except BuildError LogDirective :=
  (r.directive (Text.trim m.1 ++ "=" ++ Text.trim m.2)).mapError fun reason =>
    .configuration ("Invalid log directive: " ++ reason)

/-- The filter in force. -/
def filterOf (r : FilterReader) (s : LoggingSettings) (e : Environment) :
    Except BuildError LogFilter :=
  match environmentFilter? r e with
  | some f => .ok f
  | none =>
    if s.level = silentLevel then .ok ⟨[{ threshold := none }]⟩
    else do
      let ds ← (moduleLevels s e).mapM (directiveOf r)
      return ds.foldl LogFilter.add (r.lenient s.level)

/-- The format in force. The variable counts only when it names a format. -/
def formatOf (s : LoggingSettings) (e : Environment) : Except BuildError LogFormat :=
  match (e.get? formatVariable).bind LogFormat.ofName? with
  | some f => .ok f
  | none =>
    match LogFormat.ofName? s.format with
    | some f => .ok f
    | none =>
      .error (.configuration
        ("Invalid log format: " ++ s.format ++ " (must be 'json' or 'text')"))

/-- The output in force. -/
def outputOf (s : LoggingSettings) (e : Environment) : Except BuildError LogOutput :=
  let name := (e.get? outputVariable).getD s.output
  match LogOutput.ofName? name with
  | some o => .ok o
  | none =>
    .error (.configuration
      ("Invalid log output: " ++ name ++ " (must be 'stdout', 'stderr', or 'file')"))

/-- The log that settings and environment ask for together. -/
def loggerOf (r : FilterReader) (s : LoggingSettings) (e : Environment) :
    Except BuildError Logger := do
  let filter ← filterOf r s e
  let format ← formatOf s e
  let output ← outputOf s e
  return { filter, format, output, color := s.color && output != .file, file := s.file }

/-- A step on the file tree, whose fault is one of the configuration. -/
def fileStep (failure : String) (f : Files.Tree → Except Files.Fault Files.Tree) :
    Writing Unit := do
  match f (← get) with
  | .ok tree => set tree
  | .error fault => throw (.configuration (failure ++ ": " ++ fault.message))

/-- Makes the folder above a path, if there is one above it and it is missing. -/
def makeFolderAbove (path : Files.Path) (t : Files.Tree) : Except Files.Fault Files.Tree :=
  match Files.Path.parent? path with
  | none => .ok t
  | some above => if above.isEmpty then .ok t else t.makeFolders above

/-- Makes the log file, and the folder above it, if they are missing. -/
def openFile (path : Files.Path) : Writing Unit := do
  fileStep "Failed to create log directory" (makeFolderAbove path)
  fileStep ("Failed to open log file " ++ Text.quoted path) fun t => t.append path ""

/-- Starts the log; there is none when it is switched off. Without settings it is started with those
by default. -/
def startWith (r : FilterReader) (settings : Option LoggingSettings) (e : Environment) :
    Writing (Option Logger) := do
  let s := settings.getD {}
  if !s.enabled then return none
  let logger ← loggerOf r s e
  if logger.output = .file then openFile logger.file
  return some logger

/-- Starts the log with the filters of this program. -/
def start (s : LoggingSettings) (e : Environment) : Writing (Option Logger) :=
  startWith .standard (some s) e

/-- What is said, line by line, about the parts of the level that are left out of the filter. -/
def remarks (s : LoggingSettings) (e : Environment) : List String :=
  if !s.enabled || (environmentFilter? .standard e).isSome || s.level == silentLevel then []
  else
    (LogFilter.faults s.level).map fun (part, fault) =>
      "ignoring \x60" ++ part ++ "\x60: " ++ fault.message

end Logging

end BuildAhead
