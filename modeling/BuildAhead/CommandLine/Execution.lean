import BuildAhead.Application.Loading
import BuildAhead.Building.Journal
import BuildAhead.CommandLine.Command
import BuildAhead.Report.BuildReport
import BuildAhead.Report.ModuleReport
import BuildAhead.Settings.Loading

set_option autoImplicit false

/-!
# Command line: execution

What each command does to the files and what it prints. A build reads its settings first, then the
manifest; of a command that fails nothing is printed.
-/

namespace BuildAhead

namespace Command

/-- The settings that a command line states itself. -/
def explicitSettings (package : Option String) (runtime : Option Profile) :
    List (String × String) :=
  (match package with
    | some package => [(Settings.packageKey, package)]
    | none => []) ++
  match runtime with
  | some profile => [(Settings.runtimeKey, profile.slug)]
  | none => []

/-- The input of a build from the files of a command. -/
def buildInput (tree : Files.Tree) (e : Environment) (application : Files.Path)
    (config : Option Files.Path) (explicit : List (String × String)) :
    Except BuildError BuildInput := do
  let settings ← Settings.load tree config e explicit
  let manifest ← Manifest.load tree application
  return .ofManifest settings manifest

/-- The list of modules in a format; every format but JSON is a table. -/
def listModules (r : Registry) (runtime : Profile) (format : String) :
    Except BuildError String := do
  let ds ← r.list runtime
  return if format = "json" then Report.modulesJson runtime ds else Report.modules runtime ds

/-- What is printed about a sample configuration that was written. -/
def exportedText (count : Nat) (runtime : Profile) (file : Files.Path) : String :=
  "Wrote sample configuration for " ++ toString count ++ " module(s) (" ++ runtime.slug ++
    ") to " ++ file

/-- Carries out a command and answers what it prints. -/
def execute (r : Registry) (e : Environment) (now : String) : Command → Writing String
  | .run application output config package runtime => do
    let input ←
      buildInput (← get) e application config (explicitSettings package runtime)
    let summary ← r.build input ⟨output⟩ now
    return Report.build summary output
  | .modules runtime format => do
    let text ← listModules r runtime format
    return text
  | .exportConfig runtime file => do
    r.exportConfiguration runtime file
    let ds ← r.list runtime
    return exportedText ds.length runtime file

/-! ## Journal -/

/-- The part of the program that carries out commands. -/
def target : String := "prebake::cli::route"

/-- What is told about settings that are loaded. -/
def settingsJournal (tree : Files.Tree) (config : Option Files.Path)
    (loaded : Except BuildError Settings) : List LogRecord :=
  (match config with
    | some path =>
      if tree.isFile path then
        [⟨.debug, "prebake::config::sources::config_file",
          "Adding configuration file source " ++ path⟩]
      else []
    | none => []) ++
  match loaded with
  | .error _ => []
  | .ok s =>
    [⟨.debug, "prebake::config::facade", "Configuration loaded"⟩,
      ⟨.debug, target, "Configuration ready: " ++ toString s.values.size ++ " keys"⟩]

/-- What a command tells the log, when it starts on these files and has this outcome. -/
def journal (r : Registry) (e : Environment) (tree : Files.Tree)
    (outcome : Except BuildError String) : Command → List LogRecord
  | .run application output config package runtime =>
    let explicit := explicitSettings package runtime
    settingsJournal tree config (Settings.load tree config e explicit) ++
      match buildInput tree e application config explicit with
      | .error _ => []
      | .ok input =>
        ⟨.info, target, "Loaded application manifest " ++ application⟩ ::
          r.journal input (OutputFolder.mk output).resources tree ++
          match outcome with
          | .ok _ => [⟨.debug, Journal.outputTarget, "Materialized run output in " ++ output⟩]
          | .error _ => []
  | .modules runtime _ => Journal.list r runtime
  | .exportConfig runtime file =>
    Journal.list r runtime ++
      match outcome with
      | .ok _ => [⟨.info, target, "Exported configuration to " ++ file⟩]
      | .error _ => []

end Command

end BuildAhead
