import BuildAhead.Building.OutputFolder
import BuildAhead.Modules.Registry
import BuildAhead.Optimizations.EntryPoint

set_option autoImplicit false

/-!
# Building: a build

One build from beginning to end: the namespace and the profile are read, the modules scheduled and
run one after the other, the entry point made, the deferred writes done, and the result delivered.
The first error ends the build. A build that fails before its writes leaves no file; every error of
the schedule shows before a module runs.
-/

namespace BuildAhead

namespace Generation

/-- Runs the work of a module; its error is reported as that of the module. -/
def inModule (m : Module) : Generation Unit :=
  ExceptT.mk ((Except.mapError (BuildError.moduleFailed m.id)) <$> m.generate.run)

/-- Runs modules in order and records each that ran to its end. -/
def runModules : List Module → Generation Unit
  | [] => return ()
  | m :: rest => do
    inModule m
    markExecuted m.id
    runModules rest

/-- Everything that a build does on its context. -/
def runAll (modules : List Module) : Generation Unit := do
  runModules modules
  let _ ← EntryPoint.synthesize

end Generation

/-- What a build works on. -/
structure BuildInput where
  settings : Settings
  analyzer : Analyzer
  application : ApplicationModel
  /-- how messages of checks that run side by side come to the diagnostics -/
  schedule : Schedule := .inOrder

/-- The input of a build for a described application. -/
def BuildInput.ofManifest (settings : Settings) (m : Manifest) : BuildInput where
  settings
  analyzer := { snapshot := m.environment }
  application := m.model

namespace Registry

/-- The context that a build begins with, and the modules that it runs. -/
def prepare (r : Registry) (input : BuildInput) : Except BuildError (Context × List Module) := do
  let space ← input.settings.require Settings.packageKey
  let profile ← input.settings.profile
  let modules ← r.schedule profile input.settings
  return (
    { space
      profile
      settings := input.settings
      analyzer := input.analyzer
      application := input.application
      schedule := input.schedule },
    modules)

/-- Runs the scheduled modules and writes their resources below a folder. -/
def generate (r : Registry) (input : BuildInput) (resources : Files.Path) :
    Writing GenerationOutput := do
  let (context, modules) ← r.prepare input
  let (outcome, context) := (Generation.runAll modules).run.run context
  outcome
  let (outcome, context, tree) := context.finish resources (← get)
  set tree
  outcome
  return context.output

/-- Runs a build and delivers what it produced. -/
def build (r : Registry) (input : BuildInput) (folder : OutputFolder) (generatedAt : String) :
    Writing RunSummary := do
  let output ← r.generate input folder.resources
  let summary := RunSummary.ofOutput output (output.profile.getD .jit) generatedAt
  folder.deliver output summary
  return summary

end Registry

end BuildAhead
