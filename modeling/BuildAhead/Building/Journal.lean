import BuildAhead.Building.Build
import BuildAhead.Logging.Record
import BuildAhead.Optimizations.ServiceLoading
import BuildAhead.Optimizations.VariableNames

set_option autoImplicit false

/-!
# Building: journal

What a build tells the log about itself, in order. The journal is a function of the same input as the
build; it adds nothing to what a build does and takes nothing from it.
-/

namespace BuildAhead

namespace Journal

/-- The part of the program that runs builds. -/
def buildTarget : String := "prebake::pipeline"

/-- The part that schedules modules. -/
def registryTarget : String := "prebake::registry"

/-- The part that keeps the context. -/
def contextTarget : String := "prebake::context"

/-- The part that discovers services. -/
def discoveryTarget : String := "prebake::discovery"

/-- The part that computes the names of environment variables. -/
def variablesTarget : String := "prebake::optimizers::environment_properties"

/-- The part that writes the output folder. -/
def outputTarget : String := "prebake::sink"

/-! ## Schedules -/

/-- Why a module does not run, if it does not. -/
def notScheduled (profile : Profile) (s : Settings) (d : ModuleDescriptor) : Option LogRecord :=
  if !d.profiles.contains profile then
    some ⟨.debug, registryTarget, "Module not applicable to profile " ++ profile.slug ++ ": " ++ d.id⟩
  else if !d.enabled s then
    some ⟨.debug, registryTarget, "Module disabled by configuration: " ++ d.id⟩
  else none

/-- The dependencies of chosen modules that are not chosen themselves. -/
def looseDependencies (chosen : List ModuleDescriptor) : List LogRecord :=
  let ids := chosen.map fun d => d.id
  chosen.flatMap fun d =>
    (d.dependencies.filter fun dependency => !ids.contains dependency).map fun dependency =>
      ⟨.debug, registryTarget,
        "Dependency of " ++ d.id ++ " not scheduled; no ordering constraint: " ++ dependency⟩

/-- What is told about the schedule of a build; nothing when the registry is not valid. -/
def schedule (r : Registry) (profile : Profile) (s : Settings) : List LogRecord :=
  match r.validate with
  | .error _ => []
  | .ok _ =>
    let all := r.modules.values.map Module.descriptor
    all.filterMap (notScheduled profile s) ++
      looseDependencies (all.filter fun d => (notScheduled profile s d).isNone)

/-- What is told about the list of a profile's modules. -/
def list (r : Registry) (profile : Profile) : List LogRecord :=
  match r.validate with
  | .error _ => []
  | .ok _ =>
    looseDependencies
      ((r.modules.values.map Module.descriptor).filter fun d => d.profiles.contains profile)

/-! ## Builds -/

/-- The diagnostics that are also warnings: a candidate that is included although its requirements are
not met, and a variable that is left out. -/
def warnings (d : Diagnostics) : List LogRecord :=
  let forced := (d.messages Discovery.category).filter fun m =>
    Text.startsWith m "Forcing inclusion of "
  (forced.map fun m => ⟨.warn, discoveryTarget, m⟩) ++
    (d.messages VariableNames.moduleId).map fun m => ⟨.warn, variablesTarget, m⟩

/-- What is told about the modules, from what they left behind. Substitutes are published as soon as
a discovery is complete. -/
def generation (modules : List Module) (outcome : Except BuildError Unit) (c : Context) :
    List LogRecord :=
  let begun :=
    match outcome with
    | .error (.moduleFailed _ _) => c.executedModules.length + 1
    | _ => c.executedModules.length
  ((modules.take begun).map fun m => ⟨.debug, buildTarget, "Running module " ++ m.id⟩) ++
    (c.units.map fun u => ⟨.debug, contextTarget, "Registered generated unit " ++ u.qualifiedName⟩) ++
    warnings c.diagnostics ++
    (match c.substitutes with
      | some _ => [⟨.info, discoveryTarget, "Service discovery complete"⟩]
      | none => [])

/-- What is told about the deferred writes. -/
def finish (c : Context) (folder : Files.Path) (tree : Files.Tree) : List LogRecord :=
  ⟨.debug, contextTarget,
      "Flushing " ++ toString c.pending.length ++ " deferred resource writes to " ++ folder⟩ ::
    match (c.finish folder tree).1 with
    | .ok _ => [⟨.info, buildTarget, "Optimization run complete"⟩]
    | .error _ => []

end Journal

namespace Registry

/-- What a build tells the log before its result is delivered. -/
def journal (r : Registry) (input : BuildInput) (resources : Files.Path) (tree : Files.Tree) :
    List LogRecord :=
  let scheduled :=
    match input.settings.require Settings.packageKey, input.settings.profile with
    | .ok _, .ok profile => Journal.schedule r profile input.settings
    | _, _ => []
  match r.prepare input with
  | .error _ => scheduled
  | .ok (context, modules) =>
    let (outcome, after) := (Generation.runAll modules).run.run context
    scheduled ++
      ⟨.info, Journal.buildTarget, "Starting optimization run of " ++ context.space⟩ ::
      Journal.generation modules outcome after ++
      match outcome with
      | .error _ => []
      | .ok _ => Journal.finish after resources tree

end Registry

end BuildAhead
