import BuildAhead.Application.Model
import BuildAhead.Files.Tree
import BuildAhead.Generation.Diagnostics
import BuildAhead.Services.Substitutes
import BuildAhead.Settings.Basic

set_option autoImplicit false

/-!
# Generation: context

What the modules of one build share. A module registers units, static initializers, resources to
write later, and names for the native image; it publishes what later modules need; and it leaves
diagnostics. An action on the context may fail, and what it did before it failed stays.

Resources are written at the end by `Context.finish`, in the order in which they were queued, and
nothing can be registered afterwards. A file that an earlier build left is removed before the first
write of this build to the same path.
-/

namespace BuildAhead

/-- The final state of a build, as the deferred writes see it. -/
structure FinishView where
  space : String
  buildTimeInit : NameSet
  excludedResources : NameSet
  deriving Repr, Inhabited

/-- What a deferred write does to its file. -/
inductive FileAction where
  /-- write at the end of the file, which is created if there is none -/
  | append (text : String)
  /-- write the file anew -/
  | replace (text : String)
  /-- fail with this text -/
  | fail (reason : String)
  deriving DecidableEq, Repr, Inhabited

/-- A write that waits for the end of the build. -/
structure PendingWrite where
  path : String
  action : FinishView → FileAction
  deriving Inhabited

/-- The statements of an optimization loader and the methods that they call. -/
structure LoaderBody where
  statements : List Code.Stmt
  helpers : List Code.Method := []
  deriving Repr, Inhabited

/-- What a build has produced. -/
structure GenerationOutput where
  space : String := ""
  profile : Option Profile := none
  units : List CodeUnit := []
  diagnostics : Diagnostics := {}
  excludedResources : NameSet := ∅
  buildTimeInit : NameSet := ∅
  executedModules : List String := []
  deriving Repr, Inhabited

/-- The state of a build in progress. -/
structure Context where
  space : String
  profile : Profile
  settings : Settings
  analyzer : Analyzer
  application : ApplicationModel
  diagnostics : Diagnostics := {}
  /-- how messages of checks that run side by side come to the diagnostics -/
  schedule : Schedule := .inOrder
  excludedResources : NameSet := ∅
  buildTimeInit : NameSet := ∅
  pending : List PendingWrite := []
  units : List CodeUnit := []
  /-- the qualified names under which units are registered -/
  unitNames : NameSet := ∅
  staticInitializers : List Code.Method := []
  substitutes : Option Substitutes := none
  /-- whether the application would deduce its environment, once a module has found out -/
  deducedEnvironment : Option Bool := none
  executedModules : List String := []
  finished : Bool := false

/-- An action on the context of a build, which may fail. -/
abbrev Generation (α : Type) : Type := ExceptT BuildError (StateM Context) α

namespace Context

/-- Whether a unit is registered under this qualified name. -/
def hasUnit (c : Context) (qualified : String) : Bool := c.unitNames.contains qualified

/-- The context with one more unit, whose name is recorded. -/
def addUnit (c : Context) (u : CodeUnit) : Context :=
  { c with units := c.units ++ [u], unitNames := c.unitNames.insert u.qualifiedName }

/-- The first unit with this simple name. -/
def unit? (c : Context) (name : String) : Option CodeUnit := c.units.find? (·.name == name)

/-- What the deferred writes see. -/
def view (c : Context) : FinishView := ⟨c.space, c.buildTimeInit, c.excludedResources⟩

/-- What the build has produced. -/
def output (c : Context) : GenerationOutput where
  space := c.space
  profile := some c.profile
  units := c.units
  diagnostics := c.diagnostics
  excludedResources := c.excludedResources
  buildTimeInit := c.buildTimeInit
  executedModules := c.executedModules

end Context

namespace Generation

/-- Fails when the deferred writes have been run. -/
def ensureOpen : Generation Unit := do
  if (← get).finished then throw .alreadyFinished

/-- Adds a message to the diagnostics. -/
def diagnose (category message : String) : Generation Unit :=
  modify fun c => { c with diagnostics := c.diagnostics.add category message }

/-- Registers a unit; its qualified name must be new. -/
def registerUnit (u : CodeUnit) : Generation Code.UnitName := do
  ensureOpen
  if (← get).hasUnit u.qualifiedName then throw (.nameCollision u.qualifiedName)
  modify fun c => c.addUnit u
  return u.unitName

/-- Registers a static method that the entry point calls; its name must be new among these. -/
def registerStaticInitializer (m : Code.Method) : Generation Unit := do
  ensureOpen
  if (← get).staticInitializers.any fun n => n.name == m.name then
    throw (.nameCollision ("static initializer " ++ m.name))
  modify fun c => { c with staticInitializers := c.staticInitializers ++ [m] }

/-- Queues a write to a path among the resources. -/
def registerResource (path : String) (action : FinishView → FileAction) : Generation Unit := do
  ensureOpen
  modify fun c => { c with pending := c.pending ++ [⟨path, action⟩] }

/-- The line of a service manifest for a unit of this build's namespace. -/
def manifestLine (space name : String) : String := space ++ "." ++ name ++ "\n"

/-- Queues one more line for the manifest of a service. -/
def registerServiceImplementation (service name : String) : Generation Unit := do
  let line := manifestLine (← get).space name
  registerResource (Names.serviceManifest service) fun _ => .append line

/-- Queues a manifest of a service that has this line alone. -/
def writeServiceManifest (service name : String) : Generation Unit := do
  let line := manifestLine (← get).space name
  registerResource (Names.serviceManifest service) fun _ => .replace line

/-- Leaves a resource out of the packaged application. -/
def excludeResource (path : String) : Generation Unit :=
  modify fun c => { c with excludedResources := c.excludedResources.insert path }

/-- Has a type initialized when the native image is built. -/
def requireBuildTimeInit (name : String) : Generation Unit :=
  modify fun c => { c with buildTimeInit := c.buildTimeInit.insert name }

/-- The unit of an optimization loader for a type. -/
def loaderUnit (space name kind : String) (body : LoaderBody) : CodeUnit where
  space
  name
  implements := [Runtime.optimizationLoader ++ "<" ++ kind ++ ">"]
  methods := { name := "load", returns := some kind, body := body.statements } :: body.helpers

/-- Registers an optimization loader for a type, among the units and in the manifest of the service
of the loaders. -/
def registerStaticOptimization (name kind : String) (body : LoaderBody) :
    Generation Code.UnitName := do
  ensureOpen
  requireBuildTimeInit kind
  let unitName ← registerUnit (loaderUnit (← get).space name kind body)
  registerServiceImplementation Runtime.optimizationLoader name
  return unitName

/-- Runs an action and answers, with its result, the units that it registered. -/
def trackUnits {α : Type} (action : Generation α) : Generation (α × List CodeUnit) := do
  let before := (← get).units.length
  let result ← action
  return (result, (← get).units.drop before)

/-- Publishes the substitutes of a service discovery. -/
def publishSubstitutes (s : Substitutes) : Generation Unit :=
  modify fun c => { c with substitutes := some s }

/-- Publishes whether the application would deduce its environment. -/
def publishDeducedEnvironment (deduce : Bool) : Generation Unit :=
  modify fun c => { c with deducedEnvironment := some deduce }

/-- Records that a module ran to its end. -/
def markExecuted (id : String) : Generation Unit :=
  modify fun c => { c with executedModules := c.executedModules ++ [id] }

end Generation

/-! ## Deferred writes -/

namespace PendingWrite

/-- What an action does to the file at a path. -/
def perform (tree : Files.Tree) (target : Files.Path) : FileAction → Except Files.Fault Files.Tree
  | .append text => tree.append target text
  | .replace text => tree.write target text
  | .fail reason => .error (.other reason)

/-- The folder above the target, made if it is missing. -/
def makeParent (tree : Files.Tree) (target : Files.Path) : Except BuildError Files.Tree :=
  match Files.Path.parent? target with
  | none => .ok tree
  | some above =>
    (tree.makeFolders above).mapError fun fault => .resourceWrite above fault.message

/-- Runs one queued write below a folder. `touched` holds the paths that this build has written to.
What was done before a failure stays. -/
@[irreducible] def run (view : FinishView) (folder : Files.Path) (touched : List (Bool × List String))
    (tree : Files.Tree) (w : PendingWrite) : Except BuildError Unit × Files.Tree :=
  let target := Files.Path.join folder w.path
  match makeParent tree target with
  | .error e => (.error e, tree)
  | .ok tree =>
    let cleared :=
      if touched.contains (Files.Path.key target) then .ok tree
      else tree.removeIfPresent target
    match cleared with
    | .error fault => (.error (.resourceWrite target fault.message), tree)
    | .ok tree =>
      match perform tree target (w.action view) with
      | .error fault => (.error (.resourceWrite target fault.message), tree)
      | .ok tree => (.ok (), tree)

/-- Runs queued writes below a folder. The first write that fails ends the run. -/
def runAll (view : FinishView) (folder : Files.Path) (touched : List (Bool × List String))
    (tree : Files.Tree) : List PendingWrite → Except BuildError Unit × Files.Tree
  | [] => (.ok (), tree)
  | w :: rest =>
    match run view folder touched tree w with
    | (.error e, tree) => (.error e, tree)
    | (.ok (), tree) =>
      runAll view folder (Files.Path.key (Files.Path.join folder w.path) :: touched) tree rest

end PendingWrite

/-- Runs the deferred writes, once, below a folder. -/
def Context.finish (c : Context) (folder : Files.Path) (tree : Files.Tree) :
    Except BuildError Unit × Context × Files.Tree :=
  if c.finished then (.error .alreadyFinished, c, tree)
  else
    let (outcome, tree) := PendingWrite.runAll c.view folder [] tree c.pending
    (outcome, { c with pending := [], finished := true }, tree)

end BuildAhead
