import BuildAhead.Files.Writing
import BuildAhead.Modules.Basic
import BuildAhead.Modules.Ordering

set_option autoImplicit false

/-!
# Modules: registry

The modules that a build can run. Before anything is scheduled the whole registry is checked: every
dependency must be registered and there must be no cycle, also among modules that are not wanted.
Then the wanted modules are put in order; a dependency that is not wanted asks for nothing.
-/

namespace BuildAhead

/-- Registered modules by their identifiers. -/
structure Registry where
  modules : Dict Module := ∅

namespace Registry

/-- A registry of modules with distinct identifiers; of two with one identifier the later counts. -/
def ofModules (ms : List Module) : Registry := ⟨.ofList (ms.map fun m => (m.id, m))⟩

/-- The registry with one more module, whose identifier must be new. -/
def register (r : Registry) (m : Module) : Except BuildError Registry :=
  if r.modules.contains m.id then .error (.duplicateModule m.id)
  else .ok ⟨r.modules.insert m.id m⟩

/-- The module of an identifier. -/
def get? (r : Registry) (id : String) : Option Module := r.modules.get? id

/-- The number of modules. -/
def size (r : Registry) : Nat := r.modules.size

/-- Whether there is no module. -/
def isEmpty (r : Registry) : Bool := r.modules.isEmpty

/-- The identifiers, in ascending order. -/
def ids (r : Registry) : List String := r.modules.keys

/-- The dependencies of an identifier. -/
def dependencies (r : Registry) (id : String) : List String :=
  match r.get? id with
  | some m => m.descriptor.dependencies
  | none => []

/-- The first dependency that is not registered, with the identifier that declares it. -/
def unknownDependency? (r : Registry) : List String → Option (String × String)
  | [] => none
  | id :: rest =>
    match (r.dependencies id).find? fun d => !r.modules.contains d with
    | some d => some (id, d)
    | none => unknownDependency? r rest

/-- Identifiers in the order in which their modules run. -/
def order (r : Registry) (ids : List String) : Except BuildError (List String) :=
  (Ordering.sort r.dependencies (.ofList ids)).mapError .cyclicDependency

/-- Checks the whole registry. -/
def validate (r : Registry) : Except BuildError Unit := do
  match r.unknownDependency? r.ids with
  | some (id, dependency) => throw (.unknownDependency id dependency)
  | none => let _ ← r.order r.ids

/-- The modules that satisfy `wanted`, in the order in which they run. -/
def ordered (r : Registry) (wanted : ModuleDescriptor → Bool) :
    Except BuildError (List Module) := do
  r.validate
  let selected := r.modules.values.filter fun m => wanted m.descriptor
  let order ← r.order (selected.map Module.id)
  return order.filterMap r.get?

/-- The modules of a profile that are switched on, in the order in which they run. -/
def schedule (r : Registry) (profile : Profile) (s : Settings) :
    Except BuildError (List Module) :=
  r.ordered fun d => d.profiles.contains profile && d.enabled s

/-- The modules of a profile, switched on or not, in the order in which they would run. -/
def list (r : Registry) (profile : Profile) : Except BuildError (List ModuleDescriptor) :=
  (r.ordered fun d => d.profiles.contains profile).map fun ms => ms.map Module.descriptor

/-! ## Sample configurations -/

/-- The lines for features, each as long as its name is new. -/
def subModuleLines (emitted : List String) : List String → String × List String
  | [] => ("", emitted)
  | sub :: rest =>
    if emitted.contains sub then subModuleLines emitted rest
    else
      let (text, emitted) := subModuleLines (sub :: emitted) rest
      (Names.switch sub ++ " = false\n" ++ text, emitted)

/-- The lines for options, each as long as its key is new. -/
def optionLines (quote : String → String) (emitted : List String) :
    List OptionSpec → String × List String
  | [] => ("", emitted)
  | o :: rest =>
    if emitted.contains o.key then optionLines quote emitted rest
    else
      let (text, emitted) := optionLines quote (o.key :: emitted) rest
      (o.assignmentWith quote ++ "\n" ++ text, emitted)

/-- The sample configuration of modules, where `emitted` holds the feature names and option keys
that were written before. -/
def sampleFrom (quote : String → String) (emitted : List String) : List ModuleDescriptor → String
  | [] => ""
  | d :: rest =>
    let (subs, emitted) := subModuleLines emitted d.subModules
    let (options, emitted) := optionLines quote emitted d.options
    OptionSpec.comment d.description ++ Names.switch d.id ++ " = true\n" ++ subs ++ options ++
      "\n" ++ sampleFrom quote emitted rest

/-- A sample configuration for the modules of a profile, with samples quoted in this way. -/
def sampleConfigurationWith (quote : String → String) (r : Registry) (profile : Profile) :
    Except BuildError String :=
  (r.list profile).map (sampleFrom quote [])

/-- A sample configuration for the modules of a profile. -/
def sampleConfiguration (r : Registry) (profile : Profile) : Except BuildError String :=
  r.sampleConfigurationWith Toml.quoted profile

/-- Writes a sample configuration to a file; the folder above it is made if it is missing. -/
def exportConfiguration (r : Registry) (profile : Profile) (path : Files.Path) : Writing Unit := do
  let text ← r.sampleConfiguration profile
  Writing.writeFile path text

end Registry

end BuildAhead
