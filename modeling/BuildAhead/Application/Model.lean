import BuildAhead.Application.Requirements
import BuildAhead.BuildError
import BuildAhead.Text.Quoted

set_option autoImplicit false

/-!
# Application: manifest and model

The description of an application that an analysis leaves behind: its environment, the candidates
for each service in the order in which they were found, and its types. Loading a candidate fails
when its type is unknown or needs a type that is missing.
-/

namespace BuildAhead

/-- How an instance of a provider is made. The order of the two is that of the alternatives. -/
inductive ImplementationKind where
  | factoryMethod
  | noArgConstructor
  deriving DecidableEq, Repr, Inhabited

namespace ImplementationKind

/-- The name of a kind. -/
def name : ImplementationKind → String
  | .factoryMethod => "factory_method"
  | .noArgConstructor => "no_arg_constructor"

/-- The kind of a name. -/
def ofName? (name : String) : Option ImplementationKind :=
  if name = "factory_method" then some .factoryMethod
  else if name = "no_arg_constructor" then some .noArgConstructor
  else none

end ImplementationKind

/-- What is known of one type. -/
structure TypeDescriptor where
  factoryMethod : Bool := false
  publicNoArgConstructor : Bool := false
  requirements : Option Requirements := none
  /-- a type that this one needs and that is missing -/
  missingDependency : Option String := none
  /-- why the requirements of this type cannot be evaluated -/
  probeFailure : Option String := none
  configurationScope : Option String := none
  deriving DecidableEq, Repr, Inhabited

/-- How an instance of the type is made; a factory method is preferred. -/
def TypeDescriptor.implementation? (d : TypeDescriptor) : Option ImplementationKind :=
  if d.factoryMethod then some .factoryMethod
  else if d.publicNoArgConstructor then some .noArgConstructor
  else none

/-- The services and types of an application. -/
structure ApplicationModel where
  services : Dict (List String) := ∅
  types : Dict TypeDescriptor := ∅
  deriving Repr, Inhabited

/-- The description of an application. -/
structure Manifest where
  environment : Snapshot := {}
  services : Dict (List String) := ∅
  types : Dict TypeDescriptor := ∅
  deriving Repr, Inhabited

/-- The model of a described application. -/
def Manifest.model (m : Manifest) : ApplicationModel := ⟨m.services, m.types⟩

/-- A candidate that could be loaded. -/
structure LoadedCandidate where
  name : String
  implementation : Option ImplementationKind
  /-- the probe for its requirements if it has any, or why there is none -/
  probe : Option (Except ProbeError Probe)
  configurationScope : Option String

namespace LoadedCandidate

/-- An optional part of a description. -/
def describeOption : Option String → String
  | none => "None"
  | some s => "Some(" ++ s ++ ")"

/-- A candidate on one line, for people who look into a build. -/
def describe (c : LoadedCandidate) : String :=
  let kind := c.implementation.map fun
    | .factoryMethod => "FactoryMethod"
    | .noArgConstructor => "NoArgConstructor"
  "LoadedCandidate \x7b name: " ++ Text.quoted c.name ++
    ", implementation: " ++ describeOption kind ++
    ", has_probe: " ++ (if c.probe.isSome then "true" else "false") ++
    ", configuration_scope: " ++ describeOption (c.configurationScope.map Text.quoted) ++ " \x7d"

end LoadedCandidate

namespace ApplicationModel

/-- The candidates for a service, in the order in which they were found. -/
def discover (m : ApplicationModel) (capability : String) : List String :=
  (m.services.get? capability).getD []

/-- Whether the application has a type of this name. -/
def hasType (m : ApplicationModel) (name : String) : Bool := m.types.contains name

/-- The model with one more candidate, behind those that the service has. -/
def addService (m : ApplicationModel) (capability candidate : String) : ApplicationModel :=
  { m with services := m.services.alter capability fun old => old.getD [] ++ [candidate] }

/-- The model with a type, in place of one of the same name. -/
def addType (m : ApplicationModel) (name : String) (d : TypeDescriptor) : ApplicationModel :=
  { m with types := m.types.insert name d }

/-- The probe of a type's requirements, if it has any. -/
def probeOf (name : String) (d : TypeDescriptor) : Option (Except ProbeError Probe) :=
  d.requirements.map fun requirements =>
    match d.probeFailure with
    | some reason => .error ⟨name, reason⟩
    | none => .ok ⟨name, requirements⟩

/-- Loads a candidate. -/
def load (m : ApplicationModel) (name : String) : Except LoadError LoadedCandidate :=
  match m.types.get? name with
  | none => .error (.notFound name)
  | some d =>
    match d.missingDependency with
    | some dependency => .error (.missingDependency name dependency)
    | none =>
      .ok
        { name
          implementation := d.implementation?
          probe := probeOf name d
          configurationScope := d.configurationScope }

end ApplicationModel

end BuildAhead
