import BuildAhead.Collection.Dict
import BuildAhead.Json.Basic
import BuildAhead.Json.Printer

set_option autoImplicit false

/-!
# Application: environment and requirements

What is known of the environment that an application will run in, the requirements that a candidate
may place on it, and when they are met.
-/

namespace BuildAhead

/-- The reactive types that the application uses. -/
structure ReactiveTypes where
  reactive : List String := []
  single : List String := []
  completable : List String := []
  deriving DecidableEq, Repr, Inhabited

/-- The environment of the analyzed application. -/
structure Snapshot where
  activeEnvironments : NameSet := ∅
  packages : List String := []
  /-- whether the application finds out its environments when it starts -/
  deduceEnvironment : Option Bool := none
  properties : Dict Json := ∅
  environmentVariables : Dict String := ∅
  /-- the keys and values of each configuration resource -/
  configResources : Dict (Dict Json) := ∅
  reactiveTypes : ReactiveTypes := {}
  deriving Repr, Inhabited

namespace Snapshot

/-- The text of a property value: a string as it is, everything else as it is rendered. -/
def propertyText (render : Json → String) : Json → String
  | .text s => s
  | v => render v

/-- The text of a property, where values other than strings are rendered in this way. -/
def propertyWith? (render : Json → String) (s : Snapshot) (name : String) : Option String :=
  (s.properties.get? name).map (propertyText render)

/-- The text of a property; values other than strings are written as compact JSON. -/
def property? (s : Snapshot) (name : String) : Option String := s.propertyWith? Json.compact name

end Snapshot

/-- A condition on one property. -/
structure PropertyRequirement where
  name : String
  value : Option String := none
  notEquals : Option String := none
  deriving DecidableEq, Repr, Inhabited

namespace PropertyRequirement

/-- Whether the condition holds of the property's text. A forbidden value decides alone: the property
must be absent or differ from it. Otherwise the property must be present, with the required value
if there is one. -/
def holds (r : PropertyRequirement) (current : Option String) : Bool :=
  match r.notEquals with
  | some excluded => current != some excluded
  | none =>
    match r.value, current with
    | _, none => false
    | none, some _ => true
    | some expected, some actual => expected == actual

end PropertyRequirement

/-- What a candidate requires of the environment. -/
structure Requirements where
  /-- one of these environments must be active, if there are any -/
  env : List String := []
  /-- none of these environments may be active -/
  notEnv : List String := []
  properties : List PropertyRequirement := []
  /-- none of these properties may be set -/
  missingProperties : List String := []
  deriving DecidableEq, Repr, Inhabited

/-- A candidate whose requirements can be evaluated. -/
structure Probe where
  candidate : String
  requirements : Requirements
  deriving DecidableEq, Repr, Inhabited

/-- A way to decide whether a candidate can be used in an environment. -/
abbrev AvailabilityPredicate : Type := Probe → Snapshot → Bool

namespace Requirements

/-- Whether the environment meets every requirement. -/
def met (render : Json → String) (r : Requirements) (s : Snapshot) : Bool :=
  (r.env.isEmpty || r.env.any s.activeEnvironments.contains) &&
    !r.notEnv.any s.activeEnvironments.contains &&
    !r.missingProperties.any s.properties.contains &&
    r.properties.all fun p => p.holds (s.propertyWith? render p.name)

end Requirements

/-- Every requirement is met, where property values are rendered in this way. -/
def requirementsMetWith (render : Json → String) : AvailabilityPredicate :=
  fun probe s => probe.requirements.met render s

/-- The predicate that is used unless another is given: every requirement is met. -/
def requirementsMet : AvailabilityPredicate := requirementsMetWith Json.compact

/-- An environment with the predicate that decides what can be used in it. -/
structure Analyzer where
  snapshot : Snapshot
  predicate : AvailabilityPredicate := requirementsMet

/-- Whether a probe's candidate can be used. -/
def Analyzer.isAvailable (a : Analyzer) (probe : Probe) : Bool := a.predicate probe a.snapshot

end BuildAhead
