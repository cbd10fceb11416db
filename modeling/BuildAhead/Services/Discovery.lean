import BuildAhead.Generation.Context
import BuildAhead.Services.Availability
import BuildAhead.Services.DiscoverySettings
import BuildAhead.Services.Table

set_option autoImplicit false

/-!
# Services: discovery

For each configured service the candidates that the application has for it are taken in order.
Rejected names and repeated names are left out; a candidate with a substitution is replaced by the
units that the substitution registers, if it registers any; the others are loaded and checked. A
candidate whose requirements are not met disables the namespace that it configures, and at the end
every candidate inside a disabled namespace is removed, whichever service it was found for.

No candidate makes a discovery fail: what is left out is only reported. Errors come from
substitutions alone. The candidates of a service are checked side by side, so what is found does not
depend on the scheduling, but the order of the messages about them does.
-/

namespace BuildAhead

/-- A way to replace one candidate by generated units. -/
structure Substitution where
  /-- the candidate that is replaced -/
  replaces : String
  /-- registers the units; when it registers none, the candidate is treated like any other -/
  generate : Generation Unit

/-- A discovery: its settings, and the substitutions by the name that they replace. -/
structure Discovery where
  settings : DiscoverySettings
  substitutions : Dict Substitution := ∅

/-- What a discovery found: the providers of each service, and the substitutes. -/
structure DiscoveryResult where
  tables : Dict (List ServiceCandidate) := ∅
  substitutes : Substitutes := {}
  deriving Repr, Inhabited

namespace DiscoveryResult

/-- The tables, in ascending order of the services. -/
def specs (r : DiscoveryResult) : List TableSpec :=
  r.tables.toList.map fun e => .ofCandidates e.1 e.2

/-- The names of a service's providers. -/
def names (r : DiscoveryResult) (capability : String) : List String :=
  ((r.tables.get? capability).getD []).map (·.name)

end DiscoveryResult

namespace Discovery

/-- The category of the messages that a discovery leaves. -/
def category : String := "serviceloading"

/-- What becomes of a candidate. -/
inductive Outcome where
  | dropped
  /-- its requirements are not met; it may configure a namespace -/
  | unavailable (scope : Option String)
  | kept (candidate : ServiceCandidate)
  deriving Repr, Inhabited

/-- Whether a qualified name lies inside a namespace. -/
def isWithin (scope name : String) : Bool :=
  (scope.toList ++ ['.']).isPrefixOf name.toList

/-- The discovery with a substitution, in place of one for the same candidate. -/
def register (d : Discovery) (s : Substitution) : Discovery :=
  { d with substitutions := d.substitutions.insert s.replaces s }

/-! ## Candidates -/

def startMessage (capability : String) : String :=
  "Starting service discovery for type " ++ capability

def rejectedMessage (name : String) : String := "Rejecting " ++ name ++ " by configuration"

def forcedMessage (name : String) : String :=
  "Forcing inclusion of " ++ name ++ " despite it not matching bean requirements"

def unavailableMessage (name : String) : String :=
  "Skipping " ++ name ++ " because it doesn't match bean requirements"

def noProviderMessage (name : String) : String :=
  "Skipping " ++ name ++ ": not a valid provider, it has neither a factory method nor a public " ++
    "no-arg constructor"

def disabledMessage (name scope : String) : String :=
  "Disabling " ++ name ++ " because it belongs to " ++ scope ++ " which is disabled"

/-- What becomes of a candidate that was loaded and checked. -/
def classify (settings : DiscoverySettings) (c : LoadedCandidate) (available : Bool) :
    Outcome × List String :=
  let forced := !available && settings.forceInclude.contains c.name
  if !available && !forced then (.unavailable c.configurationScope, [unavailableMessage c.name])
  else
    let messages := if forced then [forcedMessage c.name] else []
    match c.implementation with
    | some implementation => (.kept ⟨c.name, implementation, available, forced⟩, messages)
    | none => (.dropped, messages ++ [noProviderMessage c.name])

/-- What becomes of a candidate, with the messages that are left about it. -/
def evaluate (settings : DiscoverySettings) (model : ApplicationModel) (analyzer : Analyzer)
    (capability name : String) : Outcome × List String :=
  match model.load name with
  | .error e =>
    (.dropped, [AvailabilityCheck.missingDependencyMessage capability name e.message])
  | .ok c =>
    let (available, messages) := (AvailabilityCheck.ofCandidate c).run c capability analyzer
    let (outcome, further) := classify settings c available
    (outcome, messages ++ further)

/-! ## Substitution -/

/-- What a discovery has gathered so far. -/
structure Progress where
  substitutes : Substitutes := {}
  /-- the units of each substitution that was run -/
  generated : Dict (List CodeUnit) := ∅
  disabledScopes : NameSet := ∅
  tables : Dict (List ServiceCandidate) := ∅
  deriving Inhabited

/-- The units that replace a candidate. A substitution is run once in a discovery; afterwards its
units are remembered. -/
def replacement (d : Discovery) (progress : Progress) (name : String) :
    Generation (List CodeUnit × Progress) :=
  match d.substitutions.get? name with
  | none => return ([], progress)
  | some substitution =>
    match progress.generated.get? name with
    | some units => return (units, progress)
    | none => do
      let (_, units) ← Generation.trackUnits substitution.generate
      return (units, { progress with generated := progress.generated.insert name units })

/-- Goes through the names found for a service. Answers the names that are left to be evaluated, in
order. -/
def collect (d : Discovery) (capability : String) (progress : Progress) (seen : List String) :
    List String → Generation (List String × Progress)
  | [] => return ([], progress)
  | name :: rest => do
    if d.settings.rejected.contains name then
      Generation.diagnose category (rejectedMessage name)
      collect d capability progress seen rest
    else if seen.contains name then
      collect d capability progress seen rest
    else
      let (units, progress) ← d.replacement progress name
      if units.isEmpty then
        let (pending, progress) ← collect d capability progress (name :: seen) rest
        return (name :: pending, progress)
      else
        let progress :=
          { progress with substitutes := progress.substitutes.add capability units }
        collect d capability progress (name :: seen) rest

/-- Enters what became of a service's candidates. -/
def enter (capability : String) (outcomes : List Outcome) (progress : Progress) : Progress :=
  let kept := outcomes.filterMap fun
    | .kept c => some c
    | _ => none
  let scopes := outcomes.filterMap fun
    | .unavailable scope => scope
    | _ => none
  { progress with
    disabledScopes := scopes.foldl NameSet.insert progress.disabledScopes
    tables := progress.tables.alter capability fun old => old.getD [] ++ kept }

/-- Scans one service. The candidates that are left are evaluated side by side. -/
def scan (d : Discovery) (capability : String) (progress : Progress) : Generation Progress := do
  Generation.diagnose category (startMessage capability)
  let found := (← get).application.discover capability
  let (pending, progress) ← d.collect capability progress [] found
  let c ← get
  let results := pending.map fun name =>
    evaluate d.settings c.application c.analyzer capability name
  modify fun c =>
    { c with diagnostics := c.diagnostics.addInterleaved c.schedule category (results.map (·.2)) }
  return enter capability (results.map (·.1)) progress

/-- Scans services in order. -/
def scanAll (d : Discovery) (progress : Progress) : List String → Generation Progress
  | [] => return progress
  | capability :: rest => do
    let progress ← d.scan capability progress
    d.scanAll progress rest

/-! ## Disabled namespaces -/

/-- The messages about the candidates of a list that a scope disables. -/
def disabledIn (scope : String) (cs : List ServiceCandidate) : List String :=
  (cs.filter fun c => isWithin scope c.name).map fun c => disabledMessage c.name scope

/-- The tables without the candidates inside a scope. -/
def withoutScope (scope : String) (tables : List (String × List ServiceCandidate)) :
    List (String × List ServiceCandidate) :=
  tables.map fun t => (t.1, t.2.filter fun c => !isWithin scope c.name)

/-- Removes the candidates inside the scopes, one scope after the other, with the messages about
them. -/
def disable (tables : List (String × List ServiceCandidate)) :
    List String → List (String × List ServiceCandidate) × List String
  | [] => (tables, [])
  | scope :: rest =>
    let messages := tables.flatMap fun t => disabledIn scope t.2
    let (tables, further) := disable (withoutScope scope tables) rest
    (tables, messages ++ further)

/-- The candidates of a table in their final form: in order, each name once. -/
def finalTable (cs : List ServiceCandidate) : List ServiceCandidate :=
  firstOfEach ServiceCandidate.name (ServiceCandidate.sorted cs)

/-- Runs a discovery. -/
def run (d : Discovery) : Generation DiscoveryResult := do
  let progress ← d.scanAll {} d.settings.serviceTypes
  let (tables, messages) := disable progress.tables.toList progress.disabledScopes.toList
  modify fun c => { c with diagnostics := c.diagnostics.addAll category messages }
  return {
    tables := .ofList (tables.map fun t => (t.1, finalTable t.2))
    substitutes := progress.substitutes }

end Discovery

end BuildAhead
