import BuildAhead.Code.Literal
import BuildAhead.Modules.Basic
import BuildAhead.Services.Discovery

set_option autoImplicit false

/-!
# Optimizations: property sources

Configuration resources whose contents are known at build time become units that hold their keys and
values. `structuredConfig` puts these units in the place of the candidate that would read the
resources at start, and the module `sealed` lists them in an optimization loader.
-/

namespace BuildAhead.PropertySources

/-! ## Units for configuration resources -/

/-- The feature that replaces configuration resources. -/
def structuredConfigFeature : String := "yaml.to.static.config"

/-- The key of the candidate that is replaced. -/
def loaderKey : String := "yaml.to.static.config.loader"

/-- The candidate that is replaced when none is configured. -/
def defaultLoader : String := "prebake.runtime.YamlPropertySourceLoader"

/-- The key of the order of a resource's property source. -/
def orderKey (resource : String) : String := "map.property.order." ++ resource

/-- The least and the greatest order. -/
def lowestOrder : Int := -2147483648
def highestOrder : Int := 2147483647

/-- Names without repetitions, each at its first position. -/
def distinct (seen : List String) : List String → List String
  | [] => []
  | n :: rest => if seen.contains n then distinct seen rest else n :: distinct (n :: seen) rest

/-- The configuration resources of an application: the common one, then one for each active
environment, then one for each possible environment other than the default one. -/
def resourceNames (active : NameSet) (possible : List String) : List String :=
  distinct []
    ("application" ::
      (active.toList ++ possible.filter (· != "default")).map ("application-" ++ ·))

/-- The order of a resource's property source. -/
def orderOf (s : Settings) (resource : String) : Except BuildError Int := do
  let order ← s.int (orderKey resource) lowestOrder
  if order < lowestOrder ∨ highestOrder < order then
    throw (.configuration
      ("Value " ++ toString order ++ " for key '" ++ orderKey resource ++ "' is out of range"))
  return order

/-- A method that returns one expression. -/
def getter (name result : String) (value : Code.Expr) : Code.Method :=
  { name, returns := some result, body := [.ret value] }

/-- The name of the unit that holds a resource. -/
def unitNameOf (resource : String) : String := Names.fragment resource ++ "StaticPropertySource"

/-- The unit that holds the keys and values of a resource. -/
def unitOf (space resource : String) (order : Int) (values : Dict Json) : CodeUnit :=
  let (map, literals) := Code.Literals.map {} values.toList
  { space
    name := unitNameOf resource
    implements := [Runtime.propertySource]
    methods :=
      [getter "getName" "String" (.text resource), getter "getOrder" "int" (.int order),
        getter "values" "Map" map] ++ literals.helpers }

/-- Registers the units of those resources that the environment has, and leaves the resources
themselves out of the application. -/
def generateUnits : List String → Generation Unit
  | [] => return
  | resource :: rest => do
    let c ← get
    match c.analyzer.snapshot.configResources.get? resource with
    | none => generateUnits rest
    | some values =>
      let order ← liftExcept (orderOf c.settings resource)
      let _ ← Generation.registerUnit (unitOf c.space resource order values)
      Generation.excludeResource (resource ++ ".yml")
      generateUnits rest
where
  /-- A computation that may fail, as an action. -/
  liftExcept {α : Type} : Except BuildError α → Generation α
    | .ok a => return a
    | .error e => throw e

/-- The substitution of a candidate by the units of configuration resources. -/
def structuredConfig (loader : String) (resources : List String) : Substitution :=
  ⟨loader, generateUnits resources⟩

/-! ## The loader of constant property sources -/

def loaderTypeKey : String := "property.source.loader.type"
def defaultLoaderType : String := "prebake.runtime.PropertySourceLoader"
def loaderName : String := "AotConstantPropertySources"

/-- Makes a list of an instance of each unit. -/
def loaderBody (sources : List String) : LoaderBody where
  statements :=
    .bind "propertySources" (.construct "ArrayList" []) ::
      sources.map (fun s =>
        .eval (.callOn (.ident "propertySources") "add" [.construct s []])) ++
      [.ret (.construct Runtime.constantPropertySources [.ident "propertySources"])]

/-- The substitutes that become constant property sources. -/
def sourcesOf (c : Context) : List String :=
  let loaderType := (c.settings.text? loaderTypeKey).getD defaultLoaderType
  match c.substitutes with
  | none => []
  | some s => (s.get loaderType).map CodeUnit.qualifiedName

/-- The module that lists the substitutes of a service in an optimization loader. -/
def sealed : Module where
  descriptor :=
    { id := "sealed.property.source"
      description := "Precomputes property sources at build time"
      dependencies := ["serviceloading.jit", "serviceloading.native"]
      options :=
        [⟨loaderTypeKey, "The capability whose substitutes become constant property sources",
          defaultLoaderType⟩] }
  generate := do
    let sources := sourcesOf (← get)
    let _ ← Generation.registerStaticOptimization loaderName Runtime.constantPropertySources
      (loaderBody sources)

end BuildAhead.PropertySources
