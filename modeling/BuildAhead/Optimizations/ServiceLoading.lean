import BuildAhead.Optimizations.PropertySources
import BuildAhead.Services.Rendering

set_option autoImplicit false

/-!
# Optimizations: service loading

The two modules that scan for services ahead of time, one for each profile. Each runs the discovery,
registers the unit of every table that was found, and registers an optimization loader that maps
each service to its table.
-/

namespace BuildAhead.ServiceLoading

/-- The identifier of a profile's module. -/
def moduleId : Profile → String
  | .jit => "serviceloading.jit"
  | .native => "serviceloading.native"

def loaderName : String := "StaticServicesLoader"

/-- The substitution of configuration resources, if it is switched on. -/
def structuredConfig? (c : Context) (settings : DiscoverySettings) : Option Substitution :=
  if c.settings.featureEnabled PropertySources.structuredConfigFeature then
    some (PropertySources.structuredConfig
      ((c.settings.text? PropertySources.loaderKey).getD PropertySources.defaultLoader)
      (PropertySources.resourceNames c.analyzer.snapshot.activeEnvironments
        settings.possibleEnvironments))
  else none

/-- The discovery that a build's settings ask for. -/
def discoveryOf (c : Context) (settings : DiscoverySettings) : Discovery :=
  let d : Discovery := { settings }
  match structuredConfig? c settings with
  | some s => d.register s
  | none => d

/-- Maps each service to an instance of its table. -/
def loaderBody (factories : List (String × String)) : LoaderBody where
  statements :=
    .bind "services" (.construct "HashMap" []) ::
      factories.map (fun f =>
        .eval (.callOn (.ident "services") "put" [.text f.1, .construct f.2 []])) ++
      [.ret (.construct Runtime.staticServices [.ident "services"])]

/-- Registers the units of tables, in order. -/
def registerTables (profile : Profile) (maxUnitSize : Nat) : List TableSpec → Generation Unit
  | [] => return
  | t :: rest => do
    let _ ← Generation.registerUnit (t.render profile (← get).space maxUnitSize)
    registerTables profile maxUnitSize rest

/-- Scans the services and generates their tables. -/
def generate (profile : Profile) : Generation Unit := do
  let c ← get
  let settings ←
    match DiscoverySettings.ofSettings c.settings with
    | .ok settings => pure settings
    | .error e => throw e
  let result ← (discoveryOf c settings).run
  Generation.publishSubstitutes result.substitutes
  registerTables profile settings.maxUnitSize result.specs
  let _ ← Generation.registerStaticOptimization loaderName Runtime.staticServices
    (loaderBody (result.specs.map fun t => (t.capability, t.factoryName)))

/-- The configuration keys that the modules read. -/
def options : List OptionSpec :=
  [⟨DiscoverySettings.serviceTypesKey,
      "The list of service types to be scanned (comma separated)",
      "prebake.runtime.PropertySourceLoader,prebake.runtime.BeanConfiguration," ++
        "prebake.runtime.BeanDefinitionReference,prebake.runtime.TypeConverterRegistrar," ++
        "prebake.runtime.ApplicationContextConfigurer"⟩,
    ⟨DiscoverySettings.rejectedKey,
      "A list of implementation types which shouldn't be included in the final application " ++
        "(comma separated)",
      "com.Misc,org.Bar"⟩,
    ⟨DiscoverySettings.forceIncludeKey,
      "A list of service implementations to be forcefully included, even if they are not " ++
        "available (comma separated)",
      "com.Misc,org.Bar"⟩,
    ⟨DiscoverySettings.possibleEnvironmentsKey,
      "The list of environments which may be active at runtime (comma separated)",
      "dev,prod"⟩,
    ⟨DiscoverySettings.maxUnitSizeKey,
      "Maximum size of a generated table unit before it is split into sub-loaders",
      "30000"⟩,
    ⟨PropertySources.loaderKey,
      "The configuration file loader replaced by static property sources",
      PropertySources.defaultLoader⟩]

/-- The module of a profile. -/
def module (profile : Profile) : Module where
  descriptor :=
    { id := moduleId profile
      description :=
        "Scans for service types ahead-of-time, avoiding classpath scanning at startup"
      subModules := [PropertySources.structuredConfigFeature]
      options
      profiles :=
        match profile with
        | .jit => .jitOnly
        | .native => .nativeOnly
      enabledByDefault := true }
  generate := generate profile

end BuildAhead.ServiceLoading
