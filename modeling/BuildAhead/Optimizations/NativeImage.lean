import BuildAhead.Modules.Basic
import BuildAhead.Optimizations.EntryPoint
import BuildAhead.Optimizations.ServiceLoading

set_option autoImplicit false

/-!
# Optimizations: native image arguments

The file with the arguments for the tool that builds native images: which types it initializes
itself, and which services it need not load. The file is written at the end of the build, so it
knows of types that later modules registered.
-/

namespace BuildAhead.NativeImage

/-- Where the arguments of a namespace lie among the resources. -/
def argumentsPath (space : String) : String :=
  "META-INF/native-image/" ++ space ++ "/native-image.properties"

/-- The argument that has a type initialized at build time. -/
def initArgument (name : String) : String := "--initialize-at-build-time=" ++ name

/-- The argument that leaves out a service. -/
def excludeArgument (service : String) : String :=
  "-H:ServiceLoaderFeatureExcludeServices=" ++ service

/-- The arguments, in order. -/
def arguments (space : String) (buildTimeInit : NameSet) (excludedServices : List String) :
    List String :=
  initArgument Runtime.applicationConfigurer ::
    initArgument (space ++ "." ++ EntryPoint.configurerName) ::
    buildTimeInit.toList.map initArgument ++ excludedServices.map excludeArgument

/-- The text of the file: one property with an argument a line. -/
def argumentsText (space : String) (buildTimeInit : NameSet) (excludedServices : List String) :
    String :=
  "Args=" ++ Text.joined " \\\n     " (arguments space buildTimeInit excludedServices) ++ "\n\n"

/-- The services that the image need not load: those that have a static table. -/
def excludedServices (s : Settings) : List String :=
  if s.bool (Names.switch (ServiceLoading.moduleId .native)) true then
    s.items DiscoverySettings.serviceTypesKey
  else []

/-- The module that writes the arguments. -/
def module : Module where
  descriptor :=
    { id := "native.image.config"
      description :=
        "Generates native-image configuration files required to load the optimizations"
      profiles := .nativeOnly
      options :=
        [⟨DiscoverySettings.serviceTypesKey,
          "The list of service types to be scanned (comma separated)",
          "prebake.runtime.Service1,prebake.runtime.Service2"⟩] }
  generate := do
    let c ← get
    let excluded := excludedServices c.settings
    Generation.registerResource (argumentsPath c.space) fun view =>
      .replace (argumentsText view.space view.buildTimeInit excluded)

end BuildAhead.NativeImage
