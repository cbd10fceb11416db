import BuildAhead.Code.Literal
import BuildAhead.Generation.Context

set_option autoImplicit false

/-!
# Optimizations: entry point

The unit through which a prepared application is started. Its static block calls every static
initializer that modules have registered, and its method `configure` tells the application how it
was prepared. It is made last, when all modules have run.
-/

namespace BuildAhead.EntryPoint

def configurerName : String := "AotApplicationConfigurer"

/-- The properties that tell an application how it was prepared. -/
def diagnosticProperties (c : Context) : Dict Json :=
  .ofList
    [("prebake.enabled", .bool true), ("prebake.runtime", .text c.profile.slug),
      ("prebake.optimizations", .ofNames c.executedModules)]

/-- The call of a static initializer; what it returns is bound to a name. -/
def initializerCall (m : Code.Method) : Code.Stmt :=
  match m.returns with
  | some _ => .bind ("_" ++ m.name) (.callOwn m.name [])
  | none => .eval (.callOwn m.name [])

/-- The unit of the entry point. -/
def configurer (c : Context) : CodeUnit :=
  let (map, literals) := Code.Literals.map {} (diagnosticProperties c).toList
  let configure : Code.Method :=
    { name := "configure"
      params := [⟨"builder", Runtime.contextBuilder⟩]
      body := [.eval (.callOn (.ident "builder") "properties" [map])] }
  { space := c.space
    name := configurerName
    implements := [Runtime.applicationConfigurer]
    methods := c.staticInitializers ++ configure :: literals.helpers
    staticInit := c.staticInitializers.map initializerCall }

/-- Registers the entry point, among the units and in the manifest of its service. -/
def synthesize : Generation Code.UnitName := do
  let unitName ← Generation.registerUnit (configurer (← get))
  Generation.registerServiceImplementation Runtime.applicationConfigurer configurerName
  return unitName

end BuildAhead.EntryPoint
