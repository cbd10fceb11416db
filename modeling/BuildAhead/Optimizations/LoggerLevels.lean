import BuildAhead.Code.Literal
import BuildAhead.Modules.Basic

set_option autoImplicit false

/-!
# Optimizations: logger levels

The module that replaces the logging configuration of an application by a unit which sets the levels
found among the application's properties.
-/

namespace BuildAhead.LoggerLevels

def resourceKey : String := "logging.config.resource"
def defaultResource : String := "logback.xml"
def configuratorName : String := "StaticLoggingConfiguration"

/-- What the properties with logger levels begin with. -/
def levelPrefix : String := "logger.levels."

/-- The levels of a snapshot, by logger. -/
def levelsOf (s : Snapshot) : Dict Json :=
  .ofList (s.properties.toList.filterMap fun (p : String × Json) =>
    if levelPrefix.toList.isPrefixOf p.1.toList then
      some (String.ofList (p.1.toList.drop levelPrefix.length), p.2)
    else none)

/-- The unit that sets the levels. -/
def configurator (space : String) (levels : Dict Json) : CodeUnit :=
  let (map, literals) := Code.Literals.map {} levels.toList
  let configure : Code.Method :=
    { name := "configure"
      params := [⟨"context", "LoggingContext"⟩]
      body :=
        [.eval (.callOn (.ident "context") "reset" []),
          .eval (.callOn (.ident "context") "applyLevels" [map])] }
  { space
    name := configuratorName
    implements := [Runtime.loggingConfigurator]
    methods := configure :: literals.helpers }

/-- The module that replaces the logging configuration. -/
def module : Module where
  descriptor :=
    { id := "logging.static.config"
      description := "Replaces the logging configuration file with static configuration"
      options :=
        [⟨resourceKey, "Logging configuration resource replaced by the static configuration",
          defaultResource⟩] }
  generate := do
    let c ← get
    let resource := (c.settings.text? resourceKey).getD defaultResource
    let _ ← Generation.registerUnit (configurator c.space (levelsOf c.analyzer.snapshot))
    Generation.registerServiceImplementation Runtime.loggingConfigurator configuratorName
    Generation.excludeResource resource

end BuildAhead.LoggerLevels
