import BuildAhead.Generation.Context
import BuildAhead.Toml.Quoted

set_option autoImplicit false

/-!
# Modules

A module is one piece of build-time work, together with a description of it: what it needs to run
after, the features inside it, the configuration keys that it reads, and the profiles that it is
for.
-/

namespace BuildAhead

/-- A configuration key that a module reads. -/
structure OptionSpec where
  key : String
  description : String
  sample : String
  deriving DecidableEq, Repr, Inhabited

namespace OptionSpec

/-- A text as comment lines. -/
def comment (text : String) : String :=
  String.join ((Text.lines text).map fun l => "# " ++ l ++ "\n")

/-- The key with its sample value, quoted in this way, behind its description as a comment. -/
def assignmentWith (quote : String → String) (o : OptionSpec) : String :=
  comment o.description ++ o.key ++ " = " ++ quote o.sample

/-- The key with its sample value, behind its description as a comment. -/
def assignment (o : OptionSpec) : String := o.assignmentWith Toml.quoted

/-- An option as a JSON value. -/
def toJson (o : OptionSpec) : Json :=
  .object
    [("key", .text o.key), ("description", .text o.description), ("sample", .text o.sample)]

end OptionSpec

/-- The profiles of a module as a JSON value. -/
def ProfileSet.toJson (s : ProfileSet) : Json :=
  .object [("dynamic", .bool s.jit), ("ahead_of_time", .bool s.native)]

/-- What is known of a module without running it. -/
structure ModuleDescriptor where
  id : String
  description : String := ""
  /-- the modules that must run before it -/
  dependencies : List String := []
  /-- the features inside it that are switched on their own -/
  subModules : List String := []
  options : List OptionSpec := []
  profiles : ProfileSet := .both
  /-- whether it runs when its switch is not configured -/
  enabledByDefault : Bool := false
  deriving DecidableEq, Repr, Inhabited

namespace ModuleDescriptor

/-- Whether the module is switched on. -/
def enabled (d : ModuleDescriptor) (s : Settings) : Bool :=
  s.bool (Names.switch d.id) d.enabledByDefault

/-- A descriptor as a JSON value. -/
def toJson (d : ModuleDescriptor) : Json :=
  .object
    [("id", .text d.id), ("description", .text d.description),
      ("dependencies", .ofNames d.dependencies), ("sub_modules", .ofNames d.subModules),
      ("options", .array (d.options.map OptionSpec.toJson)), ("profiles", d.profiles.toJson),
      ("enabled_by_default", .bool d.enabledByDefault)]

end ModuleDescriptor

/-- A module: its description and its work. -/
structure Module where
  descriptor : ModuleDescriptor
  generate : Generation Unit

/-- The identifier of a module. -/
def Module.id (m : Module) : String := m.descriptor.id

end BuildAhead
