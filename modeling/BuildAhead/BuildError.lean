import BuildAhead.Text.Pieces
import BuildAhead.Text.Quoted

set_option autoImplicit false

/-!
# Build errors

The causes for which a build stops, and how each is worded. What keeps a single candidate from
being used never stops a build; those causes are `LoadError` and `ProbeError`, which end up in the
diagnostics.
-/

namespace BuildAhead

/-- Why a build stopped. -/
inductive BuildError where
  /-- a configuration key that must be set is absent or blank -/
  | missingKey (key : String)
  /-- a configuration that cannot be read or has a value out of its range -/
  | configuration (reason : String)
  /-- the configured runtime is none of the known ones -/
  | unknownProfile (name : String)
  /-- two modules have one identifier -/
  | duplicateModule (id : String)
  /-- a module depends on one that is not registered -/
  | unknownDependency (id : String) (dependency : String)
  /-- modules depend on each other in a circle -/
  | cyclicDependency (cycle : List String)
  /-- a module stopped with an error of its own -/
  | moduleFailed (id : String) (cause : BuildError)
  /-- two generated units, or two static initializers, have one name -/
  | nameCollision (name : String)
  /-- something was registered after the deferred writes were run -/
  | alreadyFinished
  /-- a file could not be written -/
  | resourceWrite (path : String) (reason : String)
  /-- the manifest of the application cannot be read -/
  | manifest (reason : String)
  /-- a module gave up -/
  | generationFailed (reason : String)
  /-- an error of the operating system outside the writing of resources -/
  | io (reason : String)
  deriving DecidableEq, Repr, Inhabited

namespace BuildError

/-- A cycle with its first member repeated at the end. -/
def cycleText : List String → String
  | [] => "empty cycle"
  | first :: rest => Text.joined " -> " (first :: rest ++ [first])

/-- The wording of an error. -/
def message : BuildError → String
  | .missingKey key => "Missing mandatory configuration key: " ++ key
  | .configuration reason => "Configuration error: " ++ reason
  | .unknownProfile name => "Unknown runtime profile: " ++ name
  | .duplicateModule id => "Module '" ++ id ++ "' is registered more than once"
  | .unknownDependency id dependency =>
    "Module '" ++ id ++ "' depends on unknown module '" ++ dependency ++ "'"
  | .cyclicDependency cycle => "Circular module dependency detected: " ++ cycleText cycle
  | .moduleFailed id cause => "Module '" ++ id ++ "' failed: " ++ cause.message
  | .nameCollision name => "Generated artifact name collision: " ++ name
  | .alreadyFinished => "Generation context already finished"
  | .resourceWrite path reason =>
    "Failed to write resource " ++ Text.quoted path ++ ": " ++ reason
  | .manifest reason => "Invalid application manifest: " ++ reason
  | .generationFailed reason => "Generation failed: " ++ reason
  | .io reason => "I/O error: " ++ reason

end BuildError

/-- Why a candidate cannot be loaded. -/
inductive LoadError where
  /-- the application has no such type -/
  | notFound (name : String)
  /-- a type that the candidate needs cannot be resolved -/
  | missingDependency (candidate : String) (dependency : String)
  deriving DecidableEq, Repr, Inhabited

/-- The wording of a load error. -/
def LoadError.message : LoadError → String
  | .notFound name => "type " ++ name ++ " not found"
  | .missingDependency candidate dependency =>
    "missing dependency " ++ dependency ++ " required by " ++ candidate

/-- Why the requirements of a candidate cannot be evaluated. -/
structure ProbeError where
  candidate : String
  reason : String
  deriving DecidableEq, Repr, Inhabited

/-- The wording of a probe error. -/
def ProbeError.message (e : ProbeError) : String :=
  "unable to construct probe for " ++ e.candidate ++ ": " ++ e.reason

end BuildAhead
