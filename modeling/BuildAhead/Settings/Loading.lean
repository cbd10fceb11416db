import BuildAhead.Settings.Standard

set_option autoImplicit false

/-!
# Settings: loading

The settings of a run in four layers, of which the later win: the default, a file, environment
variables and explicit values. A library reads and merges them; the merged tree is flattened.
-/

namespace BuildAhead

namespace Settings

/-- The message about a configuration file that is missing. -/
def missingFileMessage (path : Files.Path) : String := "Configuration file not found: " ++ path

/-- The variables for settings. -/
def environment : SettingsSource := .environment "PREBAKE" "__"

/-- The sources of a run, the lower first. A file must be there. -/
def sourcesOf (tree : Files.Tree) :
    Option Files.Path → Except BuildError (List SettingsSource)
  | none => .ok [environment]
  | some path =>
    if tree.isFile path then .ok [.file path (.ofPath path), environment]
    else .error (.configuration (missingFileMessage path))

/-- The layer below all others. -/
def defaults : List (String × ConfigTree) := [(runtimeKey, .scalar Profile.jit.slug)]

/-- The layer above all others. Of two values for one text of a key the later counts. -/
def overrides (explicit : List (String × String)) : List (String × ConfigTree) :=
  (Dict.ofList explicit).toList.map fun e => (e.1, .scalar e.2)

/-- The layers of a run, the lowest first. Every key that is set on its own is checked before a
source is read. -/
def layersOf (l : SettingsLibrary) (tree : Files.Tree) (file : Option Files.Path)
    (env : Environment) (explicit : List (String × String)) :
    Except BuildError (List (List (String × ConfigTree))) := do
  let check (key : String) : Except BuildError Unit := (l.checkKey key).mapError .configuration
  check runtimeKey
  let sources ← sourcesOf tree file
  explicit.forM fun e => check e.1
  let collected ← sources.mapM fun source => (l.collect tree env source).mapError .configuration
  return defaults :: collected ++ [overrides explicit]

/-- Loads the settings of a run by a library. -/
def loadWith (l : SettingsLibrary) (tree : Files.Tree) (file : Option Files.Path)
    (env : Environment) (explicit : List (String × String)) : Except BuildError Settings := do
  let layers ← layersOf l tree file env explicit
  (ConfigTree.table (l.merge layers)).settings l.text

/-- Loads the settings of a run. -/
def load (tree : Files.Tree) (file : Option Files.Path) (env : Environment)
    (explicit : List (String × String)) : Except BuildError Settings :=
  loadWith .standard tree file env explicit

end Settings

end BuildAhead
