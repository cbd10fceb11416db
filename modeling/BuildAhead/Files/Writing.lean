import BuildAhead.BuildError
import BuildAhead.Files.Tree

set_option autoImplicit false

/-!
# Files: writing

Actions that write files. An action may fail, and what it wrote before it failed stays.
-/

namespace BuildAhead

/-- An action on the file tree, which may fail. -/
abbrev Writing (α : Type) : Type := ExceptT BuildError (StateM Files.Tree) α

namespace Writing

/-- A step on the tree, whose fault is reported for a path. -/
def step (path : Files.Path) (f : Files.Tree → Except Files.Fault Files.Tree) : Writing Unit := do
  match f (← get) with
  | .ok tree => set tree
  | .error fault => throw (.resourceWrite path fault.message)

/-- Makes the folder above a path, if it is missing, and writes the file. -/
def writeFile (path : Files.Path) (text : String) : Writing Unit := do
  match Files.Path.parent? path with
  | none => pure ()
  | some above => step above fun tree => tree.makeFolders above
  step path fun tree => tree.write path text

end Writing

end BuildAhead
