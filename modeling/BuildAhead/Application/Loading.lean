import BuildAhead.Application.Codec
import BuildAhead.Files.Tree
import BuildAhead.Text.Case
import BuildAhead.Toml.Reader

set_option autoImplicit false

/-!
# Application: manifest files

Reading a manifest from a file. A file whose name ends in `.toml`, in any case, is a TOML document;
every other file is a JSON document. Whatever is wrong with the file, the error is that of the
manifest.
-/

namespace BuildAhead

namespace Manifest

/-- Whether the file at a path holds TOML. -/
def isToml (path : Files.Path) : Bool :=
  (Files.Path.extension? path).map Text.asciiLower == some "toml"

/-- The document of a manifest file as a JSON value. -/
def document? (path : Files.Path) (text : String) : Option Json :=
  if isToml path then Toml.readJson? text else Json.readAs? shape text

/-- Reads the manifest at a path. -/
def load (tree : Files.Tree) (path : Files.Path) : Except BuildError Manifest :=
  match tree.read path with
  | .error fault => .error (.manifest ("Failed to read " ++ path ++ ": " ++ fault.message))
  | .ok text =>
    match (document? path text).bind ofJson? with
    | some m => .ok m
    | none => .error (.manifest ("Failed to parse " ++ path))

end Manifest

end BuildAhead
