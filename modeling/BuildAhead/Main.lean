import BuildAhead.CommandLine.Session
import BuildAhead.Optimizations.Catalogue
import Std.Time.Format

set_option autoImplicit false

/-!
# The program

Runs one session against the real files: what the session may look at is read into a file tree, the
session is run on that tree, and what it changed is written back.
-/

namespace BuildAhead.Program

/-- The time of day in UTC. -/
def now : IO String := do
  let time := Std.Time.DateTime.ofTimestampWithZone (← Std.Time.Timestamp.now) .GMT
  return String.ofList (time.toLeanDateTimeWithZoneString.toList.dropLast) ++ "+00:00"

/-- The environment variables of this process. -/
def environment : IO Environment := do
  let text ← IO.FS.readFile "/proc/self/environ"
  return (Text.words (· == '\x00') text).filterMap (Text.splitFirst? '=')

/-- The path of a place. -/
def pathOf (place : Files.Place) : Files.Path := "/" ++ Text.joined "/" place

/-- The places that the segments of a path lead through. -/
def passed (start : Files.Place) : List String → List Files.Place
  | [] => []
  | s :: rest =>
    let next := if s = ".." then start.dropLast else start ++ [s]
    next :: passed next rest

/-- Reads what is at a place, a folder without what is inside it. Nothing may be there. -/
def look (tree : Files.Tree) (place : Files.Place) : IO Files.Tree := do
  let path := (← IO.currentDir) / pathOf place
  if ← path.isDir then return tree.put place .folder
  else if ← path.pathExists then
    let text ← try IO.FS.readFile path catch _ => pure ""
    return tree.put place (.file text)
  else return tree

/-- How deep below a folder files are read. -/
def depthLimit : Nat := 64

/-- Reads everything below a place. -/
def lookBelow : Nat → Files.Tree → Files.Place → IO Files.Tree
  | 0, tree, _ => return tree
  | depth + 1, tree, place => do
    let tree ← look tree place
    let path := (← IO.currentDir) / pathOf place
    if ← path.isDir then
      let names := (← path.readDir).toList.map fun entry => entry.fileName
      names.foldlM (fun tree name => lookBelow depth tree (place ++ [name])) tree
    else return tree

/-- Reads what a path leads through and everything below its end. -/
def lookAlong (tree : Files.Tree) (path : Files.Path) : IO Files.Tree := do
  let places := passed (tree.startOf path) (Files.Path.segments path)
  let tree ← places.foldlM look tree
  match places.getLast? with
  | some place => lookBelow depthLimit tree place
  | none => return tree

/-- The paths that a command reads or writes. -/
def pathsOf : Command → List Files.Path
  | .run application output config _ _ => application :: output :: config.toList
  | .modules _ _ => []
  | .exportConfig _ file => [file]

/-- The tree that a session with these arguments starts on. -/
def startTree (arguments : List String) (e : Environment) : IO Files.Tree := do
  let working := Files.Path.segments (← IO.currentDir).toString
  let tree ← (passed [] working).foldlM look { workingFolder := working }
  match CommandLine.parse arguments with
  | .error _ => return tree
  | .ok invocation =>
    let tree ← (pathsOf invocation.command).foldlM lookAlong tree
    lookAlong tree (invocation.logging tree e).file

/-- Writes back one place. -/
def store (before : Files.Tree) (place : Files.Place) (node : Files.Node) : IO Unit := do
  if before.node? place != some node then
    match node with
    | .folder => IO.FS.createDirAll (pathOf place)
    | .file text => IO.FS.writeFile (pathOf place) text

/-- Writes back what differs between two trees, folders before what is inside them. -/
def writeBack (before after : Files.Tree) : IO Unit := do
  before.nodes.forM fun (place, _) => do
    if (after.node? place).isNone then IO.FS.removeFile (pathOf place)
  let nodes := after.nodes.mergeSort fun a b => a.1.length ≤ b.1.length
  nodes.forM fun (place, node) => store before place node

/-- Runs one session. -/
def run (arguments : List String) : IO UInt32 := do
  let e ← environment
  let before ← startTree arguments e
  let (result, after) := (Session.run .standard e (← now) arguments).run before
  writeBack before after
  (← IO.getStdout).putStr result.stdout
  (← IO.getStderr).putStr result.stderr
  return result.code.toUInt32

end BuildAhead.Program

/-- The command line. -/
def main (arguments : List String) : IO UInt32 := BuildAhead.Program.run arguments
