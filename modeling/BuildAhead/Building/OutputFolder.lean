import BuildAhead.Building.Summary
import BuildAhead.Code.Encoding
import BuildAhead.Files.Writing
import BuildAhead.Text.Case

set_option autoImplicit false

/-!
# Building: output folder

Where the parts of a build lie below its output folder: `resources` holds what modules wrote,
`sources` the generated units, one JSON document each in folders for their namespace, `logs` the
diagnostics of each category and the list of the resources to leave out, and `run-summary.json` the
summary.
-/

namespace BuildAhead

/-- The folder that a build is written to. -/
structure OutputFolder where
  root : Files.Path
  deriving DecidableEq, Repr, Inhabited

namespace OutputFolder

def resources (f : OutputFolder) : Files.Path := Files.Path.join f.root "resources"
def sources (f : OutputFolder) : Files.Path := Files.Path.join f.root "sources"
def logs (f : OutputFolder) : Files.Path := Files.Path.join f.root "logs"
def summaryFile (f : OutputFolder) : Files.Path := Files.Path.join f.root "run-summary.json"

/-- The file of a unit. -/
def unitFile (f : OutputFolder) (u : CodeUnit) : Files.Path :=
  let folder := (Text.words (· == '.') u.space).foldl Files.Path.join f.sources
  Files.Path.join folder (u.name ++ ".json")

/-- The file with the messages of a category, which is lower-cased by this table. -/
def logFile (f : OutputFolder) (letters : Text.CaseTable) (category : String) : Files.Path :=
  Files.Path.join f.logs (letters.lower category ++ ".log")

/-- The file that lists the resources to leave out. -/
def filterFile (f : OutputFolder) : Files.Path := Files.Path.join f.logs "resource-filter.txt"

/-- Messages one a line; also no messages at all make one line. -/
def linesText (messages : List String) : String := Text.joined "\n" messages ++ "\n"

/-- Every file of a delivery with its text, in the order in which they are written. -/
def files (f : OutputFolder) (letters : Text.CaseTable) (o : GenerationOutput) (s : RunSummary) :
    List (Files.Path × String) :=
  (o.units.map fun u => (f.unitFile u, u.toJson.pretty)) ++
    (o.diagnostics.entries.toList.map fun (category, messages) =>
      (f.logFile letters category, linesText messages)) ++
    [(f.filterFile, linesText o.excludedResources.toList), (f.summaryFile, s.toJson.pretty)]

/-- Writes what a build has produced, with categories lower-cased by this table. The first file that
cannot be written ends the delivery. -/
def deliverWith (letters : Text.CaseTable) (f : OutputFolder) (o : GenerationOutput)
    (s : RunSummary) : Writing Unit :=
  (f.files letters o s).forM fun (path, text) => Writing.writeFile path text

/-- Writes what a build has produced. -/
def deliver (f : OutputFolder) (o : GenerationOutput) (s : RunSummary) : Writing Unit :=
  f.deliverWith .standard o s

end OutputFolder

end BuildAhead
