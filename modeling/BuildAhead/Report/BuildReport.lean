import BuildAhead.Building.Summary
import BuildAhead.Report.Table
import BuildAhead.Text.Blank

set_option autoImplicit false

/-!
# Report: builds and their errors

What the command line says about a build that was run, and about one that failed.
-/

namespace BuildAhead.Report

/-- Two lists side by side, the shorter one filled up with empty texts. -/
def sideBySide : List String → List String → List (List String)
  | [], [] => []
  | a :: as, [] => [a, ""] :: sideBySide as []
  | [], b :: bs => ["", b] :: sideBySide [] bs
  | a :: as, b :: bs => [a, b] :: sideBySide as bs

/-- The text without the blanks at its end. -/
def trimEnd (s : String) : String :=
  String.ofList (s.toList.reverse.dropWhile Text.isBlank).reverse

/-- The line about the resources to leave out, if there are any. -/
def excludedText (s : RunSummary) : String :=
  if s.excludedResources.isEmpty then ""
  else "\n  Excluded resources: " ++ Text.joined ", " s.excludedResources.toList ++ "\n"

/-- The lines about the diagnostics, if there are any. -/
def diagnosticsText (s : RunSummary) : String :=
  if s.diagnostics.isEmpty then ""
  else
    "\n  Diagnostics:\n" ++
      String.join (s.diagnostics.toList.map fun (category, count) =>
        "    " ++ category ++ ": " ++ toString count ++ " message(s)\n")

/-- The report of a build that was run. -/
def build (s : RunSummary) (output : Files.Path) : String :=
  let table : Table :=
    ⟨["Executed modules", "Generated units"], sideBySide s.executedModules s.units⟩
  trimEnd
    (heading "Optimization run" ++ "\n\n" ++
      "  Runtime: " ++ s.profile.slug ++ "\n" ++
      "  Package: " ++ s.space ++ "\n" ++
      "  Output: " ++ output ++ "\n" ++
      "  Generated at: " ++ s.generatedAt ++ "\n\n" ++
      table.render ++ "\n" ++ excludedText s ++ diagnosticsText s)

/-- What is printed when a command fails. A missing namespace comes with a hint. -/
def failure (e : BuildError) : String :=
  match e with
  | .missingKey key =>
    if key = Settings.packageKey then
      "Error: " ++ e.message ++ "\nSet '" ++ Settings.packageKey ++
        "' in the configuration file or pass --package."
    else "Error: " ++ e.message
  | .moduleFailed id cause => "Error: optimization module '" ++ id ++ "' failed: " ++ cause.message
  | e => "Error: " ++ e.message

end BuildAhead.Report
