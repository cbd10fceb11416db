import BuildAhead.Modules.Basic
import BuildAhead.Report.Table

set_option autoImplicit false

/-!
# Report: modules

The list of the modules of a profile in the order in which they run, as a table and as JSON.
-/

namespace BuildAhead.Report

/-- The row of a module with its number in the list. -/
def moduleRow (number : Nat) (d : ModuleDescriptor) : List String :=
  [toString number, d.id, Text.joined ", " (d.profiles.toList.map Profile.slug),
    if d.enabledByDefault then "on" else "off",
    if d.dependencies.isEmpty then "-" else Text.joined ", " d.dependencies,
    d.description]

/-- The list as a table. -/
def modules (profile : Profile) (ds : List ModuleDescriptor) : String :=
  let title := heading ("Modules (" ++ profile.slug ++ ")") ++ "\n\n"
  if ds.isEmpty then title ++ "No modules apply to this runtime.\n"
  else
    let table : Table :=
      ⟨["#", "Module", "Runtimes", "Default", "Depends on", "Description"],
        ds.zipIdx.map fun (d, i) => moduleRow (i + 1) d⟩
    title ++ table.render ++ "\n" ++ "\nTotal: " ++ toString ds.length ++ " module(s)"

/-- The list as a JSON document. -/
def modulesJson (profile : Profile) (ds : List ModuleDescriptor) : String :=
  Json.pretty
    (.object
      [("runtime", .text profile.slug), ("modules", .array (ds.map ModuleDescriptor.toJson)),
        ("total", .ofNat ds.length)])

end BuildAhead.Report
