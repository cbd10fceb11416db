import BuildAhead.Application.Codec
import BuildAhead.Generation.Context

set_option autoImplicit false

/-!
# Building: summary

What one build has produced, without the code itself, and when it was made. A summary is kept as a
JSON document beside the files of the build.
-/

namespace BuildAhead

/-- What a build has produced, in short. -/
structure RunSummary where
  space : String
  profile : Profile
  executedModules : List String
  /-- the qualified names of the units, in the order in which they were registered -/
  units : List String
  excludedResources : NameSet
  buildTimeInit : NameSet
  /-- the number of messages in each category -/
  diagnostics : Dict Nat
  generatedAt : String
  deriving Repr, Inhabited

/-- A profile in a JSON document: one of its names, or an object with that name and `null`. -/
def Profile.ofJson? : Json → Option Profile
  | .text name => ofName? name
  | .object [(name, .null)] => ofName? name
  | _ => none

/-- A number of things: an integer that is not negative and fits 64 bits. -/
def Json.toCount? : Json → Option Nat
  | .int n => if 0 ≤ n ∧ n.toNat < twoTo 64 then some n.toNat else none
  | _ => none

namespace RunSummary

/-- The summary of what a build has produced. -/
def ofOutput (o : GenerationOutput) (profile : Profile) (generatedAt : String) : RunSummary where
  space := o.space
  profile
  executedModules := o.executedModules
  units := o.units.map CodeUnit.qualifiedName
  excludedResources := o.excludedResources
  buildTimeInit := o.buildTimeInit
  diagnostics := .ofList o.diagnostics.counts
  generatedAt

/-- A summary as a JSON value. -/
def toJson (s : RunSummary) : Json :=
  .object
    [("namespace", .text s.space), ("profile", .text s.profile.slug),
      ("executed_modules", .ofNames s.executedModules), ("units", .ofNames s.units),
      ("excluded_resources", .ofNames s.excludedResources.toList),
      ("build_time_init", .ofNames s.buildTimeInit.toList),
      ("diagnostics", .ofDictWith .ofNat s.diagnostics), ("generated_at", .text s.generatedAt)]

open Json in
/-- Reads a summary; no field may be left out. -/
def ofJson? (v : Json) : Option RunSummary := do
  match ← fields?
    ["namespace", "profile", "executed_modules", "units", "excluded_resources",
      "build_time_init", "diagnostics", "generated_at"] v with
  | [space, profile, executed, units, excluded, init, diagnostics, generatedAt] =>
    return {
      space := ← required toText? space
      profile := ← required Profile.ofJson? profile
      executedModules := ← required (toList? toText?) executed
      units := ← required (toList? toText?) units
      excludedResources := ← required toNameSet? excluded
      buildTimeInit := ← required toNameSet? init
      diagnostics := ← required (toDict? toCount?) diagnostics
      generatedAt := ← required toText? generatedAt }
  | _ => none

end RunSummary

end BuildAhead
