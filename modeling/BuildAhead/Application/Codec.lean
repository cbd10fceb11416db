import BuildAhead.Application.Model
import BuildAhead.Json.Reader

set_option autoImplicit false

/-!
# Application: manifests as JSON

Reading and writing manifests as JSON values. A record is an object, whose unknown members are
ignored and whose known members must not be repeated, or an array of its fields in order. A field
that is left out has its default; only the name of a property requirement has none. In a map of
free keys the last of equal keys counts.
-/

namespace BuildAhead

namespace Json

/-- The values of the fields of a record, in the order of `names`; none when the value is no record
with these fields. -/
def fields? (names : List String) : Json → Option (List (Option Json))
  | .object members =>
    if names.all fun n => (members.filter fun m => m.1 == n).length ≤ 1 then
      some (names.map fun n => Dict.lookup n members)
    else none
  | .array items =>
    if items.length ≤ names.length then
      some ((items.map some) ++ List.replicate (names.length - items.length) none)
    else none
  | _ => none

/-- A truth value. -/
def toBool? : Json → Option Bool
  | .bool b => some b
  | _ => none

/-- A text. -/
def toText? : Json → Option String
  | .text s => some s
  | _ => none

/-- A value or `null`. -/
def toOption? {α : Type} (read : Json → Option α) : Json → Option (Option α)
  | .null => some none
  | v => (read v).map some

/-- A list of values. -/
def toList? {α : Type} (read : Json → Option α) : Json → Option (List α)
  | .array items => items.mapM read
  | _ => none

/-- A map of free keys. -/
def toDict? {α : Type} (read : Json → Option α) : Json → Option (Dict α)
  | .object members =>
    (members.mapM fun (m : String × Json) => (read m.2).map fun a => (m.1, a)).map Dict.ofList
  | _ => none

/-- A set of texts, written as a list. -/
def toNameSet? (v : Json) : Option NameSet := (toList? toText? v).map NameSet.ofList

/-- A field with a default. -/
def orDefault {α : Type} (default : α) (read : Json → Option α) : Option Json → Option α
  | none => some default
  | some v => read v

/-- A field that must be present. -/
def required {α : Type} (read : Json → Option α) : Option Json → Option α
  | none => none
  | some v => read v

end Json

open Json in
/-- Reads reactive types. -/
def ReactiveTypes.ofJson? (v : Json) : Option ReactiveTypes := do
  match ← fields? ["reactive", "single", "completable"] v with
  | [reactive, single, completable] =>
    return {
      reactive := ← orDefault [] (toList? toText?) reactive
      single := ← orDefault [] (toList? toText?) single
      completable := ← orDefault [] (toList? toText?) completable }
  | _ => none

open Json in
/-- Reads an environment. -/
def Snapshot.ofJson? (v : Json) : Option Snapshot := do
  match ← fields?
    ["active_environments", "packages", "deduce_environment", "properties",
      "environment_variables", "config_resources", "reactive_types"] v with
  | [active, packages, deduce, properties, environ, resources, reactive] =>
    return {
      activeEnvironments := ← orDefault ∅ toNameSet? active
      packages := ← orDefault [] (toList? toText?) packages
      deduceEnvironment := ← orDefault none (toOption? toBool?) deduce
      properties := ← orDefault ∅ (toDict? fun v => some v.canonical) properties
      environmentVariables := ← orDefault ∅ (toDict? toText?) environ
      configResources := ← orDefault ∅ (toDict? (toDict? fun v => some v.canonical)) resources
      reactiveTypes := ← orDefault {} ReactiveTypes.ofJson? reactive }
  | _ => none

open Json in
/-- Reads a condition on a property. -/
def PropertyRequirement.ofJson? (v : Json) : Option PropertyRequirement := do
  match ← fields? ["name", "value", "not_equals"] v with
  | [name, value, notEquals] =>
    return {
      name := ← required toText? name
      value := ← orDefault none (toOption? toText?) value
      notEquals := ← orDefault none (toOption? toText?) notEquals }
  | _ => none

open Json in
/-- Reads requirements. -/
def Requirements.ofJson? (v : Json) : Option Requirements := do
  match ← fields? ["env", "not_env", "properties", "missing_properties"] v with
  | [env, notEnv, properties, missing] =>
    return {
      env := ← orDefault [] (toList? toText?) env
      notEnv := ← orDefault [] (toList? toText?) notEnv
      properties := ← orDefault [] (toList? PropertyRequirement.ofJson?) properties
      missingProperties := ← orDefault [] (toList? toText?) missing }
  | _ => none

open Json in
/-- Reads a type. -/
def TypeDescriptor.ofJson? (v : Json) : Option TypeDescriptor := do
  match ← fields?
    ["factory_method", "public_no_arg_constructor", "requirements", "missing_dependency",
      "probe_failure", "configuration_scope"] v with
  | [factory, constructor, requirements, missing, failure, scope] =>
    return {
      factoryMethod := ← orDefault false toBool? factory
      publicNoArgConstructor := ← orDefault false toBool? constructor
      requirements := ← orDefault none (toOption? Requirements.ofJson?) requirements
      missingDependency := ← orDefault none (toOption? toText?) missing
      probeFailure := ← orDefault none (toOption? toText?) failure
      configurationScope := ← orDefault none (toOption? toText?) scope }
  | _ => none

open Json in
/-- Reads a manifest. -/
def Manifest.ofJson? (v : Json) : Option Manifest := do
  match ← fields? ["environment", "services", "types"] v with
  | [environment, services, types] =>
    return {
      environment := ← orDefault {} Snapshot.ofJson? environment
      services := ← orDefault ∅ (toDict? (toList? toText?)) services
      types := ← orDefault ∅ (toDict? TypeDescriptor.ofJson?) types }
  | _ => none

/-! ## Shapes -/

namespace Manifest

/-- A record whose fields hold no records. -/
def flatShape (names : List String) : Json.Shape := .record (names.map fun n => (n, .whole))

/-- The shape of a type. -/
def typeShape : Json.Shape :=
  .record
    [("factory_method", .whole), ("public_no_arg_constructor", .whole),
      ("requirements",
        .record
          [("env", .whole), ("not_env", .whole),
            ("properties", .list (flatShape ["name", "value", "not_equals"])),
            ("missing_properties", .whole)]),
      ("missing_dependency", .whole), ("probe_failure", .whole), ("configuration_scope", .whole)]

/-- The shape of a manifest: what reading it asks for. -/
def shape : Json.Shape :=
  .record
    [("environment",
        .record
          [("active_environments", .whole), ("packages", .whole), ("deduce_environment", .whole),
            ("properties", .whole), ("environment_variables", .whole),
            ("config_resources", .whole),
            ("reactive_types", flatShape ["reactive", "single", "completable"])]),
      ("services", .whole), ("types", .table typeShape)]

end Manifest

/-! ## Writing -/

/-- A dictionary as an object. -/
def Json.ofDictWith {α : Type} (write : α → Json) (d : Dict α) : Json :=
  .object (d.toList.map fun (k, v) => (k, write v))

/-- An optional value, `null` when absent. -/
def Json.ofOption {α : Type} (write : α → Json) : Option α → Json
  | none => .null
  | some a => write a

/-- Reactive types as a value. -/
def ReactiveTypes.toJson (r : ReactiveTypes) : Json :=
  .object
    [("reactive", .ofNames r.reactive), ("single", .ofNames r.single),
      ("completable", .ofNames r.completable)]

/-- An environment as a value. -/
def Snapshot.toJson (s : Snapshot) : Json :=
  .object
    [("active_environments", .ofNames s.activeEnvironments.toList),
      ("packages", .ofNames s.packages),
      ("deduce_environment", .ofOption .bool s.deduceEnvironment),
      ("properties", .ofDict s.properties),
      ("environment_variables", .ofDictWith .text s.environmentVariables),
      ("config_resources", .ofDictWith .ofDict s.configResources),
      ("reactive_types", s.reactiveTypes.toJson)]

/-- A condition on a property as a value. -/
def PropertyRequirement.toJson (r : PropertyRequirement) : Json :=
  .object
    [("name", .text r.name), ("value", .ofText? r.value), ("not_equals", .ofText? r.notEquals)]

/-- Requirements as a value. -/
def Requirements.toJson (r : Requirements) : Json :=
  .object
    [("env", .ofNames r.env), ("not_env", .ofNames r.notEnv),
      ("properties", .array (r.properties.map PropertyRequirement.toJson)),
      ("missing_properties", .ofNames r.missingProperties)]

/-- A type as a value. -/
def TypeDescriptor.toJson (d : TypeDescriptor) : Json :=
  .object
    [("factory_method", .bool d.factoryMethod),
      ("public_no_arg_constructor", .bool d.publicNoArgConstructor),
      ("requirements", .ofOption Requirements.toJson d.requirements),
      ("missing_dependency", .ofText? d.missingDependency),
      ("probe_failure", .ofText? d.probeFailure),
      ("configuration_scope", .ofText? d.configurationScope)]

/-- A manifest as a value. -/
def Manifest.toJson (m : Manifest) : Json :=
  .object
    [("environment", m.environment.toJson), ("services", .ofDictWith .ofNames m.services),
      ("types", .ofDictWith TypeDescriptor.toJson m.types)]

end BuildAhead
