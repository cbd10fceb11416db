import BuildAhead.Proofs.Json.Rewriting
import Mathlib.Logic.Relation

set_option autoImplicit false

/-!
# Application: reading a manifest again

A manifest that was written is read again as it was. This holds however it is written: `Manifest.Edit`
is one change of the way in which it is, at any depth, and no change is seen by the reader. So nor is
any row of changes.
-/

namespace BuildAhead

open Json (Keeps Fixed ItemEdit DictEdit FreeEdit RecordEdit FieldRule Once)

/-! ## Reading the parts again -/

section Parts

variable {α : Type} {read : Json → Option α} {write : α → Json}

theorem Json.toList?_map (h : ∀ a, read (write a) = some a) (as : List α) :
    Json.toList? read (.array (as.map write)) = some as := by
  rw [Json.toList?, mapM_eq_some_iff, List.forall₂_map_left_iff, List.forall₂_same]
  exact fun a _ => h a

theorem Json.toList?_ofNames (names : List String) :
    Json.toList? Json.toText? (.ofNames names) = some names := by
  have htext : ∀ n, Json.toText? (.text n) = some n := fun _ => rfl
  exact Json.toList?_map htext names

theorem NameSet.ofList_toList (s : NameSet) : NameSet.ofList s.toList = s := by
  refine NameSet.ext (eq_of_ascending_of_mem_iff (NameSet.ofList s.toList).ascending s.ascending ?_)
  intro n
  exact NameSet.mem_ofList

theorem Json.toNameSet?_ofNames (s : NameSet) : Json.toNameSet? (.ofNames s.toList) = some s := by
  rw [Json.toNameSet?, Json.toList?_ofNames, Option.map_some, NameSet.ofList_toList]

theorem Json.toDict?_ofDictWith {d : Dict α} (h : ∀ a ∈ d.values, read (write a) = some a) :
    Json.toDict? read (.ofDictWith write d) = some d := by
  refine toDict?_object_eq_some_iff.2 ⟨d.toList, d.ofList_toList.symm, ?_⟩
  rw [List.forall₂_map_left_iff, List.forall₂_same]
  intro e he
  exact ⟨rfl, h e.2 (List.mem_map_of_mem he)⟩

theorem Json.ofDict_eq_ofDictWith (d : Dict Json) : Json.ofDict d = .ofDictWith id d := by
  rw [Json.ofDict, Json.ofDictWith]
  exact congrArg Json.object (List.map_id' d.toList).symm

theorem Json.toOption?_ofOption (hnull : ∀ a, write a ≠ .null) (h : ∀ a, read (write a) = some a)
    (o : Option α) : Json.toOption? read (.ofOption write o) = some o := by
  cases o with
  | none => rfl
  | some a =>
    rw [Json.ofOption, Json.toOption?, h a, Option.map_some]
    exact hnull a

theorem Json.ofText?_eq_ofOption (o : Option String) : Json.ofText? o = .ofOption .text o := by
  cases o <;> rfl

theorem Json.toOption?_ofText? (o : Option String) :
    Json.toOption? Json.toText? (.ofText? o) = some o := by
  have hnull : ∀ s, Json.text s ≠ .null := by
    intro s hs
    cases hs
  have htext : ∀ s, Json.toText? (.text s) = some s := fun _ => rfl
  rw [Json.ofText?_eq_ofOption]
  exact Json.toOption?_ofOption hnull htext o

/-- Members with distinct keys have every name at most once. -/
theorem Json.once_of_nodup {members : List (String × Json)} (h : (members.map Prod.fst).Nodup)
    (names : List String) : Once names members := by
  intro n _
  rw [← List.countP_eq_length_filter]
  have hcount : (members.map Prod.fst).count n ≤ 1 := List.nodup_iff_count_le_one.1 h n
  rwa [List.count_eq_countP, List.countP_map] at hcount

end Parts

/-! ## Reactive types -/

namespace ReactiveTypes

/-- The fields of reactive types. -/
def rules : List FieldRule :=
  ["reactive", "single", "completable"].map fun name =>
    .withDefault name [] (Json.toList? Json.toText?) Fixed

/-- A change in how reactive types are written. -/
def Edit : Json → Json → Prop := RecordEdit rules

theorem ofJson?_object_eq_some_iff {members : List (String × Json)} {r : ReactiveTypes} :
    ofJson? (.object members) = some r ↔ Once (rules.map FieldRule.name) members ∧
      Json.orDefault [] (Json.toList? Json.toText?) (Dict.lookup "reactive" members) =
        some r.reactive ∧
      Json.orDefault [] (Json.toList? Json.toText?) (Dict.lookup "single" members) =
        some r.single ∧
      Json.orDefault [] (Json.toList? Json.toText?) (Dict.lookup "completable" members) =
        some r.completable := by
  have hnames : rules.map FieldRule.name = ["reactive", "single", "completable"] := rfl
  cases r
  simp only [ofJson?, hnames, Option.bind_eq_bind, Option.bind_eq_some_iff,
    Json.fields?_object_eq_some_iff]
  simp [Option.bind_eq_some_iff]

theorem keeps_edit : Keeps Edit ofJson? := by
  intro v w r hedit hread
  obtain ⟨members, members', rfl, rfl⟩ := hedit.exists_object
  rw [ofJson?_object_eq_some_iff] at hread ⊢
  obtain ⟨honce, hreactive, hsingle, hcompletable⟩ := hread
  obtain ⟨honce', hfields⟩ := hedit.fieldEdit (by decide) honce
  simp only [rules, List.map_cons, List.map_nil, List.forall_mem_cons] at hfields
  obtain ⟨reactive, single, completable, -⟩ := hfields
  have hnames := Json.keeps_fixed (Json.toList? Json.toText?)
  exact ⟨honce', reactive.orDefault hnames hreactive, single.orDefault hnames hsingle,
    completable.orDefault hnames hcompletable⟩

theorem ofJson?_toJson (r : ReactiveTypes) : ofJson? r.toJson = some r := by
  rw [toJson, ofJson?_object_eq_some_iff]
  refine ⟨Json.once_of_nodup (by simp) _, ?_, ?_, ?_⟩
  · exact Json.toList?_ofNames r.reactive
  · exact Json.toList?_ofNames r.single
  · exact Json.toList?_ofNames r.completable

end ReactiveTypes

/-! ## Requirements -/

namespace PropertyRequirement

/-- The fields of a condition on a property. -/
def rules : List FieldRule :=
  [.mandatory "name" Fixed, .withDefault "value" none (Json.toOption? Json.toText?) Fixed,
    .withDefault "not_equals" none (Json.toOption? Json.toText?) Fixed]

/-- A change in how a condition is written. -/
def Edit : Json → Json → Prop := RecordEdit rules

theorem ofJson?_object_eq_some_iff {members : List (String × Json)} {r : PropertyRequirement} :
    ofJson? (.object members) = some r ↔ Once (rules.map FieldRule.name) members ∧
      Json.required Json.toText? (Dict.lookup "name" members) = some r.name ∧
      Json.orDefault none (Json.toOption? Json.toText?) (Dict.lookup "value" members) =
        some r.value ∧
      Json.orDefault none (Json.toOption? Json.toText?) (Dict.lookup "not_equals" members) =
        some r.notEquals := by
  have hnames : rules.map FieldRule.name = ["name", "value", "not_equals"] := rfl
  cases r
  simp only [ofJson?, hnames, Option.bind_eq_bind, Option.bind_eq_some_iff,
    Json.fields?_object_eq_some_iff]
  simp [Option.bind_eq_some_iff]

theorem keeps_edit : Keeps Edit ofJson? := by
  intro v w r hedit hread
  obtain ⟨members, members', rfl, rfl⟩ := hedit.exists_object
  rw [ofJson?_object_eq_some_iff] at hread ⊢
  obtain ⟨honce, hname, hvalue, hnotEquals⟩ := hread
  obtain ⟨honce', hfields⟩ := hedit.fieldEdit (by decide) honce
  simp only [rules, List.forall_mem_cons] at hfields
  obtain ⟨name, value, notEquals, -⟩ := hfields
  have htext := Json.keeps_fixed (Json.toOption? Json.toText?)
  exact ⟨honce', name.required (Json.keeps_fixed Json.toText?) hname,
    value.orDefault htext hvalue, notEquals.orDefault htext hnotEquals⟩

theorem ofJson?_toJson (r : PropertyRequirement) : ofJson? r.toJson = some r := by
  rw [toJson, ofJson?_object_eq_some_iff]
  refine ⟨Json.once_of_nodup (by simp) _, ?_, ?_, ?_⟩
  · rfl
  · exact Json.toOption?_ofText? r.value
  · exact Json.toOption?_ofText? r.notEquals

end PropertyRequirement

namespace Requirements

/-- The fields of requirements. -/
def rules : List FieldRule :=
  [.withDefault "env" [] (Json.toList? Json.toText?) Fixed,
    .withDefault "not_env" [] (Json.toList? Json.toText?) Fixed,
    .withDefault "properties" [] (Json.toList? PropertyRequirement.ofJson?)
      (ItemEdit PropertyRequirement.Edit),
    .withDefault "missing_properties" [] (Json.toList? Json.toText?) Fixed]

/-- A change in how requirements are written. -/
def Edit : Json → Json → Prop := RecordEdit rules

theorem ofJson?_object_eq_some_iff {members : List (String × Json)} {r : Requirements} :
    ofJson? (.object members) = some r ↔ Once (rules.map FieldRule.name) members ∧
      Json.orDefault [] (Json.toList? Json.toText?) (Dict.lookup "env" members) = some r.env ∧
      Json.orDefault [] (Json.toList? Json.toText?) (Dict.lookup "not_env" members) =
        some r.notEnv ∧
      Json.orDefault [] (Json.toList? PropertyRequirement.ofJson?)
        (Dict.lookup "properties" members) = some r.properties ∧
      Json.orDefault [] (Json.toList? Json.toText?) (Dict.lookup "missing_properties" members) =
        some r.missingProperties := by
  have hnames : rules.map FieldRule.name =
    ["env", "not_env", "properties", "missing_properties"] := rfl
  cases r
  simp only [ofJson?, hnames, Option.bind_eq_bind, Option.bind_eq_some_iff,
    Json.fields?_object_eq_some_iff]
  simp [Option.bind_eq_some_iff]

theorem keeps_edit : Keeps Edit ofJson? := by
  intro v w r hedit hread
  obtain ⟨members, members', rfl, rfl⟩ := hedit.exists_object
  rw [ofJson?_object_eq_some_iff] at hread ⊢
  obtain ⟨honce, henv, hnotEnv, hproperties, hmissing⟩ := hread
  obtain ⟨honce', hfields⟩ := hedit.fieldEdit (by decide) honce
  simp only [rules, List.forall_mem_cons] at hfields
  obtain ⟨env, notEnv, properties, missing, -⟩ := hfields
  have hnames := Json.keeps_fixed (Json.toList? Json.toText?)
  exact ⟨honce', env.orDefault hnames henv, notEnv.orDefault hnames hnotEnv,
    properties.orDefault PropertyRequirement.keeps_edit.toList? hproperties,
    missing.orDefault hnames hmissing⟩

theorem ofJson?_toJson (r : Requirements) : ofJson? r.toJson = some r := by
  rw [toJson, ofJson?_object_eq_some_iff]
  refine ⟨Json.once_of_nodup (by simp) _, ?_, ?_, ?_, ?_⟩
  · exact Json.toList?_ofNames r.env
  · exact Json.toList?_ofNames r.notEnv
  · exact Json.toList?_map PropertyRequirement.ofJson?_toJson r.properties
  · exact Json.toList?_ofNames r.missingProperties

end Requirements

/-! ## Types -/

namespace TypeDescriptor

/-- The fields of a type. -/
def rules : List FieldRule :=
  [.withDefault "factory_method" false Json.toBool? Fixed,
    .withDefault "public_no_arg_constructor" false Json.toBool? Fixed,
    .withDefault "requirements" none (Json.toOption? Requirements.ofJson?) Requirements.Edit,
    .withDefault "missing_dependency" none (Json.toOption? Json.toText?) Fixed,
    .withDefault "probe_failure" none (Json.toOption? Json.toText?) Fixed,
    .withDefault "configuration_scope" none (Json.toOption? Json.toText?) Fixed]

/-- A change in how a type is written. -/
def Edit : Json → Json → Prop := RecordEdit rules

theorem ofJson?_object_eq_some_iff {members : List (String × Json)} {d : TypeDescriptor} :
    ofJson? (.object members) = some d ↔ Once (rules.map FieldRule.name) members ∧
      Json.orDefault false Json.toBool? (Dict.lookup "factory_method" members) =
        some d.factoryMethod ∧
      Json.orDefault false Json.toBool? (Dict.lookup "public_no_arg_constructor" members) =
        some d.publicNoArgConstructor ∧
      Json.orDefault none (Json.toOption? Requirements.ofJson?)
        (Dict.lookup "requirements" members) = some d.requirements ∧
      Json.orDefault none (Json.toOption? Json.toText?)
        (Dict.lookup "missing_dependency" members) = some d.missingDependency ∧
      Json.orDefault none (Json.toOption? Json.toText?) (Dict.lookup "probe_failure" members) =
        some d.probeFailure ∧
      Json.orDefault none (Json.toOption? Json.toText?)
        (Dict.lookup "configuration_scope" members) = some d.configurationScope := by
  have hnames : rules.map FieldRule.name =
    ["factory_method", "public_no_arg_constructor", "requirements", "missing_dependency",
      "probe_failure", "configuration_scope"] := rfl
  cases d
  simp only [ofJson?, hnames, Option.bind_eq_bind, Option.bind_eq_some_iff,
    Json.fields?_object_eq_some_iff]
  simp [Option.bind_eq_some_iff, -Bool.exists_bool]

theorem keeps_edit : Keeps Edit ofJson? := by
  intro v w d hedit hread
  obtain ⟨members, members', rfl, rfl⟩ := hedit.exists_object
  rw [ofJson?_object_eq_some_iff] at hread ⊢
  obtain ⟨honce, hfactory, hconstructor, hrequirements, hmissing, hfailure, hscope⟩ := hread
  obtain ⟨honce', hfields⟩ := hedit.fieldEdit (by decide) honce
  simp only [rules, List.forall_mem_cons] at hfields
  obtain ⟨factory, constructor, requirements, missing, failure, scope, -⟩ := hfields
  have hbool := Json.keeps_fixed Json.toBool?
  have htext := Json.keeps_fixed (Json.toOption? Json.toText?)
  have hinner := Requirements.keeps_edit.toOption? fun _ _ h => RecordEdit.exists_object h
  exact ⟨honce', factory.orDefault hbool hfactory, constructor.orDefault hbool hconstructor,
    requirements.orDefault hinner hrequirements, missing.orDefault htext hmissing,
    failure.orDefault htext hfailure, scope.orDefault htext hscope⟩

theorem ofJson?_toJson (d : TypeDescriptor) : ofJson? d.toJson = some d := by
  rw [toJson, ofJson?_object_eq_some_iff]
  refine ⟨Json.once_of_nodup (by simp) _, ?_, ?_, ?_, ?_, ?_, ?_⟩
  · rfl
  · rfl
  · have hnull : ∀ r : Requirements, r.toJson ≠ .null := by
      intro r hr
      cases hr
    exact Json.toOption?_ofOption hnull Requirements.ofJson?_toJson d.requirements
  · exact Json.toOption?_ofText? d.missingDependency
  · exact Json.toOption?_ofText? d.probeFailure
  · exact Json.toOption?_ofText? d.configurationScope

end TypeDescriptor

/-! ## Environments -/

namespace Snapshot

/-- A reader of values of any form, which puts the members of objects into order. -/
def readFree (v : Json) : Option Json := some v.canonical

/-- The fields of an environment. -/
def rules : List FieldRule :=
  [.withDefault "active_environments" ∅ Json.toNameSet? Fixed,
    .withDefault "packages" [] (Json.toList? Json.toText?) Fixed,
    .withDefault "deduce_environment" none (Json.toOption? Json.toBool?) Fixed,
    .withDefault "properties" ∅ (Json.toDict? readFree) (DictEdit FreeEdit),
    .withDefault "environment_variables" ∅ (Json.toDict? Json.toText?) (DictEdit Fixed),
    .withDefault "config_resources" ∅ (Json.toDict? (Json.toDict? readFree))
      (DictEdit (DictEdit FreeEdit)),
    .withDefault "reactive_types" {} ReactiveTypes.ofJson? ReactiveTypes.Edit]

/-- A change in how an environment is written. -/
def Edit : Json → Json → Prop := RecordEdit rules

theorem ofJson?_object_eq_some_iff {members : List (String × Json)} {s : Snapshot} :
    ofJson? (.object members) = some s ↔ Once (rules.map FieldRule.name) members ∧
      Json.orDefault ∅ Json.toNameSet? (Dict.lookup "active_environments" members) =
        some s.activeEnvironments ∧
      Json.orDefault [] (Json.toList? Json.toText?) (Dict.lookup "packages" members) =
        some s.packages ∧
      Json.orDefault none (Json.toOption? Json.toBool?)
        (Dict.lookup "deduce_environment" members) = some s.deduceEnvironment ∧
      Json.orDefault ∅ (Json.toDict? readFree) (Dict.lookup "properties" members) =
        some s.properties ∧
      Json.orDefault ∅ (Json.toDict? Json.toText?)
        (Dict.lookup "environment_variables" members) = some s.environmentVariables ∧
      Json.orDefault ∅ (Json.toDict? (Json.toDict? readFree))
        (Dict.lookup "config_resources" members) = some s.configResources ∧
      Json.orDefault {} ReactiveTypes.ofJson? (Dict.lookup "reactive_types" members) =
        some s.reactiveTypes := by
  have hnames : rules.map FieldRule.name =
    ["active_environments", "packages", "deduce_environment", "properties",
      "environment_variables", "config_resources", "reactive_types"] := rfl
  have hfree : (fun v : Json => some v.canonical) = readFree := rfl
  cases s
  simp only [ofJson?, hnames, hfree, Option.bind_eq_bind, Option.bind_eq_some_iff,
    Json.fields?_object_eq_some_iff]
  simp [Option.bind_eq_some_iff]

theorem keeps_edit : Keeps Edit ofJson? := by
  intro v w s hedit hread
  obtain ⟨members, members', rfl, rfl⟩ := hedit.exists_object
  rw [ofJson?_object_eq_some_iff] at hread ⊢
  obtain ⟨honce, hactive, hpackages, hdeduce, hproperties, henviron, hresources, hreactive⟩ :=
    hread
  obtain ⟨honce', hfields⟩ := hedit.fieldEdit (by decide) honce
  simp only [rules, List.forall_mem_cons] at hfields
  obtain ⟨active, packages, deduce, properties, environ, resources, reactive, -⟩ := hfields
  have hfree : Keeps (DictEdit FreeEdit) (Json.toDict? readFree) := Json.keeps_canonical.toDict?
  exact ⟨honce', active.orDefault (Json.keeps_fixed _) hactive,
    packages.orDefault (Json.keeps_fixed _) hpackages,
    deduce.orDefault (Json.keeps_fixed _) hdeduce, properties.orDefault hfree hproperties,
    environ.orDefault (Json.keeps_fixed _).toDict? henviron,
    resources.orDefault hfree.toDict? hresources,
    reactive.orDefault ReactiveTypes.keeps_edit hreactive⟩

/-- The values of any form have the members of their objects in order, each key once. -/
structure Canonical (s : Snapshot) : Prop where
  properties : ∀ v ∈ s.properties.values, v.canonical = v
  configResources : ∀ d ∈ s.configResources.values, ∀ v ∈ d.values, v.canonical = v

theorem ofJson?_toJson {s : Snapshot} (h : s.Canonical) : ofJson? s.toJson = some s := by
  have hfree : ∀ {d : Dict Json}, (∀ v ∈ d.values, v.canonical = v) →
      Json.toDict? readFree (.ofDict d) = some d := by
    intro d hd
    rw [Json.ofDict_eq_ofDictWith]
    exact Json.toDict?_ofDictWith fun v hv => congrArg some (hd v hv)
  rw [toJson, ofJson?_object_eq_some_iff]
  refine ⟨Json.once_of_nodup (by simp) _, ?_, ?_, ?_, ?_, ?_, ?_, ?_⟩
  · exact Json.toNameSet?_ofNames s.activeEnvironments
  · exact Json.toList?_ofNames s.packages
  · have hnull : ∀ b, Json.bool b ≠ .null := by
      intro b hb
      cases hb
    have hbool : ∀ b, Json.toBool? (.bool b) = some b := fun _ => rfl
    exact Json.toOption?_ofOption hnull hbool s.deduceEnvironment
  · exact hfree h.properties
  · have htext : ∀ a ∈ s.environmentVariables.values, Json.toText? (.text a) = some a :=
      fun _ _ => rfl
    exact Json.toDict?_ofDictWith htext
  · exact Json.toDict?_ofDictWith fun d hd => hfree (h.configResources d hd)
  · exact ReactiveTypes.ofJson?_toJson s.reactiveTypes

theorem canonical_of_mem_values {field : Option Json} {d : Dict Json}
    (h : Json.orDefault ∅ (Json.toDict? readFree) field = some d) :
    ∀ v ∈ d.values, v.canonical = v := by
  intro v hv
  obtain ⟨w, hw⟩ := Json.exists_of_mem_values h hv
  obtain rfl : w.canonical = v := Option.some.inj hw
  exact w.canonical_canonical

/-- An environment that is read has its values of any form in order. -/
theorem canonical_of_ofJson? {v : Json} {s : Snapshot} (h : ofJson? v = some s) : s.Canonical := by
  have hfree : (fun v : Json => some v.canonical) = readFree := rfl
  simp only [ofJson?, hfree, Option.bind_eq_bind, Option.bind_eq_some_iff] at h
  obtain ⟨values, -, hvalues⟩ := h
  split at hvalues
  · simp only [Option.bind_eq_some_iff] at hvalues
    obtain ⟨_, -, _, -, _, -, properties, hproperties, _, -, resources, hresources, _, -, heq⟩ :=
      hvalues
    cases heq
    refine ⟨canonical_of_mem_values hproperties, fun d hd => ?_⟩
    obtain ⟨w, hw⟩ := Json.exists_of_mem_values hresources hd
    have hfield : Json.orDefault ∅ (Json.toDict? readFree) (some w) = some d := hw
    exact canonical_of_mem_values hfield
  · cases hvalues

theorem canonical_of_orDefault {field : Option Json} {s : Snapshot}
    (h : Json.orDefault {} ofJson? field = some s) : s.Canonical := by
  cases field with
  | none =>
    cases h
    exact ⟨fun _ hv => absurd hv List.not_mem_nil, fun _ hd => absurd hd List.not_mem_nil⟩
  | some v => exact canonical_of_ofJson? h

end Snapshot

/-! ## Manifests -/

namespace Manifest

/-- The fields of a manifest. -/
def rules : List FieldRule :=
  [.withDefault "environment" {} Snapshot.ofJson? Snapshot.Edit,
    .withDefault "services" ∅ (Json.toDict? (Json.toList? Json.toText?)) (DictEdit Fixed),
    .withDefault "types" ∅ (Json.toDict? TypeDescriptor.ofJson?) (DictEdit TypeDescriptor.Edit)]

/-- A change in how a manifest is written. -/
def Edit : Json → Json → Prop := RecordEdit rules

theorem ofJson?_object_eq_some_iff {members : List (String × Json)} {m : Manifest} :
    ofJson? (.object members) = some m ↔ Once (rules.map FieldRule.name) members ∧
      Json.orDefault {} Snapshot.ofJson? (Dict.lookup "environment" members) =
        some m.environment ∧
      Json.orDefault ∅ (Json.toDict? (Json.toList? Json.toText?))
        (Dict.lookup "services" members) = some m.services ∧
      Json.orDefault ∅ (Json.toDict? TypeDescriptor.ofJson?) (Dict.lookup "types" members) =
        some m.types := by
  have hnames : rules.map FieldRule.name = ["environment", "services", "types"] := rfl
  cases m
  simp only [ofJson?, hnames, Option.bind_eq_bind, Option.bind_eq_some_iff,
    Json.fields?_object_eq_some_iff]
  simp [Option.bind_eq_some_iff]

theorem keeps_edit : Keeps Edit ofJson? := by
  intro v w m hedit hread
  obtain ⟨members, members', rfl, rfl⟩ := hedit.exists_object
  rw [ofJson?_object_eq_some_iff] at hread ⊢
  obtain ⟨honce, henvironment, hservices, htypes⟩ := hread
  obtain ⟨honce', hfields⟩ := hedit.fieldEdit (by decide) honce
  simp only [rules, List.forall_mem_cons] at hfields
  obtain ⟨environment, services, types, -⟩ := hfields
  exact ⟨honce', environment.orDefault Snapshot.keeps_edit henvironment,
    services.orDefault (Json.keeps_fixed _).toDict? hservices,
    types.orDefault TypeDescriptor.keeps_edit.toDict? htypes⟩

theorem ofJson?_toJson {m : Manifest} (h : m.environment.Canonical) :
    ofJson? m.toJson = some m := by
  rw [toJson, ofJson?_object_eq_some_iff]
  refine ⟨Json.once_of_nodup (by simp) _, ?_, ?_, ?_⟩
  · exact Snapshot.ofJson?_toJson h
  · exact Json.toDict?_ofDictWith fun names _ => Json.toList?_ofNames names
  · exact Json.toDict?_ofDictWith fun d _ => TypeDescriptor.ofJson?_toJson d

/-- The manifests that can be read are those whose environments have their values in order. -/
theorem canonical_iff {m : Manifest} :
    m.environment.Canonical ↔ ∃ v, ofJson? v = some m := by
  constructor
  · intro h
    exact ⟨m.toJson, ofJson?_toJson h⟩
  · rintro ⟨v, h⟩
    simp only [ofJson?, Option.bind_eq_bind, Option.bind_eq_some_iff] at h
    obtain ⟨values, -, hvalues⟩ := h
    split at hvalues
    · simp only [Option.bind_eq_some_iff] at hvalues
      obtain ⟨environment, henvironment, _, -, _, -, heq⟩ := hvalues
      cases heq
      exact Snapshot.canonical_of_orDefault henvironment
    · cases hvalues

/-- Some condition on a property of some type has no name. -/
inductive HoldsNameless : Json → Prop where
  | condition {members types type requirements condition : List (String × Json)} {name : String}
    {conditions : List Json} (htypes : Dict.lookup "types" members = some (.object types))
    (htype : (name, .object type) ∈ types)
    (hrequirements : Dict.lookup "requirements" type = some (.object requirements))
    (hproperties : Dict.lookup "properties" requirements = some (.array conditions))
    (hcondition : .object condition ∈ conditions) (hname : "name" ∉ condition.map Prod.fst) :
    HoldsNameless (.object members)

/-- The name of a condition is never left out. -/
theorem ofJson?_of_holdsNameless {v : Json} (h : HoldsNameless v) : ofJson? v = none := by
  obtain ⟨htypes, htype, hrequirements, hproperties, hcondition, hname⟩ := h
  refine Option.eq_none_iff_forall_ne_some.2 fun m hm => ?_
  obtain ⟨-, -, -, hread⟩ := ofJson?_object_eq_some_iff.1 hm
  rw [htypes] at hread
  obtain ⟨pairs, -, hpairs⟩ := Json.toDict?_object_eq_some_iff.1 hread
  obtain ⟨e, -, hdescriptor⟩ := exists_of_mem_forall₂ hpairs htype
  obtain ⟨-, -, -, hread, -⟩ := TypeDescriptor.ofJson?_object_eq_some_iff.1 hdescriptor
  rw [hrequirements] at hread
  obtain ⟨r, hr, -⟩ := Option.map_eq_some_iff.1 hread
  obtain ⟨-, -, -, hread, -⟩ := Requirements.ofJson?_object_eq_some_iff.1 hr
  rw [hproperties] at hread
  obtain ⟨c, hc⟩ := exists_of_mem_forall₂ (mapM_eq_some_iff.1 hread) hcondition
  obtain ⟨-, hread, -⟩ := PropertyRequirement.ofJson?_object_eq_some_iff.1 hc
  rw [Dict.lookup_eq_none_iff.2 hname] at hread
  cases hread

/-- Edits change nothing about what is read. -/
theorem ofJson?_of_edits {m : Manifest} {v w : Json} (hread : ofJson? v = some m)
    (hedits : Relation.ReflTransGen Edit v w) : ofJson? w = some m := by
  induction hedits with
  | refl => exact hread
  | tail _ hedit ih => exact keeps_edit _ _ m hedit ih

/-- A manifest that was read once is read again from its own written form, however that was
edited. -/
theorem ofJson?_of_edits_of_read {m : Manifest} {v w : Json} (hread : ofJson? v = some m)
    (hedits : Relation.ReflTransGen Edit m.toJson w) : ofJson? w = some m :=
  ofJson?_of_edits (ofJson?_toJson (canonical_iff.2 ⟨v, hread⟩)) hedits

/-- However a manifest is written, it is read as it is; only a condition without its name is read
by no means. -/
theorem ofJson?_rewritten {m : Manifest} (h : m.environment.Canonical) :
    ofJson? m.toJson = some m ∧
      (∀ v, Relation.ReflTransGen Edit m.toJson v → ofJson? v = some m) ∧
        ∀ v, HoldsNameless v → ofJson? v = none := by
  have hown := ofJson?_toJson h
  exact ⟨hown, fun _ hedits => ofJson?_of_edits hown hedits, fun _ => ofJson?_of_holdsNameless⟩

/-- A manifest with a property that is an object and a type with a requirement. -/
def sample : Manifest where
  environment := { properties := .ofList [("p", .object [("a", .int 1), ("b", .null)])] }
  types := .ofList
    [("x.A", { requirements := some { properties := [{ name := "p", value := some "v" }] } })]

/-- The sample with its types first, without services, with a remark at a condition, and with the
members of the property in another order. -/
def sampleRewritten : Json :=
  .object
    [("types",
      .object
        [("x.A",
          .object
            [("factory_method", .bool false), ("public_no_arg_constructor", .bool false),
              ("requirements",
                .object
                  [("env", .array []), ("not_env", .array []),
                    ("properties",
                      .array
                        [.object
                          [("name", .text "p"), ("remark", .null), ("value", .text "v"),
                            ("not_equals", .null)]]),
                    ("missing_properties", .array [])]),
              ("missing_dependency", .null), ("probe_failure", .null),
              ("configuration_scope", .null)])]),
      ("environment",
        .object
          [("active_environments", .array []), ("packages", .array []),
            ("deduce_environment", .null),
            ("properties", .object [("p", .object [("b", .null), ("a", .int 1)])]),
            ("environment_variables", .object []), ("config_resources", .object []),
            ("reactive_types",
              .object
                [("reactive", .array []), ("single", .array []), ("completable", .array [])])])]

theorem ofJson?_rewritten_sample :
    sample.environment.Canonical ∧ Relation.ReflTransGen Edit sample.toJson sampleRewritten ∧
      ofJson? sampleRewritten = some sample := by
  have hcanonical : sample.environment.Canonical := by
    refine ⟨?_, ?_⟩
    · intro v hv
      obtain rfl := List.mem_singleton.1 hv
      rfl
    · intro d hd
      exact absurd hd List.not_mem_nil
  let environment := sample.environment.toJson
  let types := Json.ofDictWith TypeDescriptor.toJson sample.types
  have hleave : Edit sample.toJson (.object [("environment", environment), ("types", types)]) :=
    @RecordEdit.leaveOut rules [("environment", environment)] [("types", types)] _ _
      (.tail _ (.head _)) rfl
  have hreorder : Edit (.object [("environment", environment), ("types", types)])
      (.object [("types", types), ("environment", environment)]) :=
    .reorder (.swap _ _ [])
  have hcondition : Requirements.Edit _ _ :=
    @RecordEdit.field _ [("env", .array []), ("not_env", .array [])]
      [("missing_properties", .array [])] _ _ _ (.tail _ (.tail _ (.head _)))
      (@ItemEdit.item PropertyRequirement.Edit [] [] _ _
        (@RecordEdit.add _ [("name", .text "p")] [("value", .text "v"), ("not_equals", .null)]
          "remark" .null (by decide)))
  have htype : TypeDescriptor.Edit _ _ :=
    @RecordEdit.field _ [("factory_method", .bool false), ("public_no_arg_constructor", .bool false)]
      [("missing_dependency", .null), ("probe_failure", .null), ("configuration_scope", .null)]
      _ _ _ (.tail _ (.tail _ (.head _))) hcondition
  have htypes : Edit (.object [("types", types), ("environment", environment)]) _ :=
    @RecordEdit.field rules [] [("environment", environment)] _ _ _
      (.tail _ (.tail _ (.head _))) (@DictEdit.member _ [] [] "x.A" _ _ htype)
  have hmembers : FreeEdit (.object [("a", .int 1), ("b", .null)])
      (.object [("b", .null), ("a", .int 1)]) :=
    .reorder (by simp) (.swap _ _ [])
  have hproperties : Snapshot.Edit environment _ :=
    @RecordEdit.field _
      [("active_environments", .array []), ("packages", .array []), ("deduce_environment", .null)]
      [("environment_variables", .object []), ("config_resources", .object []),
        ("reactive_types", ({} : ReactiveTypes).toJson)]
      _ _ _ (.tail _ (.tail _ (.tail _ (.head _)))) (@DictEdit.member _ [] [] "p" _ _ hmembers)
  have henvironment : Edit _ sampleRewritten :=
    @RecordEdit.field rules [("types", _)] [] _ _ _ (.head _) hproperties
  have hedits : Relation.ReflTransGen Edit sample.toJson sampleRewritten :=
    (((Relation.ReflTransGen.single hleave).tail hreorder).tail htypes).tail henvironment
  exact ⟨hcanonical, hedits, (ofJson?_rewritten hcanonical).2.1 _ hedits⟩

end Manifest

end BuildAhead
