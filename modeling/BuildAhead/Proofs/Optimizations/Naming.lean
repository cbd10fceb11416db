import BuildAhead.Optimizations.Catalogue
import BuildAhead.Proofs.Optimizations.ServiceLoading
import BuildAhead.Proofs.Services.Naming
import BuildAhead.Proofs.Settings.Integers

set_option autoImplicit false

/-!
# Optimizations: the names that modules take

For each module of the catalogue, and for the entry point behind them, the names that it takes and
the settings that it refuses. Only the modules of service loading can take a name twice: when two
services, or two configuration resources, lead to one name.
-/

namespace BuildAhead

open Generation (Registers RegistersIf)

variable {base : Context}

/-! ## Units for configuration resources -/

namespace PropertySources

/-- The resources that the environment has. -/
def presentOf (snapshot : Snapshot) (resources : List String) : List String :=
  resources.filter snapshot.configResources.contains

/-- The orders that a property source can have. -/
def IsOrder (n : Int) : Prop := lowestOrder ≤ n ∧ n ≤ highestOrder

theorem exists_orderOf_iff {s : Settings} {resource : String} :
    (∃ order, orderOf s resource = .ok order) ↔ s.Admits (orderKey resource) IsOrder := by
  have hdefault : IsOrder lowestOrder := by
    unfold IsOrder
    decide
  refine Settings.exists_checked_iff hdefault fun order => ?_
  unfold IsOrder
  by_cases hrange : order < lowestOrder ∨ highestOrder < order
  · have hnot : ¬ (lowestOrder ≤ order ∧ order ≤ highestOrder) := by omega
    simp [hrange, hnot, throw, throwThe, MonadExceptOf.throw, bind, Except.bind]
  · have hwithin : lowestOrder ≤ order ∧ order ≤ highestOrder := by omega
    simp [hrange, hwithin, pure, Except.pure]

theorem registers_liftExcept (s : Settings) (resource : String) :
    Registers base (generateUnits.liftExcept (orderOf s resource)) []
      (s.Admits (orderKey resource) IsOrder) fun _ => True := by
  refine (Registers.ofExcept exists_orderOf_iff ?_ ?_).congr (and_iff_left trivial)
  · intro e horder
    rw [horder]
    rfl
  · intro order horder
    rw [horder]
    exact .pure trivial

/-- The units take a name for each resource that the environment has; the order of each must be in
its range. -/
theorem registers_generateUnits (resources : List String) :
    Registers base (generateUnits resources)
      ((presentOf base.analyzer.snapshot resources).map fun r => .unit (unitNameOf r))
      (∀ r ∈ presentOf base.analyzer.snapshot resources,
        base.settings.Admits (orderKey r) IsOrder) fun _ => True := by
  induction resources with
  | nil => exact (Registers.pure trivial).congr (by simp [presentOf])
  | cons resource rest ih =>
    unfold generateUnits
    refine Registers.look.quietly fun c hc => ?_
    rw [hc.analyzer]
    cases hvalues : base.analyzer.snapshot.configResources.get? resource with
    | none =>
      have hpresent : presentOf base.analyzer.snapshot (resource :: rest) =
          presentOf base.analyzer.snapshot rest := by
        simp [presentOf, Dict.contains, hvalues]
      rw [hpresent]
      exact ih
    | some values =>
      have hpresent : presentOf base.analyzer.snapshot (resource :: rest) =
          resource :: presentOf base.analyzer.snapshot rest := by
        simp [presentOf, Dict.contains, hvalues]
      have hunit : ∀ order, (unitOf c.space resource order values).space = base.space :=
        fun _ => hc.space
      rw [hpresent, hc.settings]
      refine ((registers_liftExcept base.settings resource).bind fun order _ =>
        (Registers.registerUnit (hunit order)).bind fun _ _ =>
          (Registers.excludeResource _).quietly fun _ _ => ih).congr ?_
      simp

/-- The loader of constant property sources takes its name. -/
theorem registers_sealed :
    Registers base sealed.generate [.unit loaderName] True fun _ => True :=
  Registers.look.quietly fun _ _ =>
    (Registers.registerStaticOptimization _ _ _).thenQuietly fun _ _ => .pure trivial

end PropertySources

/-! ## Modules with one name -/

theorem Environment.registers_caching :
    Registers base caching.generate [.initializer "enableEnvironmentCaching"] True fun _ => True :=
  Registers.registerStaticInitializer _

/-- The environment is configured by a unit if the application would deduce it. -/
theorem Environment.registers_deducing :
    RegistersIf base deducing.generate (base.analyzer.snapshot.deduceEnvironment == some true)
      [.unit configurerName] True fun _ => True := by
  refine .quietly .look fun c hc => ?_
  rw [hc.analyzer]
  cases base.analyzer.snapshot.deduceEnvironment with
  | none => exact .quiet (.pure trivial)
  | some deduce =>
    refine .quietly (.publishDeducedEnvironment deduce) fun _ _ => ?_
    cases deduce with
    | false => exact .quiet (.pure trivial)
    | true =>
      have hspace : (configurer c.space base.analyzer.snapshot).space = base.space := hc.space
      rw [if_pos rfl]
      exact .always ((Registers.registerUnit hspace).thenQuietly fun _ _ =>
        .writeServiceManifest _ _)

theorem KnownTypes.registers_missing :
    Registers base missing.generate [.unit missingLoaderName] True fun _ => True :=
  Registers.look.quietly fun _ _ =>
    (Registers.registerStaticOptimization _ _ _).thenQuietly fun _ _ => .pure trivial

theorem KnownTypes.registers_reactive :
    Registers base reactive.generate [.unit reactiveLoaderName] True fun _ => True :=
  Registers.look.quietly fun _ _ =>
    (Registers.registerStaticOptimization _ _ _).thenQuietly fun _ _ => .pure trivial

theorem LoggerLevels.registers_module :
    Registers base module.generate [.unit configuratorName] True fun _ => True := by
  refine Registers.look.quietly fun c hc => ?_
  have hspace : ∀ levels, (configurator c.space levels).space = base.space := fun _ => hc.space
  exact (Registers.registerUnit (hspace _)).thenQuietly fun _ _ =>
    (Registers.registerServiceImplementation _ _).quietly fun _ _ => .excludeResource _

theorem NativeImage.registers_module :
    Registers base module.generate [] True fun _ => True :=
  Registers.look.quietly fun _ _ => .registerResource _ _

/-- The entry point takes its name. -/
theorem EntryPoint.registers_synthesize :
    Registers base synthesize [.unit configurerName] True fun _ => True := by
  refine Registers.look.quietly fun c hc => ?_
  have hspace : (configurer c).space = base.space := hc.space
  exact (Registers.registerUnit hspace).thenQuietly fun _ _ =>
    (Registers.registerServiceImplementation _ _).quietly fun _ _ => .pure trivial

/-! ## Property names of environment variables -/

namespace VariableNames

/-- The limits that can be configured. -/
def IsLimit (n : Int) : Prop := 1 ≤ n ∧ n ≤ hardLimit

theorem exists_limitOf_iff {s : Settings} :
    (∃ limit, limitOf s = .ok limit) ↔ s.Admits limitKey IsLimit := by
  have hdefault : IsLimit defaultLimit := by
    unfold IsLimit
    decide
  refine Settings.exists_checked_iff hdefault fun limit => ?_
  unfold IsLimit
  by_cases hrange : limit < 1 ∨ (hardLimit : Int) < limit
  · have hnot : ¬ (1 ≤ limit ∧ limit ≤ (hardLimit : Int)) := by omega
    simp [hrange, hnot, throw, throwThe, MonadExceptOf.throw, bind, Except.bind]
  · have hwithin : 1 ≤ limit ∧ limit ≤ (hardLimit : Int) := by omega
    simp [hrange, hwithin, pure, Except.pure]

/-- The loader takes its name; the limit must be in its range. -/
theorem registers_module :
    Registers base module.generate [.unit loaderName] (base.settings.Admits limitKey IsLimit)
      fun _ => True := by
  refine Registers.look.quietly fun c hc => ?_
  rw [hc.settings]
  refine (Registers.ofExcept exists_limitOf_iff ?_ ?_).congr (and_iff_left trivial)
  · intro e hlimit
    rw [hlimit]
    rfl
  · intro limit hlimit
    rw [hlimit]
    have hread : Registers base (pure limit : Generation Nat) [] True fun _ => True :=
      .pure trivial
    refine hread.quietly fun limit _ => ?_
    refine Registers.quietly (.update fun _ => ⟨rfl, rfl, rfl, rfl, rfl, rfl, rfl⟩) fun _ _ => ?_
    exact (Registers.registerStaticOptimization _ _ _).thenQuietly fun _ _ => .pure trivial

end VariableNames

/-! ## Service loading -/

namespace ServiceLoading

/-- The candidate that is replaced by the units of configuration resources. -/
def configLoader (s : Settings) : String :=
  (s.text? PropertySources.loaderKey).getD PropertySources.defaultLoader

/-- Whether a build replaces configuration resources: the feature is switched on, and the candidate
is found for a scanned service and not rejected. -/
def ReplacesConfig (s : Settings) (model : ApplicationModel) : Prop :=
  s.featureEnabled PropertySources.structuredConfigFeature = true ∧
    (∃ capability ∈ s.items DiscoverySettings.serviceTypesKey,
      configLoader s ∈ model.discover capability) ∧
    configLoader s ∉ s.items DiscoverySettings.rejectedKey

/-- The configuration resources that units are made for when they are replaced. -/
def configResources (s : Settings) (snapshot : Snapshot) : List String :=
  PropertySources.presentOf snapshot
    (PropertySources.resourceNames snapshot.activeEnvironments
      (s.items DiscoverySettings.possibleEnvironmentsKey))

/-- The names of the units for configuration resources. -/
def configSlots (base : Context) : List Slot :=
  (configResources base.settings base.analyzer.snapshot).map fun r =>
    .unit (PropertySources.unitNameOf r)

/-- The names of the tables of services, and of the loader that knows them. -/
def tableSlots (base : Context) : List Slot :=
  (NameSet.ofList (base.settings.items DiscoverySettings.serviceTypesKey)).toList.map (fun t =>
    .unit (Names.simple t ++ "Factory")) ++ [.unit loaderName]

/-- The tables take the names of their units. -/
theorem registers_registerTables (profile : Profile) (maxUnitSize : Nat) (ts : List TableSpec) :
    Registers base (registerTables profile maxUnitSize ts) (ts.map fun t => .unit t.factoryName)
      True fun _ => True := by
  induction ts with
  | nil => exact .pure trivial
  | cons t rest ih =>
    unfold registerTables
    refine Registers.look.quietly fun c hc => ?_
    have hspace : (t.render profile c.space maxUnitSize).space = base.space := hc.space
    exact ((Registers.registerUnit hspace).bind fun _ _ => ih).congr (by simp)

theorem registers_register (profile : Profile) (maxUnitSize : Nat) {result : DiscoveryResult}
    (hkeys : result.tables.keys =
      (NameSet.ofList (base.settings.items DiscoverySettings.serviceTypesKey)).toList) :
    Registers base (register profile maxUnitSize result) (tableSlots base) True fun _ => True := by
  have hslots : tableSlots base =
      result.specs.map (fun t => .unit t.factoryName) ++ [.unit loaderName] := by
    unfold tableSlots
    rw [← hkeys, ← capabilities_specs, List.map_map]
    rfl
  rw [hslots]
  refine (Registers.publishSubstitutes _).quietly fun _ _ => ?_
  refine ((registers_registerTables profile maxUnitSize result.specs).bind fun _ _ =>
    (Registers.registerStaticOptimization _ _ _).thenQuietly fun _ _ => .pure trivial).congr ?_
  simp

/-- The discovery replaces the configured candidate alone. -/
theorem replacesOnly_discoveryOf {c : Context} (hc : base.Continues c)
    {settings : DiscoverySettings}
    (hsettings : DiscoverySettings.ofSettings base.settings = .ok settings) :
    (discoveryOf c settings).ReplacesOnly base (configLoader base.settings) (configSlots base)
      (∀ r ∈ configResources base.settings base.analyzer.snapshot,
        base.settings.Admits (PropertySources.orderKey r) PropertySources.IsOrder) := by
  intro name s hs
  unfold discoveryOf structuredConfig? at hs
  rw [hc.settings, hc.analyzer, (lists_ofSettings hsettings).2.2] at hs
  split at hs
  · next substitution hconfig =>
    split at hconfig
    · cases hconfig
      rw [Discovery.register, Dict.get?_insert] at hs
      split at hs
      · next hname =>
        cases hs
        exact ⟨hname, PropertySources.registers_generateUnits _⟩
      · cases hs
    · cases hconfig
  · cases hs

/-- The discovery replaces the configured candidate when the feature is switched on. -/
theorem contains_discoveryOf (c : Context) (settings : DiscoverySettings) :
    (discoveryOf c settings).substitutions.contains (configLoader c.settings) =
      c.settings.featureEnabled PropertySources.structuredConfigFeature := by
  unfold discoveryOf structuredConfig?
  cases c.settings.featureEnabled PropertySources.structuredConfigFeature with
  | false => rfl
  | true =>
    simp [Discovery.register, Dict.contains, Dict.get?_insert, PropertySources.structuredConfig,
      configLoader]

instance (s : Settings) (model : ApplicationModel) : Decidable (ReplacesConfig s model) :=
  inferInstanceAs (Decidable (_ ∧ (∃ capability ∈ _, _) ∧ _))

/-- The module takes the names of the tables and of the loader, and those of the units for
configuration resources when it replaces these. The maximal size must be positive then, and the
order of each resource in its range. -/
theorem registers_generate (profile : Profile) :
    Registers base (generate profile)
      ((if ReplacesConfig base.settings base.application then configSlots base else []) ++
        tableSlots base)
      (base.settings.Admits DiscoverySettings.maxUnitSizeKey (0 < ·) ∧
        (ReplacesConfig base.settings base.application →
          ∀ r ∈ configResources base.settings base.analyzer.snapshot,
            base.settings.Admits (PropertySources.orderKey r) PropertySources.IsOrder))
      fun _ => True := by
  refine Registers.look.quietly fun c hc => ?_
  rw [hc.settings]
  refine Registers.ofExcept DiscoverySettings.exists_ofSettings_iff ?_ fun settings hsettings => ?_
  · intro e hsettings
    rw [hsettings]
    rfl
  rw [hsettings]
  have hread : Registers base (pure settings : Generation DiscoverySettings) [] True
      (· = settings) := .pure rfl
  refine hread.quietly ?_
  rintro settings' rfl
  obtain ⟨htypes, hrejected, -⟩ := lists_ofSettings hsettings
  have hflag : ((discoveryOf c settings').substitutions.contains (configLoader base.settings) &&
      (discoveryOf c settings').isFound (configLoader base.settings) base.application
        (discoveryOf c settings').settings.serviceTypes) =
        decide (ReplacesConfig base.settings base.application) := by
    rw [← hc.settings, contains_discoveryOf, Bool.eq_iff_iff, decide_eq_true_iff]
    unfold Discovery.isFound ReplacesConfig
    rw [settings_discoveryOf, htypes, hrejected, hc.settings]
    simp [NameSet.contains, NameSet.mem_ofList]
  have hrun := Discovery.registers_run (byOperations_discoveryOf c settings')
    (replacesOnly_discoveryOf hc hsettings)
  rw [hflag, settings_discoveryOf, htypes] at hrun
  simp only [RegistersIf, decide_eq_true_iff] at hrun
  have hregister : ∀ result : DiscoveryResult, result.tables.keys =
      (NameSet.ofList (base.settings.items DiscoverySettings.serviceTypesKey)).toList →
      Registers base (register profile settings'.maxUnitSize result) (tableSlots base) True
        fun _ => True :=
    fun result hkeys => registers_register profile _ hkeys
  exact (Registers.bind hrun hregister).congr (and_iff_left trivial)

/-! ## Names that are taken twice -/

theorem endsWith_append (s ending : String) : Text.endsWith (s ++ ending) ending = true := by
  unfold Text.endsWith
  rw [List.isSuffixOf_iff_suffix, String.toList_append]
  exact List.suffix_append _ _

/-- No text ends with both endings of the names of units. -/
theorem not_endsWith_both (name : String) (hfactory : Text.endsWith name "Factory" = true)
    (hsource : Text.endsWith name "StaticPropertySource" = true) : False := by
  unfold Text.endsWith at hfactory hsource
  rw [List.isSuffixOf_iff_suffix] at hfactory hsource
  have hsuffix := List.suffix_of_suffix_length_le hfactory hsource (by decide)
  exact absurd hsuffix (by decide)

/-- What the names of units for service loading look like. -/
def isOwn : Slot → Bool
  | .unit name =>
    Text.endsWith name "StaticPropertySource" || Text.endsWith name "Factory" || name == loaderName
  | .initializer _ => false

theorem isOwn_of_mem {slot : Slot} (h : slot ∈ configSlots base ++ tableSlots base) :
    isOwn slot = true := by
  rcases List.mem_append.1 h with hconfig | htable
  · obtain ⟨r, -, rfl⟩ := List.mem_map.1 hconfig
    simp [isOwn, PropertySources.unitNameOf, endsWith_append]
  · rcases List.mem_append.1 htable with htable | hloader
    · obtain ⟨t, -, rfl⟩ := List.mem_map.1 htable
      simp [isOwn, endsWith_append]
    · rw [List.mem_singleton.1 hloader]
      simp [isOwn]

/-- No two services lead to one name, when their last segments differ. -/
theorem nodup_tableSlots_iff : (tableSlots base).Nodup ↔
    ∀ a ∈ base.settings.items DiscoverySettings.serviceTypesKey,
      ∀ b ∈ base.settings.items DiscoverySettings.serviceTypesKey,
        Names.simple a = Names.simple b → a = b := by
  have hnodup := nodup_of_ascending
    (NameSet.ofList (base.settings.items DiscoverySettings.serviceTypesKey)).ascending
  have hapart : ∀ a, Names.simple a ++ "Factory" ≠ loaderName := by
    intro a heq
    have hends := endsWith_append (Names.simple a) "Factory"
    rw [heq] at hends
    exact absurd hends (by decide +kernel)
  unfold tableSlots
  rw [List.nodup_append, List.nodup_map_iff_inj_on hnodup]
  simp only [NameSet.mem_ofList, Slot.unit.injEq, String.append_left_inj]
  constructor
  · intro h
    exact h.1
  · intro h
    refine ⟨h, List.nodup_singleton _, ?_⟩
    intro s hs t ht heq
    obtain ⟨a, -, rfl⟩ := List.mem_map.1 hs
    rw [List.mem_singleton.1 ht, Slot.unit.injEq] at heq
    exact hapart a heq

end ServiceLoading

/-- Names are made different, and none is one of those seen before. -/
theorem PropertySources.nodup_distinct (seen names : List String) :
    (distinct seen names).Nodup ∧ ∀ n ∈ distinct seen names, n ∉ seen := by
  induction names generalizing seen with
  | nil => simp [distinct]
  | cons name rest ih =>
    unfold distinct
    split
    · exact ih seen
    · next hnew =>
      obtain ⟨hnodup, happart⟩ := ih (name :: seen)
      refine ⟨List.nodup_cons.2 ⟨fun hmem => ?_, hnodup⟩, ?_⟩
      · exact happart name hmem List.mem_cons_self
      · intro n hn
        rcases List.mem_cons.1 hn with rfl | hn
        · simpa using hnew
        · exact fun hseen => happart n hn (List.mem_cons_of_mem _ hseen)

namespace ServiceLoading

/-- No two configuration resources lead to one name, when their fragments differ. -/
theorem nodup_configSlots_iff : (configSlots base).Nodup ↔
    ∀ a ∈ configResources base.settings base.analyzer.snapshot,
      ∀ b ∈ configResources base.settings base.analyzer.snapshot,
        Names.fragment a = Names.fragment b → a = b := by
  have hnodup : (configResources base.settings base.analyzer.snapshot).Nodup :=
    (PropertySources.nodup_distinct [] _).1.filter _
  unfold configSlots
  rw [List.nodup_map_iff_inj_on hnodup]
  simp only [PropertySources.unitNameOf, Slot.unit.injEq, String.append_left_inj]

/-- The names of tables are none of those for configuration resources. -/
theorem nodup_slots_iff : (configSlots base ++ tableSlots base).Nodup ↔
    (configSlots base).Nodup ∧ (tableSlots base).Nodup := by
  rw [List.nodup_append]
  constructor
  · intro h
    exact ⟨h.1, h.2.1⟩
  · intro h
    refine ⟨h.1, h.2, ?_⟩
    intro s hs t ht heq
    subst heq
    obtain ⟨r, -, rfl⟩ := List.mem_map.1 hs
    have hsource := endsWith_append (Names.fragment r) "StaticPropertySource"
    rcases List.mem_append.1 ht with htable | hloader
    · obtain ⟨c, -, hname⟩ := List.mem_map.1 htable
      have hname := Slot.unit.inj hname
      have hfactory := endsWith_append (Names.simple c) "Factory"
      rw [hname] at hfactory
      exact not_endsWith_both _ hfactory hsource
    · have hname := Slot.unit.inj (List.mem_singleton.1 hloader)
      rw [PropertySources.unitNameOf] at hname
      rw [hname] at hsource
      exact absurd hsource (by decide +kernel)

end ServiceLoading

end BuildAhead
