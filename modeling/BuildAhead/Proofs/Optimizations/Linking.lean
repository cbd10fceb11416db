import BuildAhead.Optimizations.Catalogue
import BuildAhead.Proofs.Optimizations.Announcing
import BuildAhead.Proofs.Optimizations.Naming
import BuildAhead.Proofs.Services.Keeping
import BuildAhead.Proofs.Services.Substitutes

set_option autoImplicit false

/-!
# Optimizations: modules keep contexts linked

Every module of the catalogue, and the entry point, registers what implements one of the announced
services together with its line in the manifest, and makes loaders of what it or an earlier module
has registered. One module queues the arguments of the native image besides.
-/

namespace BuildAhead

open Generation (Keeps)

variable {base c c' : Context} {executed : List String} {arguments : List PendingWrite}

namespace Context

/-- The names of the loaders that refer to other units. -/
def IsLinkName (name : String) : Prop :=
  name = PropertySources.loaderName ∨ name = ServiceLoading.loaderName

instance (name : String) : Decidable (IsLinkName name) := inferInstanceAs (Decidable (_ ∨ _))

/-- No unit whose name ends like those of tables or of property sources is one of these loaders. -/
theorem not_isLinkName_append {ending : String} (name : String)
    (hending : ending = "Factory" ∨ ending = "StaticPropertySource") :
    ¬ IsLinkName (name ++ ending) := by
  have hends := ServiceLoading.endsWith_append name ending
  intro hlink
  rcases hlink with heq | heq
  · rw [heq] at hends
    rcases hending with rfl | rfl
    · exact absurd hends (by decide +kernel)
    · exact absurd hends (by decide +kernel)
  · rw [heq] at hends
    rcases hending with rfl | rfl
    · exact absurd hends (by decide +kernel)
    · exact absurd hends (by decide +kernel)

/-- A unit of one service that is neither an environment configurer nor one of the two loaders. -/
theorem Fits.of_implements {u : CodeUnit} {type : String} (hspace : u.space = c.space)
    (himplements : u.implements = [type]) (htype : rawType type ≠ Runtime.environmentConfigurer)
    (hname : ¬ IsLinkName u.name) : c.Fits u := by
  refine .of_plain hspace ?_ (fun h => hname (.inl h)) fun h => hname (.inr h)
  rw [implementsType_of_implements himplements]
  exact beq_eq_false_iff_ne.2 htype

theorem implementsType_loaderUnit (space name kind : String) (body : LoaderBody) :
    (Generation.loaderUnit space name kind body).implementsType Runtime.environmentConfigurer =
      false := by
  rw [implementsType_of_implements rfl, rawType_loader]
  decide

/-- An optimization loader other than the two loaders. -/
theorem Fits.of_loaderUnit {name kind : String} {body : LoaderBody} (hname : ¬ IsLinkName name) :
    c.Fits (Generation.loaderUnit c.space name kind body) :=
  .of_plain rfl (implementsType_loaderUnit _ _ _ _) (fun h => hname (.inl h))
    fun h => hname (.inr h)

namespace Linked

/-- A unit that is not announced. -/
theorem registerUnit (h : Linked base executed arguments c) {u : CodeUnit} (hfits : c.Fits u)
    (hnone : u.announcements = []) {n : Code.UnitName}
    (hrun : (Generation.registerUnit u).runOn c = (.ok n, c')) :
    Linked base executed arguments c' := by
  rw [Generation.runOn_registerUnit, if_neg (by simp [h.continues.isOpen])] at hrun
  split at hrun
  · cases hrun
  · next hnew =>
    cases hrun
    exact h.register (.single (Bool.eq_false_iff.2 hnew) rfl rfl) hfits
      (by simp [Context.addUnit, hnone]) rfl

/-- A unit with one service, and the call that announces it. -/
theorem announce (h : Linked base executed arguments c) {u : CodeUnit} (hfits : c.Fits u)
    {call : ManifestCall} (hcall : u.announcements = [call]) {n : Code.UnitName} {c₁ : Context}
    (hunit : (Generation.registerUnit u).runOn c = (.ok n, c₁))
    (hrun : call.perform.runOn c₁ = (.ok (), c')) : Linked base executed arguments c' := by
  rw [Generation.runOn_registerUnit, if_neg (by simp [h.continues.isOpen])] at hunit
  split at hunit
  · cases hunit
  · next hnew =>
    cases hunit
    have hopen : (c.addUnit u).finished = false := h.continues.isOpen
    rw [ManifestCall.runOn_perform hopen] at hrun
    cases hrun
    exact h.register (.single (Bool.eq_false_iff.2 hnew) rfl rfl) hfits
      (by simp [Context.addUnit, hcall]) rfl

/-- An optimization loader. -/
theorem registerStaticOptimization (h : Linked base executed arguments c) {name kind : String}
    {body : LoaderBody} (hfits : c.Fits (Generation.loaderUnit c.space name kind body))
    {n : Code.UnitName}
    (hrun : (Generation.registerStaticOptimization name kind body).runOn c = (.ok n, c')) :
    Linked base executed arguments c' := by
  rw [Generation.runOn_registerStaticOptimization] at hrun
  simp only [h.continues.isOpen, Bool.false_eq_true, if_false] at hrun
  split at hrun
  · cases hrun
  · next hnew =>
    cases hrun
    refine h.register (.single (Bool.eq_false_iff.2 hnew) rfl rfl) hfits ?_ ?_
    · rw [announcements_loaderUnit]
      rfl
    · simp [Context.addUnit, h.continues.isOpen]

/-- Substitutes are published that are units of the build. -/
theorem publishSubstitutes (h : Linked base executed arguments c) {s : Substitutes}
    (hs : ∀ capability, ∀ u ∈ s.get capability, u ∈ c.units) :
    Linked base executed arguments { c with substitutes := some s } := by
  refine ⟨⟨h.continues.space, h.continues.settings, h.continues.analyzer, h.continues.application,
    h.continues.isOpen⟩, h.executedModules, h.names, h.recorded, ?_, h.manifests, h.others, ?_,
    h.loaded⟩
  · intro u hu
    exact (h.fits u hu).mono rfl rfl (List.Subset.refl _)
  · intro s' hs'
    cases hs'
    exact hs

/-- One more module has run; that of a service loading has left its loader. -/
theorem markExecuted (h : Linked base executed arguments c) {id : String}
    (hloaded : ∀ profile, ServiceLoading.moduleId profile = id →
      ∃ u ∈ c.units, u.name = ServiceLoading.loaderName) :
    Linked base (executed ++ [id]) arguments
      { c with executedModules := c.executedModules ++ [id] } := by
  refine ⟨⟨h.continues.space, h.continues.settings, h.continues.analyzer, h.continues.application,
    h.continues.isOpen⟩, congrArg (· ++ [id]) h.executedModules, h.names, h.recorded, ?_,
    h.manifests, h.others, h.published, ?_⟩
  · intro u hu
    exact (h.fits u hu).mono rfl rfl (List.Subset.refl _)
  · intro profile hprofile
    rcases List.mem_append.1 hprofile with hearlier | hlast
    · exact h.loaded profile hearlier
    · exact hloaded profile (List.mem_singleton.1 hlast)

/-- A further write for the arguments of the native image. -/
theorem queue (h : Linked base executed arguments c) {w : PendingWrite}
    (hw : c.isForArguments w = true) :
    Linked base executed (arguments ++ [w]) { c with pending := c.pending ++ [w] } := by
  refine ⟨⟨h.continues.space, h.continues.settings, h.continues.analyzer, h.continues.application,
    h.continues.isOpen⟩, h.executedModules, h.names, h.recorded, ?_, ?_, ?_, h.published,
    h.loaded⟩
  · intro u hu
    exact (h.fits u hu).mono rfl rfl (List.Subset.refl _)
  · show (c.pending ++ [w]).filter (fun w => !c.isForArguments w) = _
    rw [List.filter_append, h.manifests]
    simp [hw]
  · show (c.pending ++ [w]).filter c.isForArguments = _
    rw [List.filter_append, h.others]
    simp [hw]

end Linked

end Context

open Context (Linked)

/-! ## The modules -/

theorem PropertySources.keeps_generateUnits (resources : List String) :
    Keeps (Linked base executed arguments) (generateUnits resources) := by
  induction resources with
  | nil => exact .pure ()
  | cons resource rest ih =>
    unfold generateUnits
    refine Keeps.look fun c a c' hc hrun => ?_
    split at hrun
    · exact ih c a c' hc hrun
    · next values _ =>
      obtain ⟨order, c₁, horder, hrun⟩ := Generation.runOn_bind_eq_ok_iff.1 hrun
      have hsame : c₁ = c := by
        cases hread : orderOf c.settings resource with
        | error e =>
          rw [hread] at horder
          cases horder
        | ok n =>
          rw [hread] at horder
          cases horder
          rfl
      subst hsame
      obtain ⟨n, c₂, hunit, hrun⟩ := Generation.runOn_bind_eq_ok_iff.1 hrun
      obtain ⟨⟨⟩, c₃, hexclude, hrun⟩ := Generation.runOn_bind_eq_ok_iff.1 hrun
      cases hexclude
      have hraw : rawType Runtime.propertySource = Runtime.propertySource := by decide +kernel
      have hlinked : Linked base executed arguments c₂ := by
        refine hc.registerUnit ?_ ?_ hunit
        · refine .of_implements rfl rfl ?_ (Context.not_isLinkName_append _ (.inr rfl))
          rw [hraw]
          decide
        · rw [announcements_of_implements rfl, hraw]
          exact if_neg (by decide)
      have hexcluded : Linked base executed arguments { c₂ with
          excludedResources := c₂.excludedResources.insert (resource ++ ".yml") } :=
        hlinked.silently rfl
      exact ih _ a c' hexcluded hrun

theorem PropertySources.keeps_sealed : Keeps (Linked base executed arguments) sealed.generate := by
  refine Keeps.look fun c a c' hc hrun => ?_
  obtain ⟨n, c₁, hloader, hrun⟩ := Generation.runOn_bind_eq_ok_iff.1 hrun
  cases hrun
  refine hc.registerStaticOptimization ?_ hloader
  refine ⟨rfl, ?_, ?_, ?_⟩
  · intro himplements
    rw [Context.implementsType_loaderUnit] at himplements
    cases himplements
  · intro _
    refine ⟨sourcesOf c, rfl, ?_⟩
    intro s hs
    unfold sourcesOf at hs
    split at hs
    · cases hs
    · next substitutes hpublished =>
      obtain ⟨u, hu, rfl⟩ := List.mem_map.1 hs
      exact ⟨u, hc.published _ hpublished _ u hu, rfl⟩
  · intro hname
    have hne : loaderName ≠ ServiceLoading.loaderName := by decide
    exact absurd hname hne

theorem Environment.keeps_caching : Keeps (Linked base executed arguments) caching.generate := by
  intro c a c' hc hrun
  have hmethod := Generation.runOn_registerStaticInitializer
    { name := "enableEnvironmentCaching"
      isStatic := true
      body := [.eval (.callStatic Runtime.environment "cacheEnvironment" [])] } c
  rw [if_neg (by simp [hc.continues.isOpen])] at hmethod
  have hrun := hmethod.symm.trans hrun
  split at hrun
  · cases hrun
  · cases hrun
    exact hc.silently rfl

theorem Environment.keeps_deducing : Keeps (Linked base executed arguments) deducing.generate := by
  refine Keeps.look fun c a c' hc hrun => ?_
  split at hrun
  · cases hrun
    exact hc
  · next deduce _ =>
    obtain ⟨⟨⟩, c₁, hpublish, hrun⟩ := Generation.runOn_bind_eq_ok_iff.1 hrun
    cases hpublish
    have hc₁ : Linked base executed arguments { c with deducedEnvironment := some deduce } :=
      hc.silently rfl
    split at hrun
    · obtain ⟨n, c₂, hunit, hrun⟩ := Generation.runOn_bind_eq_ok_iff.1 hrun
      have hraw : rawType Runtime.environmentConfigurer = Runtime.environmentConfigurer := by
        decide +kernel
      have hcall : (ManifestCall.overwrite Runtime.environmentConfigurer
          configurerName).perform.runOn c₂ = (.ok (), c') := hrun
      refine hc₁.announce ?_ ?_ hunit hcall
      · refine ⟨rfl, fun _ => rfl, ?_, ?_⟩
        · intro hname
          have hne : configurerName ≠ PropertySources.loaderName := by decide
          exact absurd hname hne
        · intro hname
          have hne : configurerName ≠ ServiceLoading.loaderName := by decide
          exact absurd hname hne
      · rw [announcements_of_implements rfl, hraw, if_pos (by decide)]
        rfl
    · cases hrun
      exact hc₁

/-- A module that reads the context and registers an optimization loader. -/
theorem keeps_optimization {name kind : String} {body : Context → LoaderBody}
    (hname : ¬ Context.IsLinkName name) :
    Keeps (Linked base executed arguments) (do
      let c ← get
      let _ ← Generation.registerStaticOptimization name kind (body c)) := by
  refine Keeps.look fun c a c' hc hrun => ?_
  obtain ⟨n, c₁, hloader, hrun⟩ := Generation.runOn_bind_eq_ok_iff.1 hrun
  cases hrun
  exact hc.registerStaticOptimization (.of_loaderUnit hname) hloader

theorem KnownTypes.keeps_missing : Keeps (Linked base executed arguments) missing.generate :=
  keeps_optimization (by decide)

theorem KnownTypes.keeps_reactive : Keeps (Linked base executed arguments) reactive.generate :=
  keeps_optimization (by decide)

theorem VariableNames.keeps_module : Keeps (Linked base executed arguments) module.generate := by
  refine Keeps.look fun c a c' hc hrun => ?_
  cases hlimit : limitOf c.settings with
  | error e =>
    rw [hlimit] at hrun
    cases hrun
  | ok limit =>
    simp only [hlimit, pure_bind] at hrun
    obtain ⟨⟨⟩, c₁, hmessages, hrun⟩ := Generation.runOn_bind_eq_ok_iff.1 hrun
    obtain ⟨n, c₂, hloader, hrun⟩ := Generation.runOn_bind_eq_ok_iff.1 hrun
    cases hrun
    have hlinked : Linked base executed arguments c₁ := by
      cases hmessages
      exact hc.silently rfl
    exact hlinked.registerStaticOptimization (.of_loaderUnit (by decide)) hloader

theorem LoggerLevels.keeps_module : Keeps (Linked base executed arguments) module.generate := by
  refine Keeps.look fun c a c' hc hrun => ?_
  obtain ⟨n, c₁, hunit, hrun⟩ := Generation.runOn_bind_eq_ok_iff.1 hrun
  obtain ⟨⟨⟩, c₂, hannounce, hrun⟩ := Generation.runOn_bind_eq_ok_iff.1 hrun
  have hraw : rawType Runtime.loggingConfigurator = Runtime.loggingConfigurator := by
    decide +kernel
  have hlinked : Linked base executed arguments c₂ := by
    have hcall : (ManifestCall.register Runtime.loggingConfigurator configuratorName).perform.runOn
        c₁ = (.ok (), c₂) := hannounce
    refine hc.announce ?_ ?_ hunit hcall
    · have hname : ¬ Context.IsLinkName configuratorName := by decide
      refine .of_implements rfl rfl ?_ hname
      rw [hraw]
      decide
    · rw [announcements_of_implements rfl, hraw, if_pos (by decide)]
      rfl
  cases hrun
  exact hlinked.silently rfl

/-- The entry point. -/
theorem EntryPoint.keeps_synthesize : Keeps (Linked base executed arguments) synthesize := by
  refine Keeps.look fun c a c' hc hrun => ?_
  obtain ⟨n, c₁, hunit, hrun⟩ := Generation.runOn_bind_eq_ok_iff.1 hrun
  obtain ⟨⟨⟩, c₂, hannounce, hrun⟩ := Generation.runOn_bind_eq_ok_iff.1 hrun
  cases hrun
  have hraw : rawType Runtime.applicationConfigurer = Runtime.applicationConfigurer := by
    decide +kernel
  have hcall : (ManifestCall.register Runtime.applicationConfigurer configurerName).perform.runOn
      c₁ = (.ok (), c') := hannounce
  refine hc.announce ?_ ?_ hunit hcall
  · have hname : ¬ Context.IsLinkName configurerName := by decide
    refine .of_implements rfl rfl ?_ hname
    rw [hraw]
    decide
  · rw [announcements_of_implements rfl, hraw, if_pos (by decide)]
    rfl

/-! ## Service loading -/

namespace ServiceLoading

/-- The only substitution is that of configuration resources. -/
theorem generate_of_discoveryOf {settings : DiscoverySettings} {name : String} {s : Substitution}
    (hs : (discoveryOf c settings).substitutions.get? name = some s) :
    ∃ resources, s.generate = PropertySources.generateUnits resources := by
  unfold discoveryOf structuredConfig? at hs
  split at hs
  · next substitution hconfig =>
    split at hconfig
    · cases hconfig
      rw [Discovery.register, Dict.get?_insert] at hs
      split at hs
      · cases hs
        exact ⟨_, rfl⟩
      · cases hs
    · cases hconfig
  · cases hs

theorem keeps_discovery (c : Context) (settings : DiscoverySettings) :
    Keeps (Linked base executed arguments) (discoveryOf c settings).run := by
  refine Discovery.keeps_run ?_ fun c diagnostics hc => hc.silently rfl
  intro name s hs
  obtain ⟨resources, hgenerate⟩ := generate_of_discoveryOf hs
  rw [hgenerate]
  exact PropertySources.keeps_generateUnits resources

/-- The substitutes that a discovery lists are units of the build. -/
theorem mem_units_of_substitutes {settings : DiscoverySettings} {result : DiscoveryResult}
    (hrun : (discoveryOf c settings).run.runOn c = (.ok result, c')) (capability : String)
    (u : CodeUnit) (hu : u ∈ result.substitutes.get capability) : u ∈ c'.units := by
  obtain ⟨calls, progress, -, h, hsubstitutes⟩ :=
    Discovery.exists_substituted (byOperations_discoveryOf c settings) hrun
  rw [hsubstitutes] at hu
  rw [h.addsUnits.units]
  exact List.mem_append_right _ (h.mem_units_of_mem_get hu)

/-- A discovery that succeeds has a table for each configured service. -/
theorem capabilities_of_discovery {settings : DiscoverySettings} {result : DiscoveryResult}
    (hsettings : DiscoverySettings.ofSettings c.settings = .ok settings)
    (hrun : (discoveryOf c settings).run.runOn c = (.ok result, c')) (capability : String) :
    capability ∈ (factoriesOf result).map (·.1) ↔
      capability ∈ c.settings.items DiscoverySettings.serviceTypesKey := by
  obtain ⟨outcome, after, calls, hplain, -, -, -, hends⟩ :=
    (discoveryOf c settings).exists_notedRun c (byOperations_discoveryOf c settings)
  rw [hrun] at hplain
  cases hplain
  rcases hends with ⟨found, hfound, hfinds⟩ | ⟨e, he, -⟩
  · cases hfound
    have hkeys := hfinds.has_table capability
    rw [settings_discoveryOf, (lists_ofSettings hsettings).1] at hkeys
    have hnames : (factoriesOf result).map (·.1) = result.tables.keys := by
      rw [factoriesOf, List.map_map, ← capabilities_specs]
      rfl
    rw [hnames, Dict.mem_keys]
    exact hkeys
  · cases he

theorem keeps_registerTables (profile : Profile) (maxUnitSize : Nat) (ts : List TableSpec) :
    Keeps (Linked base executed arguments) (registerTables profile maxUnitSize ts) := by
  induction ts with
  | nil => exact .pure ()
  | cons t rest ih =>
    unfold registerTables
    refine Keeps.look fun c a c' hc hrun => ?_
    obtain ⟨n, c₁, hunit, hrun⟩ := Generation.runOn_bind_eq_ok_iff.1 hrun
    have hraw : rawType (Runtime.serviceTable ++ "<" ++ t.capability ++ ">") =
        Runtime.serviceTable := rawType_append (by decide +kernel) t.capability
    refine ih c₁ a c' (hc.registerUnit ?_ ?_ hunit) hrun
    · refine .of_implements rfl rfl ?_ (Context.not_isLinkName_append _ (.inl rfl))
      rw [hraw]
      decide
    · rw [announcements_of_implements rfl, hraw]
      exact if_neg (by decide)

/-- What a discovery found is registered: the loader refers to the tables, which come first. -/
theorem linked_register {profile : Profile} {maxUnitSize : Nat} {result : DiscoveryResult}
    (h : Linked base executed arguments c)
    (hcapabilities : ∀ capability, capability ∈ (factoriesOf result).map (·.1) ↔
      capability ∈ c.settings.items DiscoverySettings.serviceTypesKey)
    (hsubstitutes : ∀ capability, ∀ u ∈ result.substitutes.get capability, u ∈ c.units)
    (hrun : (register profile maxUnitSize result).runOn c = (.ok (), c')) :
    Linked base executed arguments c' := by
  unfold register at hrun
  obtain ⟨⟨⟩, c₁, hpublish, hrun⟩ := Generation.runOn_bind_eq_ok_iff.1 hrun
  obtain ⟨⟨⟩, c₂, htables, hrun⟩ := Generation.runOn_bind_eq_ok_iff.1 hrun
  obtain ⟨n, c₃, hloader, hrun⟩ := Generation.runOn_bind_eq_ok_iff.1 hrun
  cases hrun
  cases hpublish
  have h₁ := h.publishSubstitutes hsubstitutes
  have h₂ := keeps_registerTables profile maxUnitSize result.specs _ _ _ h₁ htables
  have hsettings : c₂.settings = c.settings :=
    h₂.continues.settings.trans h.continues.settings.symm
  refine h₂.registerStaticOptimization ?_ hloader
  refine ⟨rfl, ?_, ?_, ?_⟩
  · intro himplements
    rw [Context.implementsType_loaderUnit] at himplements
    cases himplements
  · intro hname
    have hne : loaderName ≠ PropertySources.loaderName := by decide
    exact absurd hname hne
  · intro _
    refine ⟨factoriesOf result, rfl, ?_, ?_⟩
    · rw [hsettings]
      exact hcapabilities
    · intro f hf
      obtain ⟨t, ht, rfl⟩ := List.mem_map.1 hf
      have hadded := (addsUnits_registerTables htables).1.units
      refine ⟨t.render profile c.space maxUnitSize, ?_, rfl⟩
      rw [hadded]
      exact List.mem_append_right _ (List.mem_map.2 ⟨t, ht, rfl⟩)

theorem keeps_generate (profile : Profile) :
    Keeps (Linked base executed arguments) (generate profile) := by
  intro c a c' hc hrun
  obtain ⟨settings, result, found, hsettings, hdiscovery⟩ := discovery_of_generate hrun
  rw [runOn_generate, hsettings] at hrun
  simp only [hdiscovery] at hrun
  have hfound := keeps_discovery c settings c result found hc hdiscovery
  refine linked_register hfound ?_ (mem_units_of_substitutes hdiscovery) hrun
  rw [hfound.continues.settings, ← hc.continues.settings]
  exact capabilities_of_discovery hsettings hdiscovery

/-- The module leaves its loader. -/
theorem exists_loader_of_generate {profile : Profile}
    (hrun : (generate profile).runOn c = (.ok (), c')) : ∃ u ∈ c'.units, u.name = loaderName := by
  obtain ⟨settings, result, found, hsettings, hdiscovery⟩ := discovery_of_generate hrun
  rw [runOn_generate, hsettings] at hrun
  simp only [hdiscovery] at hrun
  have hadded := (addsUnits_register hrun).1.units
  refine ⟨loaderOf found.space (factoriesOf result), ?_, rfl⟩
  rw [hadded]
  exact List.mem_append_right _ (List.mem_append_right _ (List.mem_singleton_self _))

end ServiceLoading

/-! ## The catalogue -/

/-- The write of the arguments of the native image. -/
def NativeImage.argumentsWrite (base : Context) : PendingWrite where
  path := argumentsPath base.space
  action view :=
    .replace (argumentsText view.space view.buildTimeInit (excludedServices base.settings))

/-- The writes, other than those for manifests, that modules have queued. -/
def NativeImage.argumentsWrites (base : Context) (executed : List String) : List PendingWrite :=
  List.replicate (executed.count NativeImage.module.id) (argumentsWrite base)

theorem NativeImage.argumentsWrites_append (base : Context) (first second : List String) :
    argumentsWrites base (first ++ second) =
      argumentsWrites base first ++ argumentsWrites base second := by
  unfold argumentsWrites
  rw [List.count_append, List.replicate_add]

/-- The module queues the write of the arguments. -/
theorem NativeImage.runOn_module (hopen : c.finished = false) :
    NativeImage.module.generate.runOn c =
      (.ok (), { c with pending := c.pending ++ [argumentsWrite c] }) := by
  unfold NativeImage.module
  simp only [Generation.runOn_bind, Generation.runOn_get, Generation.runOn_registerResource, hopen,
    Bool.false_eq_true, if_false]
  rfl

theorem NativeImage.linked_module (h : Linked base executed arguments c)
    (hrun : NativeImage.module.generate.runOn c = (.ok (), c')) :
    Linked base executed (arguments ++ [argumentsWrite base]) c' := by
  rw [runOn_module h.continues.isOpen] at hrun
  cases hrun
  have hwrite : argumentsWrite c = argumentsWrite base := by
    unfold argumentsWrite
    rw [h.continues.space, h.continues.settings]
  have hfor : c.isForArguments (argumentsWrite c) = true := by
    unfold Context.isForArguments argumentsWrite
    exact beq_self_eq_true _
  rw [← hwrite]
  exact h.queue hfor

/-- What a module of the catalogue does. -/
theorem linked_generate {m : Module} (hm : m ∈ standardModules)
    (h : Linked base executed arguments c) (hrun : m.generate.runOn c = (.ok (), c')) :
    Linked base executed (arguments ++ NativeImage.argumentsWrites base [m.id]) c' ∧
      ∀ profile, ServiceLoading.moduleId profile = m.id →
        ∃ u ∈ c'.units, u.name = ServiceLoading.loaderName := by
  have hkeeps : ∀ m : Module, Keeps (Linked base executed arguments) m.generate →
      m.generate.runOn c = (.ok (), c') → m.id ≠ NativeImage.module.id →
      Linked base executed (arguments ++ NativeImage.argumentsWrites base [m.id]) c' := by
    intro m hkeeps hrun hid
    have hnone : NativeImage.argumentsWrites base [m.id] = [] := by
      unfold NativeImage.argumentsWrites
      rw [List.count_singleton, if_neg (by simpa using hid)]
      rfl
    rw [hnone, List.append_nil]
    exact hkeeps c () c' h hrun
  have hservices : ∀ p, (ServiceLoading.generate p).runOn c = (.ok (), c') →
      ∀ profile, ServiceLoading.moduleId profile = ServiceLoading.moduleId p →
        ∃ u ∈ c'.units, u.name = ServiceLoading.loaderName :=
    fun _ hrun _ _ => ServiceLoading.exists_loader_of_generate hrun
  have hothers : ∀ m : Module,
      m.id ∉ [ServiceLoading.moduleId .jit, ServiceLoading.moduleId .native] →
      ∀ profile, ServiceLoading.moduleId profile = m.id →
        ∃ u ∈ c'.units, u.name = ServiceLoading.loaderName := by
    intro m hid profile hprofile
    rw [← hprofile] at hid
    cases profile <;> simp at hid
  simp only [standardModules, List.mem_cons, List.not_mem_nil, or_false] at hm
  rcases hm with rfl | rfl | rfl | rfl | rfl | rfl | rfl | rfl | rfl | rfl
  · exact ⟨hkeeps _ (ServiceLoading.keeps_generate .jit) hrun (by decide), hservices .jit hrun⟩
  · exact ⟨hkeeps _ (ServiceLoading.keeps_generate .native) hrun (by decide),
      hservices .native hrun⟩
  · exact ⟨hkeeps _ PropertySources.keeps_sealed hrun (by decide), hothers _ (by decide)⟩
  · exact ⟨hkeeps _ Environment.keeps_caching hrun (by decide), hothers _ (by decide)⟩
  · exact ⟨hkeeps _ VariableNames.keeps_module hrun (by decide), hothers _ (by decide)⟩
  · exact ⟨hkeeps _ Environment.keeps_deducing hrun (by decide), hothers _ (by decide)⟩
  · exact ⟨hkeeps _ KnownTypes.keeps_missing hrun (by decide), hothers _ (by decide)⟩
  · exact ⟨hkeeps _ KnownTypes.keeps_reactive hrun (by decide), hothers _ (by decide)⟩
  · exact ⟨NativeImage.linked_module h hrun, hothers _ (by decide)⟩
  · exact ⟨hkeeps _ LoggerLevels.keeps_module hrun (by decide), hothers _ (by decide)⟩

end BuildAhead
