import BuildAhead.Proofs.Optimizations.Naming

set_option autoImplicit false

/-!
# Optimizations: to whom names belong

Every name that a module of the catalogue takes belongs to this module, whatever the input. Modules
of one profile cannot get into each other's way therefore: each fails for reasons of its own.
-/

namespace BuildAhead

open Generation (Registers RegistersIf TakesOwn)

variable {base : Context}

/-! ## What service loading refuses -/

namespace ServiceLoading

/-- The input that the modules of service loading cannot work on. -/
inductive Refuses (s : Settings) (snapshot : Snapshot) (model : ApplicationModel) : Prop where
  /-- the maximal size of a table is no positive integer -/
  | maxUnitSize (h : ¬ s.Admits DiscoverySettings.maxUnitSizeKey (0 < ·))
  /-- two services have one last segment -/
  | services {a b : String} (ha : a ∈ s.items DiscoverySettings.serviceTypesKey)
    (hb : b ∈ s.items DiscoverySettings.serviceTypesKey) (hne : a ≠ b)
    (hsimple : Names.simple a = Names.simple b)
  /-- the order of a configuration resource that is replaced is out of its range -/
  | order (h : ReplacesConfig s model) {r : String} (hr : r ∈ configResources s snapshot)
    (horder : ¬ s.Admits (PropertySources.orderKey r) PropertySources.IsOrder)
  /-- two configuration resources that are replaced have one fragment -/
  | resources (h : ReplacesConfig s model) {a b : String} (ha : a ∈ configResources s snapshot)
    (hb : b ∈ configResources s snapshot) (hne : a ≠ b)
    (hfragment : Names.fragment a = Names.fragment b)

/-- What is not refused can be read, and leads to different names. -/
theorem not_refuses_iff :
    ¬ Refuses base.settings base.analyzer.snapshot base.application ↔
      (base.settings.Admits DiscoverySettings.maxUnitSizeKey (0 < ·) ∧
        (ReplacesConfig base.settings base.application →
          ∀ r ∈ configResources base.settings base.analyzer.snapshot,
            base.settings.Admits (PropertySources.orderKey r) PropertySources.IsOrder)) ∧
      ((if ReplacesConfig base.settings base.application then configSlots base else []) ++
        tableSlots base).Nodup := by
  have hnodup : ((if ReplacesConfig base.settings base.application then configSlots base else []) ++
      tableSlots base).Nodup ↔
        (ReplacesConfig base.settings base.application → (configSlots base).Nodup) ∧
          (tableSlots base).Nodup := by
    split
    · next hreplaces =>
      rw [nodup_slots_iff]
      simp [hreplaces]
    · next hkeeps => simp [hkeeps]
  rw [hnodup, nodup_configSlots_iff, nodup_tableSlots_iff]
  constructor
  · intro h
    refine ⟨⟨?_, ?_⟩, ?_, ?_⟩
    · exact Classical.byContradiction fun hsize => h (.maxUnitSize hsize)
    · intro hreplaces r hr
      exact Classical.byContradiction fun horder => h (.order hreplaces hr horder)
    · intro hreplaces a ha b hb hfragment
      exact Decidable.byContradiction fun hne => h (.resources hreplaces ha hb hne hfragment)
    · intro a ha b hb hsimple
      exact Decidable.byContradiction fun hne => h (.services ha hb hne hsimple)
  · rintro ⟨⟨hsize, horders⟩, hresources, hservices⟩ hrefuses
    cases hrefuses with
    | maxUnitSize h => exact h hsize
    | services ha hb hne hsimple => exact hne (hservices _ ha _ hb hsimple)
    | order h hr horder => exact horder (horders h _ hr)
    | resources h ha hb hne hfragment => exact hne (hresources h _ ha _ hb hfragment)

end ServiceLoading

/-! ## The owners of names -/

namespace Catalogue

/-- The names that a module takes whatever the input, and the name of the entry point. -/
def fixedOwners : List (Slot × String) :=
  [(.unit EntryPoint.configurerName, EntryPoint.configurerName),
    (.unit PropertySources.loaderName, PropertySources.sealed.id),
    (.initializer "enableEnvironmentCaching", Environment.caching.id),
    (.unit VariableNames.loaderName, VariableNames.module.id),
    (.unit Environment.configurerName, Environment.deducing.id),
    (.unit KnownTypes.missingLoaderName, KnownTypes.missing.id),
    (.unit KnownTypes.reactiveLoaderName, KnownTypes.reactive.id),
    (.unit LoggerLevels.configuratorName, LoggerLevels.module.id)]

/-- The module of a profile that a name belongs to. -/
def ownerOf (profile : Profile) (s : Slot) : String :=
  if ServiceLoading.isOwn s then ServiceLoading.moduleId profile
  else (fixedOwners.lookup s).getD ""

/-- No fixed name looks like those of service loading. -/
theorem ownerOf_fixed (profile : Profile) :
    ∀ p ∈ fixedOwners, ownerOf profile p.1 = p.2 := by
  cases profile <;> decide +kernel

/-- Whether a module of a profile can work on the input of the build. -/
def Accepts (base : Context) (profile : Profile) (id : String) : Prop :=
  (id = ServiceLoading.moduleId profile →
    ¬ ServiceLoading.Refuses base.settings base.analyzer.snapshot base.application) ∧
  (id = VariableNames.moduleId →
    base.settings.Admits VariableNames.limitKey VariableNames.IsLimit)

variable {profile : Profile} {x : Generation Unit} {id : String} {accepts : Prop}

/-- A module that takes fixed names of its own. -/
theorem takesOwn_of_fixed {slots : List Slot} {post : Unit → Prop}
    (hx : Registers base x slots accepts post) (hnodup : slots.Nodup)
    (howner : ∀ s ∈ slots, (s, id) ∈ fixedOwners) (haccepts : accepts ↔ Accepts base profile id) :
    TakesOwn base (ownerOf profile) x [id] (Accepts base profile id) := by
  have hslots : ∀ s ∈ slots, ownerOf profile s ∈ [id] := by
    intro s hs
    rw [ownerOf_fixed profile _ (howner s hs)]
    exact List.mem_singleton_self id
  refine (TakesOwn.of_registers hx hslots).congr ?_
  rw [← haccepts]
  exact and_iff_left hnodup

/-- Modules other than those of service loading and of variable names accept everything. -/
theorem accepts_of_not_mem (h : id ∉ [ServiceLoading.moduleId .jit, ServiceLoading.moduleId .native,
    VariableNames.moduleId]) : Accepts base profile id := by
  refine ⟨?_, ?_⟩
  · rintro rfl
    cases profile with
    | jit => simp at h
    | native => simp at h
  · rintro rfl
    simp at h

theorem takesOwn_serviceLoading (base : Context) (profile : Profile) :
    TakesOwn base (ownerOf profile) (ServiceLoading.generate profile)
      [ServiceLoading.moduleId profile] (Accepts base profile (ServiceLoading.moduleId profile)) := by
  have hslots : ∀ s ∈ (if ServiceLoading.ReplacesConfig base.settings base.application then
      ServiceLoading.configSlots base else []) ++ ServiceLoading.tableSlots base,
      ownerOf profile s ∈ [ServiceLoading.moduleId profile] := by
    intro s hs
    have hmem : s ∈ ServiceLoading.configSlots base ++ ServiceLoading.tableSlots base := by
      split at hs
      · exact hs
      · exact List.mem_append_right _ hs
    rw [ownerOf, if_pos (ServiceLoading.isOwn_of_mem hmem)]
    exact List.mem_singleton_self _
  have hvariables : ServiceLoading.moduleId profile ≠ VariableNames.moduleId := by
    cases profile <;> decide
  refine (TakesOwn.of_registers (ServiceLoading.registers_generate profile) hslots).congr ?_
  rw [← ServiceLoading.not_refuses_iff]
  simp [Accepts, hvariables]

/-- Every module of a profile takes names of its own, and fails exactly when it cannot work on the
input. -/
theorem takesOwn_generate (base : Context) (profile : Profile) :
    ∀ m ∈ standardModules, m.descriptor.profiles.contains profile = true →
      TakesOwn base (ownerOf profile) m.generate [m.id] (Accepts base profile m.id) := by
  have hservices : ∀ p, (ServiceLoading.module p).descriptor.profiles.contains profile = true →
      TakesOwn base (ownerOf profile) (ServiceLoading.module p).generate
        [(ServiceLoading.module p).id] (Accepts base profile (ServiceLoading.module p).id) := by
    intro p hp
    have hprofile : p = profile := by
      revert hp
      cases p <;> cases profile <;> decide
    rw [hprofile]
    exact takesOwn_serviceLoading base profile
  -- the other modules
  have hfixed : ∀ (m : Module) (slots : List Slot),
      Registers base m.generate slots True (fun _ => True) → slots.Nodup →
      (∀ s ∈ slots, (s, m.id) ∈ fixedOwners) →
      m.id ∉ [ServiceLoading.moduleId .jit, ServiceLoading.moduleId .native,
        VariableNames.moduleId] →
      TakesOwn base (ownerOf profile) m.generate [m.id] (Accepts base profile m.id) :=
    fun m slots hregisters hnodup howner hid =>
      takesOwn_of_fixed hregisters hnodup howner (iff_of_true trivial (accepts_of_not_mem hid))
  intro m hm hprofile
  simp only [standardModules, List.mem_cons, List.not_mem_nil, or_false] at hm
  rcases hm with rfl | rfl | rfl | rfl | rfl | rfl | rfl | rfl | rfl | rfl
  · exact hservices .jit hprofile
  · exact hservices .native hprofile
  · exact hfixed _ _ PropertySources.registers_sealed (by decide) (by decide) (by decide)
  · exact hfixed _ _ Environment.registers_caching (by decide) (by decide) (by decide)
  · have hvariables : base.settings.Admits VariableNames.limitKey VariableNames.IsLimit ↔
        Accepts base profile VariableNames.moduleId := by
      have hservices : VariableNames.moduleId ≠ ServiceLoading.moduleId profile := by
        cases profile <;> decide
      simp [Accepts, hservices]
    exact takesOwn_of_fixed VariableNames.registers_module (by decide) (by decide) hvariables
  · have hdeducing : RegistersIf base Environment.deducing.generate _ _ True fun _ => True :=
      Environment.registers_deducing
    refine hfixed _ _ (hdeducing.congr (by simp)) ?_ ?_ (by decide)
    · split <;> decide
    · split <;> decide
  · exact hfixed _ _ KnownTypes.registers_missing (by decide) (by decide) (by decide)
  · exact hfixed _ _ KnownTypes.registers_reactive (by decide) (by decide) (by decide)
  · exact hfixed _ _ NativeImage.registers_module (by decide) (by decide) (by decide)
  · exact hfixed _ _ LoggerLevels.registers_module (by decide) (by decide) (by decide)

end Catalogue

end BuildAhead
