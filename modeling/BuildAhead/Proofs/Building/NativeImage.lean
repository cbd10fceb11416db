import BuildAhead.Proofs.Building.Manifests

set_option autoImplicit false

/-!
# Building: the arguments of the native image

Behind a build that succeeds, and in which the module of the native image has run, the file of the
arguments, cut where its lines go on, gives the arguments back: the types that the build has
registered by its end, in ascending order, and the services that need not be looked up. These are
the services that the generated loader maps to tables, or none when no loader is generated for the
image.
-/

namespace BuildAhead

namespace NativeImage

/-- How a line of the file goes on in the next. -/
def continuation : String := " \\\n     "

/-- No line can be taken to go on inside of a text. -/
def IsUnbroken (s : String) : Prop := '\\' ∉ s.toList

instance (s : String) : Decidable (IsUnbroken s) := inferInstanceAs (Decidable (_ ∉ _))

theorem IsUnbroken.append {a b : String} (ha : IsUnbroken a) (hb : IsUnbroken b) :
    IsUnbroken (a ++ b) := by
  unfold IsUnbroken
  rw [String.toList_append, List.mem_append, not_or]
  exact ⟨ha, hb⟩

/-- Arguments for unbroken names are unbroken. -/
theorem isUnbroken_of_mem_arguments {space : String} {buildTimeInit : NameSet}
    {services : List String} (hspace : IsUnbroken space)
    (hinit : ∀ name ∈ buildTimeInit.toList, IsUnbroken name)
    (hservices : ∀ service ∈ services, IsUnbroken service) {argument : String}
    (hmem : argument ∈ arguments space buildTimeInit services) : IsUnbroken argument := by
  have hinitArgument : ∀ name, IsUnbroken name → IsUnbroken (initArgument name) :=
    fun name hname => IsUnbroken.append (by decide +kernel) hname
  unfold arguments at hmem
  rcases List.mem_append.1 hmem with hmem | hmem
  · rcases List.mem_cons.1 hmem with rfl | hmem
    · exact hinitArgument _ (by decide +kernel)
    · rcases List.mem_cons.1 hmem with rfl | hmem
      · exact hinitArgument _ ((hspace.append (by decide +kernel)).append (by decide +kernel))
      · obtain ⟨name, hname, rfl⟩ := List.mem_map.1 hmem
        exact hinitArgument name (hinit name hname)
  · obtain ⟨service, hservice, rfl⟩ := List.mem_map.1 hmem
    exact IsUnbroken.append (by decide +kernel) (hservices service hservice)

/-- The text of the file, cut where its lines go on, gives the arguments back. -/
theorem exists_argumentsText {space : String} {buildTimeInit : NameSet} {services : List String}
    (hunbroken : ∀ argument ∈ arguments space buildTimeInit services, IsUnbroken argument) :
    ∃ body, argumentsText space buildTimeInit services = "Args=" ++ body ++ "\n\n" ∧
      Text.cutAt continuation body = arguments space buildTimeInit services :=
  ⟨_, rfl, Text.cutAt_joined rfl (by decide) (List.cons_ne_nil _ _) hunbroken⟩

end NativeImage

open NativeImage (IsUnbroken)

/-! ## The services of the loader -/

/-- When its method `load` is called, the loader answers a map whose keys are these services. -/
def ServiceLoading.MapsServices (loader : CodeUnit) (services : List String) : Prop :=
  ∃ entries : List (String × Code.Value),
    (∀ depth, ∃ answer number trace, (loader.invoke (depth + 1) "load" []).run {} =
        some (.object answer Runtime.staticServices [.object number "HashMap" []], trace) ∧
      trace.Fills number entries) ∧
    ∀ service, service ∈ entries.map (·.1) ↔ service ∈ services

/-- In a linked context the loader maps the configured services. -/
theorem Context.Linked.mapsServices {base c : Context} {executed : List String}
    {arguments : List PendingWrite} (h : Context.Linked base executed arguments c) {u : CodeUnit}
    (hu : u ∈ c.units) (hname : u.name = ServiceLoading.loaderName) :
    ServiceLoading.MapsServices u (base.settings.items DiscoverySettings.serviceTypesKey) := by
  obtain ⟨factories, rfl, hkeys, -⟩ := (h.fits u hu).tables hname
  refine ⟨ServiceLoading.loaderEntries factories, ?_, ?_⟩
  · intro depth
    exact ⟨_, 0, _, ServiceLoading.run_invoke_load _ _ depth, ServiceLoading.fills_enterAll _⟩
  · intro service
    rw [ServiceLoading.keys_loaderEntries, ← h.continues.settings]
    exact hkeys service

namespace Registry

variable {input : BuildInput} {resources : Files.Path} {tree tree' : Files.Tree}
  {output : GenerationOutput}

namespace Completes

variable {space : String} {profile : Profile} {modules : List Module} {c : Context}

theorem nodup_executedModules
    (h : Completes input resources tree tree' output space profile modules c) :
    (modules.map Module.id).Nodup :=
  holds_standard.schedule_distinct ⟨profile, h.readsProfile, h.schedules⟩

/-- When the module has run, its write is the only one for the file. -/
theorem filter_isForArguments
    (h : Completes input resources tree tree' output space profile modules c)
    (hran : NativeImage.module.id ∈ output.executedModules) :
    c.pending.filter c.isForArguments =
      [NativeImage.argumentsWrite (input.contextOf space profile)] := by
  have hexecuted : NativeImage.module.id ∈ modules.map Module.id := by
    rw [h.output] at hran
    rw [← h.linked.executedModules]
    exact hran
  rw [h.linked.others]
  unfold NativeImage.argumentsWrites
  rw [List.count_eq_one_of_mem h.nodup_executedModules hexecuted]
  rfl

/-- A write is for the file of the arguments, or its target is at another place. -/
theorem target_cases (h : Completes input resources tree tree' output space profile modules c)
    {w : PendingWrite} (hw : w ∈ c.pending) :
    (c.isForArguments w = true ∧
        w.target resources = Files.Path.join resources (NativeImage.argumentsPath c.space)) ∨
      (c.isForArguments w = false ∧ tree.placeOf (w.target resources) ≠
        tree.placeOf (Files.Path.join resources (NativeImage.argumentsPath c.space))) := by
  rcases h.linked.mem_pending hw with ⟨hfor, u, -, call, hcall, rfl⟩ | ⟨hfor, -, -⟩
  · exact .inr ⟨hfor, (placeOf_arguments_ne (mem_announcements hcall).1 tree resources _).symm⟩
  · refine .inl ⟨hfor, ?_⟩
    unfold PendingWrite.target
    rw [eq_of_beq hfor]

/-- All that is done to the file of the arguments is to write them, once. -/
theorem actionsAt_arguments
    (h : Completes input resources tree tree' output space profile modules c)
    (hran : NativeImage.module.id ∈ output.executedModules) :
    PendingWrite.actionsAt c.view resources
        (Files.Path.join resources (NativeImage.argumentsPath c.space)) c.pending =
      [.replace (NativeImage.argumentsText c.space c.buildTimeInit
        (NativeImage.excludedServices input.settings))] := by
  have hfilter : c.pending.filter (fun w => Files.Path.key (w.target resources) ==
      Files.Path.key (Files.Path.join resources (NativeImage.argumentsPath c.space))) =
        c.pending.filter c.isForArguments := by
    refine List.filter_congr fun w hw => ?_
    rcases h.target_cases hw with ⟨hfor, htarget⟩ | ⟨hfor, hplace⟩
    · rw [hfor, htarget]
      exact beq_self_eq_true _
    · rw [hfor, beq_eq_false_iff_ne]
      exact fun hkey => hplace (Files.Tree.placeOf_eq_of_key hkey tree)
  unfold PendingWrite.actionsAt
  rw [hfilter, h.filter_isForArguments hran]
  rfl

/-- When the module has run, the file holds the arguments as they are at the end. -/
theorem read_arguments (h : Completes input resources tree tree' output space profile modules c)
    (hran : NativeImage.module.id ∈ output.executedModules) :
    tree'.read (Files.Path.join resources (NativeImage.argumentsPath output.space)) =
      .ok (NativeImage.argumentsText output.space output.buildTimeInit
        (NativeImage.excludedServices input.settings)) := by
  have hqueued : ∃ w ∈ c.pending, c.isForArguments w = true := by
    have hmem :=
      List.mem_singleton_self (NativeImage.argumentsWrite (input.contextOf space profile))
    rw [← h.filter_isForArguments hran] at hmem
    exact ⟨_, List.mem_filter.1 hmem⟩
  obtain ⟨w, hw, hfor⟩ := hqueued
  have htarget : w.target resources =
      Files.Path.join resources (NativeImage.argumentsPath c.space) := by
    rcases h.target_cases hw with ⟨-, htarget⟩ | ⟨hother, -⟩
    · exact htarget
    · rw [hfor] at hother
      cases hother
  have htext := PendingWrite.text?_runAll h.writes fun w hw hplace => by
    rcases h.target_cases hw with ⟨-, htarget⟩ | ⟨-, hother⟩
    · rw [htarget]
    · exact absurd hplace hother
  rw [h.actionsAt_arguments hran, List.contains_nil] at htext
  have hmade := PendingWrite.made_runAll h.writes w hw
  rw [h.output]
  refine Files.Tree.read_of_writable (htarget ▸ hmade.writable) ?_
  rw [(PendingWrite.keepsFolders_runAll h.writes).placeOf]
  exact htext

/-- On the profile of the image the loader is generated exactly when services are left out. -/
theorem excludedServices_eq
    (h : Completes input resources tree tree' output space profile modules c)
    (hran : NativeImage.module.id ∈ output.executedModules) :
    NativeImage.excludedServices input.settings =
      if ServiceLoading.moduleId .native ∈ output.executedModules then
        input.settings.items DiscoverySettings.serviceTypesKey
      else [] := by
  have hprofile : profile = .native := by
    have hfor := ((h.mem_executedModules_iff (by simp [standardModules])).1 hran).1
    revert hfor
    cases profile <;> decide
  subst hprofile
  have hloading : ServiceLoading.moduleId .native ∈ output.executedModules ↔
      input.settings.bool (Names.switch (ServiceLoading.moduleId .native)) true = true := by
    have hmem := h.mem_executedModules_iff (m := ServiceLoading.module .native)
      (by simp [standardModules])
    exact hmem.trans (and_iff_right rfl)
  unfold NativeImage.excludedServices
  simp only [hloading]

/-- When service loading has run for the image, there is one loader, which maps the services that
are left out. -/
theorem exists_loader (h : Completes input resources tree tree' output space profile modules c)
    (hran : NativeImage.module.id ∈ output.executedModules)
    (hloading : ServiceLoading.moduleId .native ∈ output.executedModules) :
    ∃ loader, output.units.filter (·.name == ServiceLoading.loaderName) = [loader] ∧
      ServiceLoading.MapsServices loader (NativeImage.excludedServices input.settings) := by
  have hexcluded := h.excludedServices_eq hran
  rw [if_pos hloading] at hexcluded
  have houtput := h.output
  subst houtput
  rw [hexcluded]
  have hloaded : ServiceLoading.moduleId .native ∈ modules.map Module.id := by
    rw [← h.linked.executedModules]
    exact hloading
  obtain ⟨u, hu, hname⟩ := h.linked.loaded .native hloaded
  have hmem : u ∈ c.units.filter (·.name == ServiceLoading.loaderName) :=
    List.mem_filter.2 ⟨hu, beq_iff_eq.2 hname⟩
  have hone := h.linked.length_filter_le_one (p := (·.name == ServiceLoading.loaderName))
    fun v _ hv => beq_iff_eq.1 hv
  refine ⟨u, ?_, h.linked.mapsServices hu hname⟩
  obtain ⟨loader, hloader⟩ := List.length_eq_one_iff.1
    (le_antisymm hone (List.length_pos_of_mem hmem))
  show c.units.filter (·.name == ServiceLoading.loaderName) = [u]
  rw [hloader] at hmem ⊢
  rw [List.mem_singleton.1 hmem]

end Completes

/-! ## The whole build -/

/-- The file of the arguments has the types that the build has registered by its end, and leaves out
exactly the services that a generated loader maps to tables. -/
structure HoldsArguments (resources : Files.Path) (tree' : Files.Tree) (output : GenerationOutput)
    (excluded : List String) : Prop where
  /-- cut where its lines go on, the file gives the arguments -/
  arguments : ∃ body,
    tree'.read (Files.Path.join resources (NativeImage.argumentsPath output.space)) =
      .ok ("Args=" ++ body ++ "\n\n") ∧
    Text.cutAt NativeImage.continuation body =
      NativeImage.initArgument Runtime.applicationConfigurer ::
        NativeImage.initArgument (output.space ++ "." ++ EntryPoint.configurerName) ::
        output.buildTimeInit.toList.map NativeImage.initArgument ++
        excluded.map NativeImage.excludeArgument
  ascending : output.buildTimeInit.toList.Pairwise (· < ·)
  mapped : ServiceLoading.moduleId .native ∈ output.executedModules →
    ∃ loader, output.units.filter (·.name == ServiceLoading.loaderName) = [loader] ∧
      ServiceLoading.MapsServices loader excluded
  unmapped : ServiceLoading.moduleId .native ∉ output.executedModules → excluded = []

/-- The input of a build of a native image. -/
def imageInput : BuildInput :=
  greeterInput [("runtime", "native"), ("native.image.config.enabled", "true")]

end Registry

end BuildAhead
