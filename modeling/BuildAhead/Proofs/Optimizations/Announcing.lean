import BuildAhead.Optimizations.Environment
import BuildAhead.Optimizations.NativeImage
import BuildAhead.Proofs.Code.References
import BuildAhead.Proofs.Generation.Manifests
import BuildAhead.Proofs.Generation.Naming
import BuildAhead.Proofs.Optimizations.ServiceLoading

set_option autoImplicit false

/-!
# Optimizations: announced units

A unit that implements one of four services is announced in the manifest of the service, in the same
step in which it is registered; nothing else is. A context is linked when its queued writes announce
its units and when everything that its loaders refer to is one of its units. Registering a unit
together with what announces it keeps a context linked.
-/

namespace BuildAhead

/-! ## Services and their units -/

/-- A type without its arguments. -/
def rawType (type : String) : String := String.ofList (type.toList.takeWhile (· != '<'))

/-- A type that is written without arguments is its own raw type, also with arguments behind it. -/
theorem rawType_append {type : String} (htype : '<' ∉ type.toList) (arguments : String) :
    rawType (type ++ "<" ++ arguments ++ ">") = type := by
  apply String.toList_injective
  unfold rawType
  have hopening : ("<" : String).toList = ['<'] := by decide
  have hstays : ∀ c ∈ type.toList, (c != '<') = true := by
    intro c hc
    rw [bne_iff_ne]
    rintro rfl
    exact htype hc
  rw [String.toList_append, String.toList_append, String.toList_append, hopening,
    List.append_assoc, List.append_assoc, List.takeWhile_append_of_pos hstays]
  simp

/-- A unit implements a type, with or without arguments. -/
def CodeUnit.implementsType (u : CodeUnit) (type : String) : Bool :=
  u.implements.any fun t => rawType t == type

/-- The services whose implementations an application looks up in manifests. -/
def announcedServices : List String :=
  [Runtime.optimizationLoader, Runtime.applicationConfigurer, Runtime.loggingConfigurator,
    Runtime.environmentConfigurer]

/-- The call that announces a unit as an implementation of a service. There is one environment
configurer at most, whose manifest is written anew. -/
def announcement (name service : String) : ManifestCall :=
  if service = Runtime.environmentConfigurer then .overwrite service name
  else .register service name

/-- The calls that announce a unit. -/
def CodeUnit.announcements (u : CodeUnit) : List ManifestCall :=
  (announcedServices.filter u.implementsType).map (announcement u.name)

theorem service_announcement (name service : String) :
    (announcement name service).service = service := by
  unfold announcement
  split <;> rfl

theorem name_announcement (name service : String) : (announcement name service).name = name := by
  unfold announcement
  split <;> rfl

/-- A call that announces a unit is for an announced service that the unit implements. -/
theorem mem_announcements {u : CodeUnit} {call : ManifestCall} (hcall : call ∈ u.announcements) :
    call.service ∈ announcedServices ∧ u.implementsType call.service = true := by
  obtain ⟨service, hservice, rfl⟩ := List.mem_map.1 hcall
  rw [service_announcement]
  exact List.mem_filter.1 hservice

theorem implementsType_of_implements {u : CodeUnit} {type : String}
    (himplements : u.implements = [type]) (service : String) :
    u.implementsType service = (rawType type == service) := by
  unfold CodeUnit.implementsType
  rw [himplements, List.any_cons, List.any_nil, Bool.or_false]

/-- What implements a single type is announced as what its raw type says. -/
theorem announcements_of_implements {u : CodeUnit} {type : String}
    (himplements : u.implements = [type]) :
    u.announcements = if rawType type ∈ announcedServices
      then [announcement u.name (rawType type)] else [] := by
  have hfilter : announcedServices.filter u.implementsType =
      announcedServices.filter (· == rawType type) := by
    refine List.filter_congr fun service _ => ?_
    rw [implementsType_of_implements himplements, Bool.beq_comm]
  have hnodup : announcedServices.Nodup := by decide
  unfold CodeUnit.announcements
  rw [hfilter]
  split
  · next hmem =>
    have hone : announcedServices.filter (· == rawType type) = [rawType type] := by
      have hcount := List.filter_beq (l := announcedServices) (rawType type)
      rw [List.count_eq_one_of_mem hnodup hmem] at hcount
      exact hcount
    rw [hone]
    rfl
  · next hnot =>
    rw [List.map_eq_nil_iff, List.filter_eq_nil_iff]
    intro service hservice heq
    exact hnot (beq_iff_eq.1 heq ▸ hservice)

theorem rawType_loader (kind : String) :
    rawType (Runtime.optimizationLoader ++ "<" ++ kind ++ ">") = Runtime.optimizationLoader :=
  rawType_append (by decide +kernel) kind

/-- An optimization loader is announced as one. -/
theorem announcements_loaderUnit (space name kind : String) (body : LoaderBody) :
    (Generation.loaderUnit space name kind body).announcements =
      [.register Runtime.optimizationLoader name] := by
  rw [announcements_of_implements rfl, rawType_loader, if_pos (by decide)]
  rfl

/-- The calls that announce a unit, for one service. -/
theorem filter_announcements {service : String} (hservice : service ∈ announcedServices)
    (u : CodeUnit) : u.announcements.filter (·.service == service) =
      if u.implementsType service then [announcement u.name service] else [] := by
  have hnodup : announcedServices.Nodup := by decide
  have hone : announcedServices.filter (· == service) = [service] := by
    rw [List.filter_beq, List.count_eq_one_of_mem hnodup hservice]
    rfl
  have hcalls : ∀ other : String,
      ((announcement u.name other).service == service) = (other == service) := by
    intro other
    rw [service_announcement]
  unfold CodeUnit.announcements
  rw [List.filter_map, Function.comp_def]
  simp only [hcalls]
  rw [List.filter_comm, hone, List.filter_singleton]
  cases u.implementsType service with
  | true => rfl
  | false => rfl

/-- Of the calls that announce units, those for one service announce the units that implement
it. -/
theorem filter_flatMap_announcements {service : String} (hservice : service ∈ announcedServices)
    (units : List CodeUnit) :
    (units.flatMap CodeUnit.announcements).filter (·.service == service) =
      (units.filter (·.implementsType service)).map fun u => announcement u.name service := by
  induction units with
  | nil => rfl
  | cons u rest ih =>
    rw [List.flatMap_cons, List.filter_append, ih, filter_announcements hservice, List.filter_cons]
    cases u.implementsType service with
    | true => rfl
    | false => rfl

/-! ## Linked contexts -/

namespace Context

/-- What a unit may look like in a build: the only environment configurer has its name, and the
loaders of the substitutes and of the tables refer to units of the build. -/
structure Fits (c : Context) (u : CodeUnit) : Prop where
  space : u.space = c.space
  configurer : u.implementsType Runtime.environmentConfigurer = true →
    u.name = Environment.configurerName
  sources : u.name = PropertySources.loaderName → ∃ sources,
    u = Generation.loaderUnit c.space PropertySources.loaderName Runtime.constantPropertySources
      (PropertySources.loaderBody sources) ∧
    ∀ s ∈ sources, ∃ v ∈ c.units, v.qualifiedName = s
  tables : u.name = ServiceLoading.loaderName → ∃ factories,
    u = ServiceLoading.loaderOf c.space factories ∧
    (∀ capability, capability ∈ factories.map (·.1) ↔
      capability ∈ c.settings.items DiscoverySettings.serviceTypesKey) ∧
    ∀ f ∈ factories, ∃ v ∈ c.units, v.name = f.2

theorem Fits.mono {c c' : Context} {u : CodeUnit} (h : c.Fits u) (hspace : c'.space = c.space)
    (hsettings : c'.settings = c.settings) (hunits : c.units ⊆ c'.units) : c'.Fits u where
  space := h.space.trans hspace.symm
  configurer := h.configurer
  sources hname := by
    obtain ⟨sources, hu, hsources⟩ := h.sources hname
    refine ⟨sources, hspace ▸ hu, ?_⟩
    intro s hs
    obtain ⟨v, hv, hqualified⟩ := hsources s hs
    exact ⟨v, hunits hv, hqualified⟩
  tables hname := by
    obtain ⟨factories, hu, hkeys, hfactories⟩ := h.tables hname
    refine ⟨factories, hspace ▸ hu, hsettings ▸ hkeys, ?_⟩
    intro f hf
    obtain ⟨v, hv, hfactory⟩ := hfactories f hf
    exact ⟨v, hunits hv, hfactory⟩

/-- A unit that is neither an environment configurer nor one of the two loaders. -/
theorem Fits.of_plain {c : Context} {u : CodeUnit} (hspace : u.space = c.space)
    (hconfigurer : u.implementsType Runtime.environmentConfigurer = false)
    (hsources : u.name ≠ PropertySources.loaderName)
    (htables : u.name ≠ ServiceLoading.loaderName) : c.Fits u where
  space := hspace
  configurer himplements := by
    rw [hconfigurer] at himplements
    cases himplements
  sources hname := absurd hname hsources
  tables hname := absurd hname htables

/-- A write is for the arguments of the native image. -/
def isForArguments (c : Context) (w : PendingWrite) : Bool :=
  w.path == NativeImage.argumentsPath c.space

/-- In the build that began with `base`, and in which these modules have run, the writes for
manifests announce the units and nothing else, the other writes are `arguments`, and what refers to
a unit refers to one of the build. -/
structure Linked (base : Context) (executed : List String) (arguments : List PendingWrite)
    (c : Context) : Prop where
  continues : base.Continues c
  executedModules : c.executedModules = executed
  names : (c.units.map CodeUnit.qualifiedName).Nodup
  recorded : c.NamesRecorded
  fits : ∀ u ∈ c.units, c.Fits u
  manifests : c.pending.filter (fun w => !c.isForArguments w) =
    (c.units.flatMap CodeUnit.announcements).map (ManifestCall.write c.space)
  others : c.pending.filter c.isForArguments = arguments
  published : ∀ s, c.substitutes = some s → ∀ capability, ∀ u ∈ s.get capability, u ∈ c.units
  loaded : ∀ profile, ServiceLoading.moduleId profile ∈ executed →
    ∃ u ∈ c.units, u.name = ServiceLoading.loaderName

/-- A context before the first module is linked. -/
theorem linked_start {c : Context} (hopen : c.finished = false) (hexecuted : c.executedModules = [])
    (hunits : c.units = []) (hnames : c.unitNames = ∅) (hpending : c.pending = [])
    (hsubstitutes : c.substitutes = none) : c.Linked [] [] c where
  continues := ⟨rfl, rfl, rfl, rfl, hopen⟩
  executedModules := hexecuted
  names := by simp [hunits]
  recorded := namesRecorded_start hunits hnames
  fits u hu := by
    rw [hunits] at hu
    cases hu
  manifests := by simp [hpending, hunits]
  others := by simp [hpending]
  published s hs := by
    rw [hsubstitutes] at hs
    cases hs
  loaded profile hprofile := by cases hprofile

/-- The path of the arguments is that of no manifest: the paths part behind the first folder. -/
theorem serviceManifest_ne_argumentsPath (service space : String) :
    Names.serviceManifest service ≠ NativeImage.argumentsPath space := by
  intro heq
  have hmanifest : "META-INF/services/".toList =
      "META-INF/".toList ++ 's' :: "ervices/".toList := by
    decide +kernel
  have hnative : "META-INF/native-image/".toList =
      "META-INF/".toList ++ 'n' :: "ative-image/".toList := by
    decide +kernel
  have hchars := congrArg String.toList heq
  unfold Names.serviceManifest NativeImage.argumentsPath at hchars
  rw [String.toList_append, String.toList_append, String.toList_append, hmanifest, hnative,
    List.append_assoc, List.append_assoc, List.append_assoc, List.append_right_inj] at hchars
  cases hchars

theorem isForArguments_write (c : Context) (space : String) (call : ManifestCall) :
    c.isForArguments (call.write space) = false := by
  unfold isForArguments
  rw [beq_eq_false_iff_ne]
  exact serviceManifest_ne_argumentsPath _ _

theorem filter_isForArguments_write (c : Context) (space : String) (calls : List ManifestCall) :
    (calls.map (ManifestCall.write space)).filter c.isForArguments = [] := by
  rw [List.filter_eq_nil_iff]
  intro w hw
  obtain ⟨call, -, rfl⟩ := List.mem_map.1 hw
  rw [isForArguments_write]
  exact Bool.false_ne_true

theorem filter_not_isForArguments_write (c : Context) (space : String)
    (calls : List ManifestCall) :
    (calls.map (ManifestCall.write space)).filter (fun w => !c.isForArguments w) =
      calls.map (ManifestCall.write space) := by
  rw [List.filter_eq_self]
  intro w hw
  obtain ⟨call, -, rfl⟩ := List.mem_map.1 hw
  rw [isForArguments_write]
  rfl

namespace Linked

variable {base c c' : Context} {executed : List String} {arguments : List PendingWrite}

/-- A step that changes nothing of this. -/
theorem silently (h : Linked base executed arguments c)
    (hsame : (c'.space, c'.settings, c'.analyzer, c'.application, c'.finished, c'.executedModules,
      c'.units, c'.unitNames, c'.pending, c'.substitutes) = (c.space, c.settings, c.analyzer,
      c.application, c.finished, c.executedModules, c.units, c.unitNames, c.pending,
      c.substitutes)) : Linked base executed arguments c' := by
  simp only [Prod.mk.injEq] at hsame
  obtain ⟨hspace, hsettings, hanalyzer, happlication, hfinished, hexecuted, hunits, hnames,
    hpending, hsubstitutes⟩ := hsame
  have hfor : c'.isForArguments = c.isForArguments := by
    unfold isForArguments
    rw [hspace]
  refine ⟨⟨hspace.trans h.continues.space, hsettings.trans h.continues.settings,
    hanalyzer.trans h.continues.analyzer, happlication.trans h.continues.application,
    hfinished.trans h.continues.isOpen⟩, hexecuted.trans h.executedModules, hunits ▸ h.names,
    (Context.AddsUnits.none hunits hnames).namesRecorded h.recorded, ?_, ?_, ?_, ?_, ?_⟩
  · intro u hu
    rw [hunits] at hu
    exact (h.fits u hu).mono hspace hsettings (by simp [hunits])
  · rw [hfor, hpending, hunits, hspace]
    exact h.manifests
  · rw [hfor, hpending]
    exact h.others
  · rw [hsubstitutes, hunits]
    exact h.published
  · rw [hunits]
    exact h.loaded

/-- A unit is registered together with the writes that announce it. -/
theorem register (h : Linked base executed arguments c) {u : CodeUnit}
    (hadds : c.AddsUnits c' [u]) (hfits : c.Fits u)
    (hpending : c'.pending = c.pending ++ u.announcements.map (ManifestCall.write c.space))
    (hsame : (c'.space, c'.settings, c'.analyzer, c'.application, c'.finished, c'.executedModules,
      c'.substitutes) = (c.space, c.settings, c.analyzer, c.application, c.finished,
      c.executedModules, c.substitutes)) :
    Linked base executed arguments c' := by
  simp only [Prod.mk.injEq] at hsame
  obtain ⟨hspace, hsettings, hanalyzer, happlication, hfinished, hexecuted, hsubstitutes⟩ := hsame
  have hfor : c'.isForArguments = c.isForArguments := by
    unfold isForArguments
    rw [hspace]
  have hunits := hadds.units
  have hsubset : c.units ⊆ c'.units := by
    rw [hunits]
    exact List.subset_append_left _ _
  refine ⟨⟨hspace.trans h.continues.space, hsettings.trans h.continues.settings,
    hanalyzer.trans h.continues.analyzer, happlication.trans h.continues.application,
    hfinished.trans h.continues.isOpen⟩, hexecuted.trans h.executedModules,
    hadds.names_nodup h.recorded h.names, hadds.namesRecorded h.recorded, ?_, ?_, ?_, ?_, ?_⟩
  · intro v hv
    rw [hunits] at hv
    rcases List.mem_append.1 hv with hv | hv
    · exact (h.fits v hv).mono hspace hsettings hsubset
    · rw [List.mem_singleton.1 hv]
      exact hfits.mono hspace hsettings hsubset
  · rw [hfor, hpending, hunits, hspace, List.filter_append, h.manifests,
      filter_not_isForArguments_write, List.flatMap_append, List.flatMap_singleton, List.map_append]
  · rw [hfor, hpending, List.filter_append, h.others, filter_isForArguments_write, List.append_nil]
  · intro s hs capability v hv
    rw [hsubstitutes] at hs
    exact hsubset (h.published s hs capability v hv)
  · intro profile hprofile
    obtain ⟨v, hv, hname⟩ := h.loaded profile hprofile
    exact ⟨v, hsubset hv, hname⟩

/-- At most one unit has a simple name. -/
theorem length_filter_le_one (h : Linked base executed arguments c) {p : CodeUnit → Bool}
    {name : String} (hp : ∀ u ∈ c.units, p u = true → u.name = name) :
    (c.units.filter p).length ≤ 1 := by
  have hname : ∀ u ∈ c.units.filter p, u.qualifiedName = Names.qualify c.space name := by
    intro u hu
    obtain ⟨hu, hpu⟩ := List.mem_filter.1 hu
    unfold CodeUnit.qualifiedName
    rw [(h.fits u hu).space, hp u hu hpu]
  have hnodup := h.names.sublist (List.filter_sublist (p := p) |>.map CodeUnit.qualifiedName)
  revert hname hnodup
  cases c.units.filter p with
  | nil => simp
  | cons u rest =>
    cases rest with
    | nil => simp
    | cons v rest =>
      intro hname hnodup
      have hu := hname u (by simp)
      have hv := hname v (by simp)
      simp [hu, hv] at hnodup

/-- What announces the units leaves, for a service, a line for each unit that implements it. -/
theorem manifestText_eq (h : Linked base executed arguments c) (hspace : c.space ≠ "")
    {service : String} (hservice : service ∈ announcedServices) :
    ManifestCall.manifestText c.space service (c.units.flatMap CodeUnit.announcements) =
      String.join ((c.units.filter (·.implementsType service)).map (·.qualifiedName ++ "\n")) := by
  have htail : (((c.units.filter (·.implementsType service)).map
      fun u => announcement u.name service).tail).any ManifestCall.overwrites = false := by
    by_cases hconfigurer : service = Runtime.environmentConfigurer
    · have hone := h.length_filter_le_one (p := (·.implementsType service)) fun u hu himplements =>
        (h.fits u hu).configurer (hconfigurer ▸ himplements)
      have hnil : ((c.units.filter (·.implementsType service)).map
          fun u => announcement u.name service).tail = [] := by
        rw [← List.length_eq_zero_iff, List.length_tail, List.length_map]
        omega
      rw [hnil]
      rfl
    · rw [List.any_eq_false]
      intro call hcall
      obtain ⟨u, -, rfl⟩ := List.mem_map.1 (List.mem_of_mem_tail hcall)
      unfold announcement
      rw [if_neg hconfigurer]
      exact Bool.false_ne_true
  unfold ManifestCall.manifestText
  rw [filter_flatMap_announcements hservice, ManifestCall.fromLastOverwrite_of_tail htail,
    List.map_map]
  congr 1
  refine List.map_congr_left fun u hu => ?_
  have hqualified : u.qualifiedName = c.space ++ "." ++ u.name := by
    unfold CodeUnit.qualifiedName Names.qualify
    rw [(h.fits u (List.mem_filter.1 hu).1).space, if_neg (by simpa using hspace)]
  unfold Function.comp ManifestCall.line Generation.manifestLine
  rw [name_announcement, hqualified]

end Linked

end Context

end BuildAhead
