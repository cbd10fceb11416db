import BuildAhead.Proofs.Building.Links

set_option autoImplicit false

/-!
# Building: manifests and references

Behind a build of the catalogue that succeeds, the manifest of a service has a line for each unit
that implements the service and no other line, the services without such a unit get no manifest, and
whatever the generated loaders name is part of the runtime or a unit of the build. An application
that is started finds everything that it looks up, therefore.
-/

namespace BuildAhead

/-- The units that implement a service, in the order in which they were registered. -/
def GenerationOutput.implementing (o : GenerationOutput) (service : String) : List CodeUnit :=
  o.units.filter (·.implementsType service)

/-! ## Places of files -/

theorem isName_of_announced {service : String} (hservice : service ∈ announcedServices) :
    Files.Path.IsName service := by
  simp only [announcedServices, List.mem_cons, List.not_mem_nil, or_false] at hservice
  rcases hservice with rfl | rfl | rfl | rfl <;>
    exact ⟨by decide, by decide, by decide, by decide +kernel⟩

theorem NativeImage.argumentsPath_eq_child (space : String) :
    argumentsPath space =
      Files.Path.child ("META-INF/native-image/" ++ space) "native-image.properties" := by
  have hname : "/native-image.properties" = "/" ++ "native-image.properties" := by decide +kernel
  unfold argumentsPath Files.Path.child
  rw [hname, ← String.append_assoc]

/-- The file of the arguments lies at the place of no manifest, whatever the namespace. -/
theorem placeOf_arguments_ne {service : String} (hservice : service ∈ announcedServices)
    (tree : Files.Tree) (resources : Files.Path) (space : String) :
    tree.placeOf (Files.Path.join resources (NativeImage.argumentsPath space)) ≠
      tree.placeOf (ManifestCall.manifestPath resources service) := by
  have hfile : Files.Path.IsName "native-image.properties" :=
    ⟨by decide, by decide, by decide, by decide +kernel⟩
  have hfolder : "META-INF/native-image/" ++ space ≠ "" := by
    intro heq
    have hchars := congrArg String.length heq
    rw [String.length_append] at hchars
    have hlength : "META-INF/native-image/".length = 22 := by decide +kernel
    simp [hlength] at hchars
  have hother : ∀ name ∈ announcedServices, name ≠ "native-image.properties" := by decide
  intro hplace
  rw [NativeImage.argumentsPath_eq_child, Files.Path.join_child hfolder,
    Files.Tree.placeOf_child (Files.Path.join_ne_empty hfolder) hfile,
    ManifestCall.manifestPath_eq_child,
    Files.Tree.placeOf_child (Files.Path.child_ne_empty _ _) (isName_of_announced hservice)]
    at hplace
  obtain ⟨-, hlast⟩ := List.append_inj' hplace rfl
  exact hother service hservice (List.singleton_inj.1 hlast).symm

/-! ## The deferred writes of a linked context -/

namespace Context.Linked

variable {base c : Context} {executed : List String}

/-- A queued write announces a unit, or is for the arguments of the native image. -/
theorem mem_pending (h : Linked base executed (NativeImage.argumentsWrites base executed) c)
    {w : PendingWrite} (hw : w ∈ c.pending) :
    (c.isForArguments w = false ∧ ∃ u ∈ c.units, ∃ call ∈ u.announcements,
        w = call.write c.space) ∨
      (c.isForArguments w = true ∧ NativeImage.module.id ∈ executed ∧
        w = NativeImage.argumentsWrite base) := by
  cases hfor : c.isForArguments w with
  | false =>
    have hmem : w ∈ c.pending.filter fun w => !c.isForArguments w :=
      List.mem_filter.2 ⟨hw, by rw [hfor]; rfl⟩
    rw [h.manifests] at hmem
    obtain ⟨call, hcall, rfl⟩ := List.mem_map.1 hmem
    obtain ⟨u, hu, hannounces⟩ := List.mem_flatMap.1 hcall
    exact .inl ⟨rfl, u, hu, call, hannounces, rfl⟩
  | true =>
    have hmem : w ∈ c.pending.filter c.isForArguments := List.mem_filter.2 ⟨hw, hfor⟩
    rw [h.others] at hmem
    obtain ⟨hcount, heq⟩ := List.mem_replicate.1 hmem
    exact .inr ⟨rfl, List.count_pos_iff.1 (Nat.pos_of_ne_zero hcount), heq⟩

/-- What announces a unit is queued. -/
theorem mem_pending_of_announces {arguments : List PendingWrite}
    (h : Linked base executed arguments c) {u : CodeUnit} (hu : u ∈ c.units) {call : ManifestCall}
    (hcall : call ∈ u.announcements) : call.write c.space ∈ c.pending := by
  have hmem : call.write c.space ∈
      (c.units.flatMap CodeUnit.announcements).map (ManifestCall.write c.space) :=
    List.mem_map_of_mem (List.mem_flatMap.2 ⟨u, hu, hcall⟩)
  rw [← h.manifests] at hmem
  exact List.mem_of_mem_filter hmem

/-- The actions on the manifest of an announced service are those that announce units for it. -/
theorem actionsAt_manifest (h : Linked base executed (NativeImage.argumentsWrites base executed) c)
    {service : String} (hservice : service ∈ announcedServices) (view : FinishView)
    (resources : Files.Path) :
    PendingWrite.actionsAt view resources (ManifestCall.manifestPath resources service) c.pending =
      ((c.units.flatMap CodeUnit.announcements).filter (·.service == service)).map
        (ManifestCall.action c.space) := by
  have hnames : ∀ call ∈ c.units.flatMap CodeUnit.announcements,
      Files.Path.IsName call.service := by
    intro call hcall
    obtain ⟨u, -, hannounces⟩ := List.mem_flatMap.1 hcall
    exact isName_of_announced (mem_announcements hannounces).1
  rw [← ManifestCall.actionsAt_map_write hnames (isName_of_announced hservice), ← h.manifests]
  unfold PendingWrite.actionsAt
  rw [List.filter_filter]
  refine congrArg _ (List.filter_congr fun w hw => ?_)
  rcases h.mem_pending hw with ⟨hfor, -⟩ | ⟨hfor, -, rfl⟩
  · rw [hfor]
    exact (Bool.and_true _).symm
  · -- the file of the arguments has another path
    rw [hfor, Bool.not_true, Bool.and_false, beq_eq_false_iff_ne]
    intro hkey
    exact placeOf_arguments_ne hservice (default : Files.Tree) resources base.space
      (Files.Tree.placeOf_eq_of_key hkey default)

end Context.Linked

namespace Registry.Completes

variable {input : BuildInput} {resources : Files.Path} {tree tree' : Files.Tree}
  {output : GenerationOutput} {space : String} {profile : Profile} {modules : List Module}
  {c : Context}

theorem space_eq (h : Completes input resources tree tree' output space profile modules c) :
    c.space = space :=
  h.linked.continues.space

/-- The namespace of a build is not empty. -/
theorem space_ne_empty
    (h : Completes input resources tree tree' output space profile modules c) : c.space ≠ "" := by
  have hrequire := h.readsSpace
  rw [h.space_eq]
  rintro rfl
  unfold Settings.require at hrequire
  split at hrequire
  · split at hrequire
    · cases hrequire
    · next hblank =>
      cases hrequire
      exact hblank (by decide)
  · cases hrequire

/-- Where a write of the build goes: to the manifest of a service with an implementation, or to the
arguments of the native image. -/
theorem placeOf_target (h : Completes input resources tree tree' output space profile modules c)
    {w : PendingWrite} (hw : w ∈ c.pending) :
    (∃ service ∈ announcedServices, output.implementing service ≠ [] ∧
        w.target resources = ManifestCall.manifestPath resources service) ∨
      (NativeImage.module.id ∈ output.executedModules ∧ w.target resources =
        Files.Path.join resources (NativeImage.argumentsPath output.space)) := by
  have houtput := h.output
  subst houtput
  rcases h.linked.mem_pending hw with ⟨-, u, hu, call, hcall, rfl⟩ | ⟨-, hexecuted, rfl⟩
  · obtain ⟨hservice, himplements⟩ := mem_announcements hcall
    exact .inl ⟨call.service, hservice,
      List.ne_nil_of_mem (List.mem_filter.2 ⟨hu, himplements⟩), rfl⟩
  · refine .inr ⟨?_, ?_⟩
    · rw [← h.linked.executedModules] at hexecuted
      exact hexecuted
    · show Files.Path.join resources (NativeImage.argumentsPath space) = _
      rw [← h.space_eq]
      rfl

/-- A manifest holds the names of the units that implement its service. -/
theorem text?_manifest (h : Completes input resources tree tree' output space profile modules c)
    {service : String} (hservice : service ∈ announcedServices)
    (hunits : output.implementing service ≠ []) :
    tree'.text? (tree.placeOf (ManifestCall.manifestPath resources service)) =
      some (String.join ((output.implementing service).map (·.qualifiedName ++ "\n"))) := by
  have hpath : ∀ w ∈ c.pending, tree.placeOf (w.target resources) =
      tree.placeOf (ManifestCall.manifestPath resources service) →
      Files.Path.key (w.target resources) =
        Files.Path.key (ManifestCall.manifestPath resources service) := by
    intro w hw hplace
    rcases h.placeOf_target hw with ⟨other, hother, -, htarget⟩ | ⟨-, htarget⟩
    · rw [htarget] at hplace ⊢
      rw [ManifestCall.service_eq_of_placeOf (isName_of_announced hother)
        (isName_of_announced hservice) hplace]
    · rw [htarget] at hplace
      exact absurd hplace (placeOf_arguments_ne hservice tree resources output.space)
  have houtput := h.output
  subst houtput
  have hcalls : (c.units.flatMap CodeUnit.announcements).filter (·.service == service) ≠ [] := by
    rw [filter_flatMap_announcements hservice, Ne, List.map_eq_nil_iff]
    exact hunits
  rw [PendingWrite.text?_runAll h.writes hpath, h.linked.actionsAt_manifest hservice,
    List.contains_nil, ManifestCall.afterAll_of_untouched hcalls]
  exact congrArg some (h.linked.manifestText_eq h.space_ne_empty hservice)

/-- A manifest can be read. -/
theorem read_manifest (h : Completes input resources tree tree' output space profile modules c)
    {service : String} (hservice : service ∈ announcedServices)
    (hunits : output.implementing service ≠ []) :
    tree'.read (ManifestCall.manifestPath resources service) =
      .ok (String.join ((output.implementing service).map (·.qualifiedName ++ "\n"))) := by
  have houtput := h.output
  have htext := h.text?_manifest hservice hunits
  obtain ⟨u, hu⟩ := List.exists_mem_of_ne_nil _ hunits
  subst houtput
  obtain ⟨hu, himplements⟩ := List.mem_filter.1 hu
  have hcall : announcement u.name service ∈ u.announcements :=
    List.mem_map_of_mem (List.mem_filter.2 ⟨hservice, himplements⟩)
  have hmade := PendingWrite.made_runAll h.writes _ (h.linked.mem_pending_of_announces hu hcall)
  have htarget : ((announcement u.name service).write c.space).target resources =
      ManifestCall.manifestPath resources service := by
    unfold PendingWrite.target ManifestCall.write ManifestCall.manifestPath
    rw [service_announcement]
  refine Files.Tree.read_of_writable (htarget ▸ hmade.writable) ?_
  rw [(PendingWrite.keepsFolders_runAll h.writes).placeOf]
  exact htext

end Registry.Completes

/-! ## What the loaders refer to -/

/-- The types that the loaders name besides units: those of the language and of the runtime. -/
def loaderTypes : List String :=
  ["ArrayList", "HashMap", Runtime.constantPropertySources, Runtime.staticServices,
    Runtime.optimizationLoader ++ "<" ++ Runtime.constantPropertySources ++ ">",
    Runtime.optimizationLoader ++ "<" ++ Runtime.staticServices ++ ">"]

theorem typesUsed_loaderUnit (space name kind : String) (statements : List Code.Stmt) :
    (Generation.loaderUnit space name kind { statements }).typesUsed =
      (Runtime.optimizationLoader ++ "<" ++ kind ++ ">") :: kind ::
        Code.Stmt.typesOfAll statements := by
  simp [Generation.loaderUnit, CodeUnit.typesUsed, CodeUnit.typesOfMethod, Code.Stmt.typesOfAll]

theorem PropertySources.mem_typesUsed {space type : String} {sources : List String}
    (h : type ∈ (Generation.loaderUnit space loaderName Runtime.constantPropertySources
      (loaderBody sources)).typesUsed) : type ∈ loaderTypes ∨ type ∈ sources := by
  have hadds : Code.Stmt.typesOfAll (sources.map fun s =>
      .eval (.callOn (.ident "propertySources") "add" [.construct s []])) = sources.map id :=
    Code.Stmt.typesOfAll_map fun _ => rfl
  unfold loaderBody at h
  rw [typesUsed_loaderUnit, List.cons_append, Code.Stmt.typesOfAll, Code.Stmt.typesOfAll_append,
    hadds, List.map_id] at h
  simp only [Code.Stmt.typesOfAll, Code.Stmt.typesUsed, Code.Expr.typesUsed, Code.Expr.typesOfAll,
    List.mem_cons, List.mem_append, List.not_mem_nil, or_false] at h
  unfold loaderTypes
  simp only [List.mem_cons, List.not_mem_nil, or_false]
  tauto

theorem ServiceLoading.mem_typesUsed {space type : String} {factories : List (String × String)}
    (h : type ∈ (loaderOf space factories).typesUsed) :
    type ∈ loaderTypes ∨ ∃ f ∈ factories, f.2 = type := by
  have hputs : Code.Stmt.typesOfAll (factories.map fun f =>
      .eval (.callOn (.ident "services") "put" [.text f.1, .construct f.2 []])) =
        factories.map (·.2) :=
    Code.Stmt.typesOfAll_map fun _ => rfl
  unfold loaderOf loaderBody at h
  rw [typesUsed_loaderUnit, List.cons_append, Code.Stmt.typesOfAll, Code.Stmt.typesOfAll_append,
    hputs] at h
  simp only [Code.Stmt.typesOfAll, Code.Stmt.typesUsed, Code.Expr.typesUsed, Code.Expr.typesOfAll,
    List.mem_cons, List.mem_append, List.not_mem_nil, or_false, List.mem_map] at h
  unfold loaderTypes
  simp only [List.mem_cons, List.not_mem_nil, or_false]
  tauto

/-- Every type that a unit names is the runtime's or a unit, written with its namespace or, as the
units share one, without. -/
def CodeUnit.RefersWithin (u : CodeUnit) (units : List CodeUnit) : Prop :=
  ∀ type ∈ u.typesUsed,
    type ∈ loaderTypes ∨ ∃ v ∈ units, v.space = u.space ∧ (type = v.qualifiedName ∨ type = v.name)

/-- In a linked context the two loaders refer to the runtime and to units. -/
theorem Context.Linked.refersWithin {base c : Context} {executed : List String}
    {arguments : List PendingWrite} (h : Linked base executed arguments c) {u : CodeUnit}
    (hu : u ∈ c.units) (hname : Context.IsLinkName u.name) : u.RefersWithin c.units := by
  have hfits := h.fits u hu
  have hspace : ∀ v ∈ c.units, v.space = u.space := fun v hv =>
    (h.fits v hv).space.trans hfits.space.symm
  intro type htype
  rcases hname with hname | hname
  · obtain ⟨sources, heq, hsources⟩ := hfits.sources hname
    rw [heq] at htype
    rcases PropertySources.mem_typesUsed htype with hruntime | hsource
    · exact .inl hruntime
    · obtain ⟨v, hv, hqualified⟩ := hsources type hsource
      exact .inr ⟨v, hv, hspace v hv, .inl hqualified.symm⟩
  · obtain ⟨factories, heq, -, hfactories⟩ := hfits.tables hname
    rw [heq] at htype
    rcases ServiceLoading.mem_typesUsed htype with hruntime | ⟨f, hf, rfl⟩
    · exact .inl hruntime
    · obtain ⟨v, hv, hfactory⟩ := hfactories f hf
      exact .inr ⟨v, hv, hspace v hv, .inr hfactory.symm⟩

/-! ## The whole build -/

namespace Registry

variable {input : BuildInput} {resources : Files.Path} {tree tree' : Files.Tree}
  {output : GenerationOutput}

/-- The resources of a build announce its units, and its loaders refer to them. -/
structure AnnouncesUnits (resources : Files.Path) (tree tree' : Files.Tree)
    (output : GenerationOutput) : Prop where
  /-- no two units have one name -/
  names : (output.units.map CodeUnit.qualifiedName).Nodup
  /-- the manifest of a service has a line for each unit that implements it, in order -/
  manifest : ∀ service ∈ announcedServices, output.implementing service ≠ [] →
    tree'.read (ManifestCall.manifestPath resources service) =
      .ok (String.join ((output.implementing service).map (·.qualifiedName ++ "\n")))
  /-- cut at the ends of its lines, a manifest gives the names back that have no such end inside -/
  lines : ∀ service ∈ announcedServices, output.implementing service ≠ [] →
    (∀ u ∈ output.implementing service, '\n' ∉ u.qualifiedName.toList) →
    ∀ text, tree'.read (ManifestCall.manifestPath resources service) = .ok text →
      Text.pieces (· == '\n') text =
        (output.implementing service).map CodeUnit.qualifiedName ++ [""]
  /-- a service that no unit implements gets no manifest -/
  absent : ∀ service ∈ announcedServices, output.implementing service = [] →
    tree'.text? (tree.placeOf (ManifestCall.manifestPath resources service)) =
      tree.text? (tree.placeOf (ManifestCall.manifestPath resources service))
  /-- besides manifests only the arguments of the native image are written -/
  others : ∀ place,
    (∀ service ∈ announcedServices, output.implementing service ≠ [] →
      tree.placeOf (ManifestCall.manifestPath resources service) ≠ place) →
    (NativeImage.module.id ∈ output.executedModules →
      tree.placeOf (Files.Path.join resources (NativeImage.argumentsPath output.space)) ≠ place) →
    tree'.text? place = tree.text? place
  refers : ∀ u ∈ output.units, Context.IsLinkName u.name → u.RefersWithin output.units

theorem Completes.others {space : String} {profile : Profile} {modules : List Module} {c : Context}
    (h : Completes input resources tree tree' output space profile modules c) {place : Files.Place}
    (hmanifests : ∀ service ∈ announcedServices, output.implementing service ≠ [] →
      tree.placeOf (ManifestCall.manifestPath resources service) ≠ place)
    (harguments : NativeImage.module.id ∈ output.executedModules →
      tree.placeOf (Files.Path.join resources (NativeImage.argumentsPath output.space)) ≠ place) :
    tree'.text? place = tree.text? place := by
  refine PendingWrite.text?_runAll_elsewhere h.writes fun w hw => ?_
  rcases h.placeOf_target hw with ⟨service, hservice, hunits, htarget⟩ | ⟨hexecuted, htarget⟩
  · rw [htarget]
    exact hmanifests service hservice hunits
  · rw [htarget]
    exact harguments hexecuted

end Registry

end BuildAhead
