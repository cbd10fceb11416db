import BuildAhead.Optimizations.ServiceLoading
import BuildAhead.Proofs.Generation.Units
import BuildAhead.Proofs.Services.Discovery
import BuildAhead.Proofs.Services.Rendering
import BuildAhead.Proofs.Services.Rescheduling
import BuildAhead.Proofs.Services.Substitutes

set_option autoImplicit false

/-!
# Optimizations: what the generated service loading does

The modules of the two profiles end alike: what they leave behind differs in the code of the tables
alone, and in the order of messages about candidates that were checked side by side, where the runs
are not scheduled alike. In both, running the generated loader makes a map with an instance of a
table for each configured service, and a table, when it is first used, enters the providers that the
discovery found.
-/

namespace BuildAhead.ServiceLoading

open Code Code.Exec

/-! ## The discovery -/

theorem byOperations_generateUnits (resources : List String) :
    (PropertySources.generateUnits resources).ByOperations := by
  induction resources with
  | nil => exact .pure ()
  | cons resource rest ih =>
    unfold PropertySources.generateUnits
    refine Generation.ByOperations.look.bind fun c => ?_
    split
    · exact ih
    · have horder : ∀ order : Except BuildError Int,
          (PropertySources.generateUnits.liftExcept order).ByOperations := by
        intro order
        cases order with
        | ok n => exact .pure n
        | error e => exact .fail e
      exact (horder _).bind fun _ => (Generation.ByOperations.registerUnit _).bind fun _ =>
        (Generation.ByOperations.excludeResource _).bind fun _ => ih

theorem byOperations_structuredConfig {c : Context} {settings : DiscoverySettings}
    {s : Substitution} (hs : structuredConfig? c settings = some s) : s.generate.ByOperations := by
  unfold structuredConfig? at hs
  split at hs
  · cases hs
    exact byOperations_generateUnits _
  · cases hs

/-- The discovery of the module acts through the operations of the context. -/
theorem byOperations_discoveryOf (c : Context) (settings : DiscoverySettings) :
    (discoveryOf c settings).ByOperations := by
  intro name s hs
  unfold discoveryOf at hs
  cases hconfig : structuredConfig? c settings with
  | none =>
    rw [hconfig] at hs
    cases hs
  | some substitution =>
    simp only [hconfig, Discovery.register, Dict.get?_insert] at hs
    split at hs
    · cases hs
      exact byOperations_structuredConfig hconfig
    · cases hs

theorem runAlike_generateUnits (resources : List String) :
    Generation.RunAlike Discovery.rescheduled (PropertySources.generateUnits resources)
      (PropertySources.generateUnits resources) := by
  induction resources with
  | nil => exact .pure ()
  | cons resource rest ih =>
    unfold PropertySources.generateUnits
    refine .look fun c d hcd => ?_
    rw [hcd.analyzer, hcd.settings, hcd.space]
    split
    · exact ih
    · have horder : ∀ order : Except BuildError Int, Generation.RunAlike Discovery.rescheduled
          (PropertySources.generateUnits.liftExcept order)
          (PropertySources.generateUnits.liftExcept order) := by
        intro order
        cases order with
        | ok n => exact .pure n
        | error e => exact .fail e
      exact (horder _).bind fun _ => (Generation.RunAlike.registerUnit rfl rfl).bind fun _ =>
        (Generation.RunAlike.excludeResource _).bind fun _ => ih

/-- The discovery of the module ends alike, however it is scheduled. -/
theorem substitutesAlike_discoveryOf (c : Context) (settings : DiscoverySettings) :
    (discoveryOf c settings).SubstitutesAlike := by
  intro name s hs
  unfold discoveryOf structuredConfig? at hs
  split_ifs at hs
  · simp only [Discovery.register, Dict.get?_insert] at hs
    split at hs
    · cases hs
      exact runAlike_generateUnits _
    · cases hs
  · cases hs

theorem settings_discoveryOf (c : Context) (settings : DiscoverySettings) :
    (discoveryOf c settings).settings = settings := by
  unfold discoveryOf
  cases structuredConfig? c settings with
  | none => rfl
  | some substitution => rfl

theorem lists_ofSettings {s : Settings} {settings : DiscoverySettings}
    (h : DiscoverySettings.ofSettings s = .ok settings) :
    settings.serviceTypes = s.items DiscoverySettings.serviceTypesKey ∧
      settings.rejected = .ofList (s.items DiscoverySettings.rejectedKey) ∧
      settings.possibleEnvironments = s.items DiscoverySettings.possibleEnvironmentsKey := by
  unfold DiscoverySettings.ofSettings at h
  cases hsize : s.int DiscoverySettings.maxUnitSizeKey Code.defaultMaxUnitSize with
  | error e =>
    rw [hsize] at h
    cases h
  | ok size =>
    rw [hsize] at h
    by_cases hpositive : size ≤ 0
    · simp only [bind, Except.bind, hpositive, if_true] at h
      cases h
    · simp only [bind, Except.bind, hpositive, if_false] at h
      cases h
      exact ⟨rfl, rfl, rfl⟩

/-! ## Running the module -/

/-- The services of a result, each with the name of the unit that holds its table. -/
def factoriesOf (result : DiscoveryResult) : List (String × String) :=
  result.specs.map fun t => (t.capability, t.factoryName)

/-- The unit that loads the tables. -/
def loaderOf (space : String) (factories : List (String × String)) : CodeUnit :=
  Generation.loaderUnit space loaderName Runtime.staticServices (loaderBody factories)

/-- What the module does once the discovery has found the tables. -/
def register (profile : Profile) (maxUnitSize : Nat) (result : DiscoveryResult) :
    Generation Unit := do
  Generation.publishSubstitutes result.substitutes
  registerTables profile maxUnitSize result.specs
  let _ ← Generation.registerStaticOptimization loaderName Runtime.staticServices
    (loaderBody (factoriesOf result))

/-- The module reads its settings, makes its discovery, and registers what this has found. -/
theorem runOn_generate (profile : Profile) (c : Context) :
    (generate profile).runOn c =
      match DiscoverySettings.ofSettings c.settings with
      | .error e => (.error e, c)
      | .ok settings =>
        match (discoveryOf c settings).run.runOn c with
        | (.ok result, found) => (register profile settings.maxUnitSize result).runOn found
        | (.error e, found) => (.error e, found) := by
  unfold generate
  rw [Generation.runOn_bind, Generation.runOn_get]
  cases hsettings : DiscoverySettings.ofSettings c.settings with
  | error e =>
    simp only [hsettings, Generation.runOn_bind, Generation.runOn_throw]
  | ok settings =>
    simp only [hsettings, pure_bind]
    rw [Generation.runOn_bind]
    rcases (discoveryOf c settings).run.runOn c with ⟨e | result, found⟩
    · rfl
    · rfl

theorem runAlike_registerTables (log : Diagnostics → Diagnostics → Prop) (maxUnitSize : Nat)
    (ts : List TableSpec) :
    Generation.RunAlike (.code log) (registerTables .jit maxUnitSize ts)
      (registerTables .native maxUnitSize ts) := by
  induction ts with
  | nil => exact .pure ()
  | cons t rest ih =>
    unfold registerTables
    refine .look fun c d hcd => ?_
    rw [hcd.space]
    have hname : (t.render .jit d.space maxUnitSize).SameName
        (t.render .native d.space maxUnitSize) := rfl
    exact (Generation.RunAlike.registerUnit hname hname).bind fun _ => ih

theorem runAlike_register (log : Diagnostics → Diagnostics → Prop) (maxUnitSize : Nat)
    (result : DiscoveryResult) :
    Generation.RunAlike (.code log) (register .jit maxUnitSize result)
      (register .native maxUnitSize result) :=
  (Generation.RunAlike.publishSubstitutes _).bind fun _ =>
    (runAlike_registerTables log maxUnitSize result.specs).bind fun _ =>
      (Generation.RunAlike.registerStaticOptimization (fun _ => rfl) _ _ _).bind fun _ => .pure ()

/-- The tables that were registered. -/
theorem addsUnits_registerTables {profile : Profile} {maxUnitSize : Nat} {ts : List TableSpec}
    {c c' : Context} (hrun : (registerTables profile maxUnitSize ts).runOn c = (.ok (), c')) :
    c.AddsUnits c' (ts.map fun t => t.render profile c.space maxUnitSize) ∧
      c'.space = c.space := by
  induction ts generalizing c with
  | nil =>
    cases hrun
    exact ⟨.none rfl rfl, rfl⟩
  | cons t rest ih =>
    unfold registerTables at hrun
    rw [Generation.runOn_bind, Generation.runOn_get] at hrun
    obtain ⟨n, c₁, hfirst, hrest⟩ := Generation.runOn_bind_eq_ok_iff.1 hrun
    obtain ⟨hadds, hspace⟩ := Generation.addsUnits_registerUnit hfirst
    obtain ⟨haddsRest, hspaceRest⟩ := ih hrest
    rw [hspace] at haddsRest hspaceRest
    exact ⟨hadds.trans haddsRest, hspaceRest⟩

/-- On success the tables and the loader are new among the units, each the only one of its name. -/
theorem addsUnits_register {profile : Profile} {maxUnitSize : Nat} {result : DiscoveryResult}
    {c c' : Context} (hrun : (register profile maxUnitSize result).runOn c = (.ok (), c')) :
    c.AddsUnits c'
      ((result.specs.map fun t => t.render profile c.space maxUnitSize) ++
        [loaderOf c.space (factoriesOf result)]) ∧
      c'.space = c.space := by
  unfold register at hrun
  obtain ⟨_, c₁, hpublish, hrest⟩ := Generation.runOn_bind_eq_ok_iff.1 hrun
  have hpublished : c.AddsUnits c₁ [] ∧ c₁.space = c.space := by
    cases hpublish
    exact ⟨.none rfl rfl, rfl⟩
  obtain ⟨hnone, hspace⟩ := hpublished
  obtain ⟨_, c₂, htables, hrest⟩ := Generation.runOn_bind_eq_ok_iff.1 hrest
  obtain ⟨_, c₃, hloader, hrest⟩ := Generation.runOn_bind_eq_ok_iff.1 hrest
  cases hrest
  obtain ⟨haddsTables, hspaceTables⟩ := addsUnits_registerTables htables
  obtain ⟨haddsLoader, hspaceLoader⟩ := Generation.addsUnits_registerStaticOptimization hloader
  rw [hspace] at haddsTables hspaceTables
  rw [hspaceTables] at haddsLoader hspaceLoader
  exact ⟨hnone.trans (haddsTables.trans haddsLoader), hspaceLoader⟩

/-! ## Running the loader -/

/-- The map that the loader makes, which is its first object. -/
def servicesMap : Value := .object 0 "HashMap" []

/-- The trace of the loader after one more table was entered. -/
def enterFactory (t : Trace) (f : String × String) : Trace where
  objects := t.objects + 1
  events := t.events ++ [.outside servicesMap "put" [.text f.1, .object t.objects f.2 []]]

/-- The trace of the loader after all tables were entered. -/
def enterAll (factories : List (String × String)) : Trace :=
  factories.foldl enterFactory ⟨1, [.own "load" []]⟩

/-- The entries of the loader's map, whose objects have the numbers behind the map's own. -/
def loaderEntries (factories : List (String × String)) : List (String × Value) :=
  (factories.zipIdx 1).map fun f => (f.1.1, .object f.2 f.1.2 [])

theorem run_perform_put {own : String → List Value → Exec Value} (f : String × String)
    (t : Trace) :
    (perform own [("services", servicesMap)]
      (.eval (.callOn (.ident "services") "put" [.text f.1, .construct f.2 []]))).run t =
      some ((none, [("services", servicesMap)]), enterFactory t f) := rfl

/-- The loader makes its map, enters the tables, and wraps the map. -/
theorem run_invoke_load (space : String) (factories : List (String × String)) (depth : Nat) :
    ((loaderOf space factories).invoke (depth + 1) "load" []).run {} =
      some (.object (enterAll factories).objects Runtime.staticServices [servicesMap],
        { enterAll factories with objects := (enterAll factories).objects + 1 }) := by
  have hmethod : (loaderOf space factories).method? "load" =
      some { name := "load", returns := some Runtime.staticServices,
             body := (loaderBody factories).statements } := rfl
  have hmap : ∀ own, (perform own [] (.bind "services" (.construct "HashMap" []))).run
      ⟨0, [.own "load" []]⟩ =
        some ((none, [("services", servicesMap)]), ⟨1, [.own "load" []]⟩) := fun _ => rfl
  have hbody : ∀ own, (performAll own [] (loaderBody factories).statements).run
      ⟨0, [.own "load" []]⟩ =
        some (some (.object (enterAll factories).objects Runtime.staticServices [servicesMap]),
          { enterAll factories with objects := (enterAll factories).objects + 1 }) := by
    intro own
    unfold loaderBody
    rw [List.cons_append, run_performAll_cons (hmap own),
      run_performAll_map fun f _ t => run_perform_put f t]
    rfl
  exact CodeUnit.run_invoke rfl rfl hmethod rfl (hbody _)

theorem callsOn_foldl_enterFactory (factories : List (String × String)) (t : Trace) :
    (factories.foldl enterFactory t).callsOn 0 = t.callsOn 0 ++
      (factories.zipIdx t.objects).map fun f => ("put", [.text f.1.1, .object f.2 f.1.2 []]) := by
  induction factories generalizing t with
  | nil => simp
  | cons f rest ih =>
    have hfirst : (enterFactory t f).callsOn 0 =
        t.callsOn 0 ++ [("put", [.text f.1, .object t.objects f.2 []])] := by
      unfold Trace.callsOn enterFactory
      rw [List.filterMap_append]
      rfl
    rw [List.foldl_cons, ih, hfirst, List.append_assoc]
    rfl

theorem fills_enterAll (factories : List (String × String)) :
    (enterAll factories).Fills 0 (loaderEntries factories) := by
  unfold Trace.Fills enterAll loaderEntries
  rw [callsOn_foldl_enterFactory, List.map_map]
  rfl

theorem keys_loaderEntries (factories : List (String × String)) :
    (loaderEntries factories).map (·.1) = factories.map (·.1) := by
  unfold loaderEntries
  rw [List.map_map]
  conv_rhs => rw [← List.zipIdx_map_fst 1 factories, List.map_map]
  rfl

theorem mem_loaderEntries {factories : List (String × String)} {e : String × Value}
    (he : e ∈ loaderEntries factories) :
    ∃ f ∈ factories, ∃ number, e = (f.1, .object number f.2 []) := by
  obtain ⟨⟨f, number⟩, hmem, rfl⟩ := List.mem_map.1 he
  exact ⟨f, List.fst_mem_of_mem_zipIdx hmem, number, rfl⟩

/-! ## What the generated code loads -/

/-- A unit, the only one of its name, holds the table of a service. When it is first used it enters
these names into its map, in this order, which is ascending. -/
structure HoldsTable (c : Context) (capability : String) (names : List String) (u : CodeUnit) :
    Prop where
  registered : c.unitsNamed (Names.qualify c.space u.name) = [u]
  space : u.space = c.space
  implements : Runtime.serviceTable ++ "<" ++ capability ++ ">" ∈ u.implements
  enters : ∀ depth, ∃ fields trace number entries,
    (u.firstUse (depth + 1)).run {} = some (fields, trace) ∧
      Dict.lookup TableSpec.entriesField fields = some (.object number "LinkedHashMap" []) ∧
      trace.Fills number entries ∧ entries.map (·.1) = names
  ascending : names.Pairwise (· < ·)

/-- A unit, the only one of its name, answers a map with these entries when its method `load` is
called: one for each service, an instance of the unit that holds the table of the service. -/
structure LoadsTables (c : Context) (capabilities : List String)
    (tables : Dict (List ServiceCandidate)) (loader : CodeUnit) (entries : List (String × Value)) :
    Prop where
  registered : c.unitsNamed (Names.qualify c.space loaderName) = [loader]
  loads : ∀ depth, ∃ answer services trace,
    (loader.invoke (depth + 1) "load" []).run {} =
        some (.object answer Runtime.staticServices [.object services "HashMap" []], trace) ∧
      trace.Fills services entries
  once : (entries.map (·.1)).Nodup
  mem_iff : ∀ capability, capability ∈ entries.map (·.1) ↔ capability ∈ capabilities
  holds : ∀ e ∈ entries, ∃ number factory table, e.2 = .object number factory.name [] ∧
    tables.get? e.1 = some table ∧ HoldsTable c e.1 (table.map ServiceCandidate.name) factory

theorem holdsTable_render {c : Context} {profile : Profile} {maxUnitSize : Nat} {t : TableSpec}
    (hregistered : c.unitsNamed (t.render profile c.space maxUnitSize).qualifiedName =
      [t.render profile c.space maxUnitSize])
    (hascending : t.names.Pairwise (· < ·)) :
    HoldsTable c t.capability t.names (t.render profile c.space maxUnitSize) where
  registered := hregistered
  space := rfl
  implements := List.mem_singleton_self _
  enters depth := by
    refine ⟨_, _, 0, _, TableSpec.run_firstUse_render depth, rfl, TableSpec.fills_loadEvents, ?_⟩
    rw [List.map_map]
    rfl
  ascending := hascending

/-- The tables of a result with their names in ascending order are its lists of candidates. -/
theorem mem_specs {result : DiscoveryResult} {t : TableSpec}
    (hascending : ∀ capability cs, result.tables.get? capability = some cs →
      (cs.map ServiceCandidate.name).Pairwise (· < ·))
    (ht : t ∈ result.specs) :
    ∃ cs, result.tables.get? t.capability = some cs ∧ t.names = cs.map ServiceCandidate.name := by
  obtain ⟨⟨capability, cs⟩, hmem, rfl⟩ := List.mem_map.1 ht
  have hget : result.tables.get? capability = some cs := Dict.mem_toList.1 hmem
  refine ⟨cs, hget, ?_⟩
  rw [TableSpec.ofCandidates_of_ascending capability (hascending capability cs hget)]
  unfold TableSpec.names
  rw [List.map_map]
  rfl

theorem capabilities_specs (result : DiscoveryResult) :
    result.specs.map (·.capability) = result.tables.keys := by
  unfold DiscoveryResult.specs
  rw [List.map_map]
  rfl

/-- What was registered for a result loads its tables. -/
theorem loadsTables_of_register {profile : Profile} {maxUnitSize : Nat} {result : DiscoveryResult}
    {capabilities : List String} {c c' : Context} (hc : c.NamesRecorded)
    (hkeys : ∀ capability, (∃ cs, result.tables.get? capability = some cs) ↔
      capability ∈ capabilities)
    (hascending : ∀ capability cs, result.tables.get? capability = some cs →
      (cs.map ServiceCandidate.name).Pairwise (· < ·))
    (hrun : (register profile maxUnitSize result).runOn c = (.ok (), c')) :
    ∃ loader entries, LoadsTables c' capabilities result.tables loader entries := by
  obtain ⟨hadds, hspace⟩ := addsUnits_register hrun
  -- the loader and its tables are looked up in the context that is left, not in the one before
  rw [← hspace] at hadds
  have hentries : (loaderEntries (factoriesOf result)).map (·.1) = result.tables.keys := by
    rw [keys_loaderEntries, factoriesOf, List.map_map, ← capabilities_specs]
    rfl
  refine ⟨loaderOf c'.space (factoriesOf result), loaderEntries (factoriesOf result), ?_⟩
  refine
    { registered := hadds.unitsNamed_eq hc (List.mem_append_right _ (List.mem_singleton_self _))
      loads := ?_
      once := ?_
      mem_iff := ?_
      holds := ?_ }
  · intro depth
    exact ⟨_, 0, _, run_invoke_load _ _ depth, fills_enterAll _⟩
  · rw [hentries]
    exact result.tables.keys_nodup
  · intro capability
    rw [hentries, Dict.mem_keys]
    exact hkeys capability
  · intro e he
    obtain ⟨f, hf, number, rfl⟩ := mem_loaderEntries he
    obtain ⟨t, ht, rfl⟩ := List.mem_map.1 hf
    obtain ⟨cs, hcs, hnames⟩ := mem_specs hascending ht
    have hregistered := hadds.unitsNamed_eq hc (List.mem_append_left _ (List.mem_map_of_mem ht))
    have hnamesAscending : t.names.Pairwise (· < ·) := by
      rw [hnames]
      exact hascending _ _ hcs
    have hholds := holdsTable_render hregistered hnamesAscending
    rw [hnames] at hholds
    exact ⟨number, _, cs, rfl, hcs, hholds⟩

theorem discoveryOf_eq_of_alike {c d : Context} {k : Likeness} (hcd : c.Alike k d)
    (settings : DiscoverySettings) : discoveryOf d settings = discoveryOf c settings := by
  unfold discoveryOf structuredConfig?
  rw [hcd.settings, hcd.analyzer]

theorem exists_discovery_of_alike {c d found : Context} (hcd : c.Alike Discovery.rescheduled d)
    {settings : DiscoverySettings} {result : DiscoveryResult}
    (h : (discoveryOf c settings).run.runOn c = (.ok result, found)) :
    ∃ found', (discoveryOf d settings).run.runOn d = (.ok result, found') := by
  have houtcome := (Discovery.runAlike_run (substitutesAlike_discoveryOf c settings) c d hcd).1
  rw [h] at houtcome
  rw [discoveryOf_eq_of_alike hcd]
  exact ⟨((discoveryOf c settings).run.runOn d).2, Prod.ext houtcome.symm rfl⟩

/-- The modules of both profiles, run on one context, end alike, however each run is scheduled. -/
theorem generate_alike {c d : Context} (hcd : c.Alike Discovery.rescheduled d) :
    ((generate .jit).runOn c).1 = ((generate .native).runOn d).1 ∧
      ((generate .jit).runOn c).2.Alike (.code (Diagnostics.Rescheduled Discovery.category))
        ((generate .native).runOn d).2 := by
  have hcode : ∀ {c d : Context}, c.Alike Discovery.rescheduled d →
      c.Alike (.code (Diagnostics.Rescheduled Discovery.category)) d := fun halike =>
    halike.mono (fun u v huv => congrArg CodeUnit.unitName huv) fun _ _ hlog => hlog
  rw [runOn_generate, runOn_generate, ← hcd.settings]
  cases hsettings : DiscoverySettings.ofSettings c.settings with
  | error e => exact ⟨rfl, hcode hcd⟩
  | ok settings =>
    -- both discoveries are one, so the contexts from which the profiles go on are alike
    obtain ⟨houtcome, halike⟩ :=
      Discovery.runAlike_run (substitutesAlike_discoveryOf c settings) c d hcd
    simp only [discoveryOf_eq_of_alike hcd]
    rcases hfound : (discoveryOf c settings).run.runOn c with ⟨outcome, found⟩
    rcases hfound' : (discoveryOf c settings).run.runOn d with ⟨outcome', found'⟩
    rw [hfound, hfound'] at houtcome halike
    have houtcome : outcome = outcome' := houtcome
    subst houtcome
    cases outcome with
    | error e => exact ⟨rfl, hcode halike⟩
    | ok result => exact runAlike_register _ settings.maxUnitSize result found found' (hcode halike)

/-- Where both runs are scheduled alike, the modules leave the same messages in the same order. -/
theorem diagnostics_generate (c : Context) :
    ((generate .jit).runOn c).2.diagnostics = ((generate .native).runOn c).2.diagnostics := by
  rw [runOn_generate, runOn_generate]
  cases hsettings : DiscoverySettings.ofSettings c.settings with
  | error e => rfl
  | ok settings =>
    rcases hfound : (discoveryOf c settings).run.runOn c with ⟨e | result, found⟩
    · simp only [hfound]
    · have halike : found.Alike (.code Eq) found :=
        .schedule (fun _ => rfl) (fun _ => rfl) found found.schedule
      simp only [hfound]
      exact (runAlike_register Eq settings.maxUnitSize result found found halike).2.log

/-- A module that succeeds has read its settings and made its discovery. -/
theorem discovery_of_generate {profile : Profile} {c c' : Context}
    (hrun : (generate profile).runOn c = (.ok (), c')) :
    ∃ settings result found, DiscoverySettings.ofSettings c.settings = .ok settings ∧
      (discoveryOf c settings).run.runOn c = (.ok result, found) := by
  rw [runOn_generate] at hrun
  cases hsettings : DiscoverySettings.ofSettings c.settings with
  | error e =>
    rw [hsettings] at hrun
    cases hrun
  | ok settings =>
    cases hdiscovery : (discoveryOf c settings).run.runOn c with
    | mk outcome found =>
      cases outcome with
      | error e =>
        simp only [hsettings, hdiscovery] at hrun
        cases hrun
      | ok result => exact ⟨settings, result, found, rfl, hdiscovery⟩

/-- What the module of a profile has generated loads the tables that its discovery found. -/
theorem loadsTables_of_generate {profile : Profile} {c c' : Context} (hc : c.NamesRecorded)
    (hrun : (generate profile).runOn c = (.ok (), c')) {settings : DiscoverySettings}
    (hsettings : DiscoverySettings.ofSettings c.settings = .ok settings)
    {result : DiscoveryResult} {found : Context}
    (hdiscovery : (discoveryOf c settings).run.runOn c = (.ok result, found)) :
    ∃ loader entries, LoadsTables c' (c.settings.items DiscoverySettings.serviceTypesKey)
      result.tables loader entries := by
  rw [runOn_generate, hsettings] at hrun
  simp only [hdiscovery] at hrun
  obtain ⟨outcome, after, calls, hnoted, -, -, -, hends⟩ :=
    (discoveryOf c settings).exists_notedRun c (byOperations_discoveryOf c settings)
  rw [hdiscovery] at hnoted
  cases hnoted
  obtain ⟨calls', progress, -, hsubstituted, -⟩ :=
    Discovery.exists_substituted (byOperations_discoveryOf c settings) hdiscovery
  rcases hends with ⟨result', hresult, hfinds⟩ | ⟨e, he, -⟩
  · cases hresult
    have hkeys := hfinds.has_table
    rw [settings_discoveryOf, (lists_ofSettings hsettings).1] at hkeys
    exact loadsTables_of_register (hsubstituted.addsUnits.namesRecorded hc) hkeys hfinds.ascending
      hrun
  · cases he

end BuildAhead.ServiceLoading
