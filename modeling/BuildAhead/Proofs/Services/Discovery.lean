import BuildAhead.Proofs.Services.Scanning
import BuildAhead.Proofs.Services.Table

set_option autoImplicit false

/-!
# Services: what a discovery finds

A discovery fails only as one of its substitutions does. Otherwise it has a table for each scanned
service, with the candidates that pass every filter, each once and in ascending order. A namespace
that one service's candidate disables takes candidates out of every table, also out of those that
were finished before it was disabled. In which order services and candidates are given, and how
often, plays no part unless it does for the substitutions.
-/

namespace BuildAhead.Discovery

/-- `Discovery.run`, with the calls of substitutions noted. -/
def notedRun (d : Discovery) : Noted SubstitutionCall Context DiscoveryResult := do
  let progress ← d.notedScanAll {} d.settings.serviceTypes
  let (tables, messages) := disable progress.tables.toList progress.disabledScopes.toList
  Noted.lift <| modify fun c =>
    { c with diagnostics := c.diagnostics.addAll category messages }
  return {
    tables := .ofList (tables.map fun t => (t.1, finalTable t.2))
    substitutes := progress.substitutes }

/-- Without its notes, the noted discovery is the discovery. -/
theorem erases_notedRun (d : Discovery) : Noted.Erases d.notedRun d.run :=
  (d.erases_notedScanAll {} _).bind fun _ => (Noted.Erases.lift _).bind fun _ => .pure _

/-! ## The finished tables -/

/-- The tables of a result, from what was gathered: those inside disabled namespaces left out, the
others in order. -/
def finishedTables (progress : Progress) : Dict (List ServiceCandidate) :=
  .ofList ((disable progress.tables.toList progress.disabledScopes.toList).1.map fun t =>
    (t.1, finalTable t.2))

theorem get?_finishedTables {progress : Progress} {capability : String}
    {cs : List ServiceCandidate} :
    (finishedTables progress).get? capability = some cs ↔
      ∃ gathered, progress.tables.get? capability = some gathered ∧
        finalTable (gathered.filter fun e =>
          !withinAny progress.disabledScopes.toList e.name) = cs := by
  unfold finishedTables
  rw [disable_tables, List.map_map]
  have hkeys : ((progress.tables.toList.map ((fun t : String × List ServiceCandidate =>
      (t.1, finalTable t.2)) ∘ fun t => (t.1, t.2.filter fun e =>
        !withinAny progress.disabledScopes.toList e.name))).map (·.1)).Nodup := by
    rw [List.map_map]
    exact progress.tables.keys_nodup
  rw [Dict.get?_ofList hkeys, List.mem_map]
  constructor
  · intro hgiven
    obtain ⟨⟨key, gathered⟩, hmem, heq⟩ := hgiven
    simp only [Function.comp_apply, Prod.mk.injEq] at heq
    obtain ⟨rfl, rfl⟩ := heq
    exact ⟨gathered, Dict.mem_toList.1 hmem, rfl⟩
  · intro hgiven
    obtain ⟨gathered, hget, rfl⟩ := hgiven
    exact ⟨(capability, gathered), Dict.mem_toList.2 hget, rfl⟩

/-- The table of a service has a candidate of this name. -/
structure Listed (d : Discovery) (c : Context) (calls : List SubstitutionCall)
    (capability name : String) : Prop where
  discovered : name ∈ c.application.discover capability
  notRejected : d.settings.rejected.contains name = false
  notReplaced : ¬ Replaced calls name
  usable : ∃ l, c.application.load name = .ok l ∧ l.implementation.isSome = true ∧
    (l.available c.analyzer = true ∨ d.settings.forceInclude.contains name = true)
  notDisabled : ∀ scope,
    d.Disables c.application c.analyzer d.settings.serviceTypes calls scope →
      ∀ rest, name ≠ scope ++ "." ++ rest

/-- What a discovery that succeeded has found, from the calls of substitutions that it made. -/
structure Finds (d : Discovery) (c : Context) (calls : List SubstitutionCall)
    (result : DiscoveryResult) : Prop where
  genuine : ∀ call ∈ calls, d.Genuine call
  succeeded : ∀ call ∈ calls, call.outcome = .ok ()
  once : (calls.map SubstitutionCall.replaces).Nodup
  called_iff : ∀ name, (∃ call ∈ calls, call.replaces = name) ↔
    (∃ s, d.substitutions.get? name = some s) ∧ d.settings.rejected.contains name = false ∧
      ∃ capability ∈ d.settings.serviceTypes, name ∈ c.application.discover capability
  has_table : ∀ capability, (∃ cs, result.tables.get? capability = some cs) ↔
    capability ∈ d.settings.serviceTypes
  ascending : ∀ capability cs, result.tables.get? capability = some cs →
    (cs.map ServiceCandidate.name).Pairwise (· < ·)
  listed_iff : ∀ capability cs, result.tables.get? capability = some cs →
    ∀ name, (∃ e ∈ cs, e.name = name) ↔ d.Listed c calls capability name
  entry : ∀ capability cs, result.tables.get? capability = some cs → ∀ e ∈ cs,
    ∃ l, c.application.load e.name = .ok l ∧ l.implementation = some e.implementation ∧
      e.available = l.available c.analyzer ∧ e.forced = !l.available c.analyzer

section Finished

variable {d : Discovery} {c : Context} {progress : Progress} {calls : List SubstitutionCall}

/-- A finished table has the evaluated candidates that are kept and lie in no disabled
namespace. -/
theorem Gathered.mem_finished
    (h : d.Gathered c.application c.analyzer d.settings.serviceTypes progress calls)
    {capability : String} {cs : List ServiceCandidate}
    (hcs : (finishedTables progress).get? capability = some cs) {e : ServiceCandidate} :
    e ∈ cs ↔ d.Evaluated c.application calls capability e.name ∧
      Keeps d.settings c.application c.analyzer e ∧
      ∀ scope, d.Disables c.application c.analyzer d.settings.serviceTypes calls scope →
        ∀ rest, e.name ≠ scope ++ "." ++ rest := by
  obtain ⟨gathered, hgathered, rfl⟩ := get?_finishedTables.1 hcs
  have hmem := h.mem_table capability gathered hgathered
  rw [mem_finalTable, List.mem_filter, hmem, and_assoc]
  · refine and_congr_right fun _ => and_congr_right fun _ => ?_
    simp only [withinAny, Bool.not_eq_true', List.any_eq_false, h.mem_scopes, isWithin_iff]
    constructor
    · intro hnone scope hscope rest heq
      exact hnone scope hscope ⟨rest, heq⟩
    · rintro hnone scope hscope ⟨rest, heq⟩
      exact hnone scope hscope rest heq
  · intro a ha b hb hname
    have hkeepsA := ((hmem a).1 (List.mem_filter.1 ha).1).2
    have hkeepsB := ((hmem b).1 (List.mem_filter.1 hb).1).2
    exact hkeepsA.unique hkeepsB hname

/-- What was gathered from all services makes the result. -/
theorem Gathered.finds
    (h : d.Gathered c.application c.analyzer d.settings.serviceTypes progress calls)
    (hgenuine : ∀ call ∈ calls, d.Genuine call) (hok : ∀ call ∈ calls, call.outcome = .ok ()) :
    d.Finds c calls ⟨finishedTables progress, progress.substitutes⟩ := by
  refine ⟨hgenuine, hok, h.remembers.once, ?_, ?_, ?_, ?_, ?_⟩
  · intro name
    constructor
    · intro hgiven
      obtain ⟨call, hcall, rfl⟩ := hgiven
      obtain ⟨capability, hcapability, hdiscovered, hkept⟩ := h.called call hcall
      exact ⟨h.remembers.known call hcall, hkept, capability, hcapability, hdiscovered⟩
    · intro hgiven
      obtain ⟨hs, hkept, capability, hcapability, hdiscovered⟩ := hgiven
      exact h.settled capability hcapability name hdiscovered hkept hs
  · intro capability
    rw [← h.has_table]
    constructor
    · intro hgiven
      obtain ⟨cs, hcs⟩ := hgiven
      obtain ⟨gathered, hgathered, -⟩ := get?_finishedTables.1 hcs
      exact ⟨gathered, hgathered⟩
    · intro hgiven
      obtain ⟨gathered, hgathered⟩ := hgiven
      exact ⟨_, get?_finishedTables.2 ⟨gathered, hgathered, rfl⟩⟩
  · intro capability cs hcs
    obtain ⟨gathered, -, rfl⟩ := get?_finishedTables.1 hcs
    exact finalTable_ascending _
  · intro capability cs hcs name
    constructor
    · intro hgiven
      obtain ⟨e, he, rfl⟩ := hgiven
      obtain ⟨hevaluated, ⟨l, hload, hkind, -, -, husable⟩, hdisabled⟩ := (h.mem_finished hcs).1 he
      exact ⟨hevaluated.discovered, hevaluated.notRejected, hevaluated.notReplaced,
        ⟨l, hload, by rw [hkind]; rfl, husable⟩, hdisabled⟩
    · intro hgiven
      obtain ⟨hdiscovered, hkept, hreplaced, ⟨l, hload, hkind, husable⟩, hdisabled⟩ := hgiven
      obtain ⟨kind, hkind⟩ := Option.isSome_iff_exists.1 hkind
      refine ⟨⟨name, kind, l.available c.analyzer, !l.available c.analyzer⟩, ?_, rfl⟩
      exact (h.mem_finished hcs).2
        ⟨⟨hdiscovered, hkept, hreplaced⟩, ⟨l, hload, hkind, rfl, rfl, husable⟩, hdisabled⟩
  · intro capability cs hcs e he
    obtain ⟨-, ⟨l, hload, hkind, havailable, hforced, -⟩, -⟩ := (h.mem_finished hcs).1 he
    exact ⟨l, hload, hkind, havailable, hforced⟩

end Finished

/-! ## The order of services and candidates -/

/-- Two discoveries differ in nothing but the order in which services and their candidates are
given, and in how often. -/
structure SameButOrder (d d' : Discovery) (c c' : Context) : Prop where
  rejected : d'.settings.rejected = d.settings.rejected
  forceInclude : d'.settings.forceInclude = d.settings.forceInclude
  substitutions : d'.substitutions = d.substitutions
  types : c'.application.types = c.application.types
  analyzer : c'.analyzer = c.analyzer
  serviceTypes : ∀ capability, capability ∈ d'.settings.serviceTypes ↔
    capability ∈ d.settings.serviceTypes
  discover : ∀ capability ∈ d.settings.serviceTypes, ∀ name,
    name ∈ c'.application.discover capability ↔ name ∈ c.application.discover capability

/-- Whether a substitution registers any unit does not depend on the context that it finds. -/
def ChoosesAlike (d : Discovery) : Prop :=
  ∀ name s, d.substitutions.get? name = some s → ∀ c₁ c₂ left₁ left₂ : Context,
    s.generate.runOn c₁ = (.ok (), left₁) → s.generate.runOn c₂ = (.ok (), left₂) →
      (left₁.units.drop c₁.units.length = [] ↔ left₂.units.drop c₂.units.length = [])

section Order

variable {d d' : Discovery} {c c' : Context} {calls calls' : List SubstitutionCall}
  {result result' : DiscoveryResult}

/-- What is said about the calls for a candidate that was found and not rejected. -/
theorem Finds.replaced_of_same (h : d.Finds c calls result) (h' : d'.Finds c' calls' result')
    (hsame : SameButOrder d d' c c') (halike : d.ChoosesAlike) {capability name : String}
    (hcapability : capability ∈ d.settings.serviceTypes)
    (hdiscovered : name ∈ c.application.discover capability)
    (hkept : d.settings.rejected.contains name = false) (hreplaced : Replaced calls' name) :
    Replaced calls name := by
  obtain ⟨call', hcall', hname', hunits'⟩ := hreplaced
  obtain ⟨s, hs', hrun'⟩ := h'.genuine call' hcall'
  rw [hname', hsame.substitutions] at hs'
  obtain ⟨call, hcall, hname⟩ :=
    (h.called_iff name).2 ⟨⟨s, hs'⟩, hkept, capability, hcapability, hdiscovered⟩
  obtain ⟨t, ht, hrun⟩ := h.genuine call hcall
  rw [hname, hs'] at ht
  cases ht
  rw [h'.succeeded call' hcall'] at hrun'
  rw [h.succeeded call hcall] at hrun
  refine ⟨call, hcall, hname, fun hnone => hunits' ?_⟩
  exact (halike name s hs' call.found call'.found call.left call'.left hrun hrun').1 hnone

theorem SameButOrder.symm (hsame : SameButOrder d d' c c') : SameButOrder d' d c' c where
  rejected := hsame.rejected.symm
  forceInclude := hsame.forceInclude.symm
  substitutions := hsame.substitutions.symm
  types := hsame.types.symm
  analyzer := hsame.analyzer.symm
  serviceTypes capability := (hsame.serviceTypes capability).symm
  discover capability hcapability name :=
    (hsame.discover capability ((hsame.serviceTypes capability).1 hcapability) name).symm

theorem SameButOrder.load (hsame : SameButOrder d d' c c') (name : String) :
    c'.application.load name = c.application.load name := by
  unfold ApplicationModel.load
  rw [hsame.types]

theorem SameButOrder.choosesAlike (hsame : SameButOrder d d' c c') (halike : d.ChoosesAlike) :
    d'.ChoosesAlike := by
  unfold ChoosesAlike
  rw [hsame.substitutions]
  exact halike

/-- The same namespaces are disabled. -/
theorem Finds.disables_of_same (h : d.Finds c calls result) (h' : d'.Finds c' calls' result')
    (hsame : SameButOrder d d' c c') (halike : d.ChoosesAlike) {scope : String}
    (hdisables :
      d.Disables c.application c.analyzer d.settings.serviceTypes calls scope) :
    d'.Disables c'.application c'.analyzer d'.settings.serviceTypes calls' scope := by
  obtain ⟨capability, hcapability, name, ⟨hdiscovered, hkept, hreplaced⟩, l, hload, hunavailable,
    hforced, hscope⟩ := hdisables
  have hcapability' := (hsame.serviceTypes capability).2 hcapability
  have hdiscovered' := (hsame.discover capability hcapability name).2 hdiscovered
  have hkept' : d'.settings.rejected.contains name = false := by rwa [hsame.rejected]
  refine ⟨capability, hcapability', name, ⟨hdiscovered', hkept', fun hreplaced' => hreplaced ?_⟩,
    l, ?_, ?_, ?_, hscope⟩
  · exact h.replaced_of_same h' hsame halike hcapability hdiscovered hkept hreplaced'
  · rwa [hsame.load]
  · rwa [hsame.analyzer]
  · rwa [hsame.forceInclude]

/-- The same names are listed. -/
theorem Finds.listed_of_same (h : d.Finds c calls result) (h' : d'.Finds c' calls' result')
    (hsame : SameButOrder d d' c c') (halike : d.ChoosesAlike) {capability name : String}
    (hcapability : capability ∈ d.settings.serviceTypes)
    (hlisted : d.Listed c calls capability name) : d'.Listed c' calls' capability name := by
  obtain ⟨hdiscovered, hkept, hreplaced, husable, hdisabled⟩ := hlisted
  refine ⟨(hsame.discover capability hcapability name).2 hdiscovered, by rwa [hsame.rejected],
    fun hreplaced' => hreplaced ?_, ?_, fun scope hscope => hdisabled scope ?_⟩
  · exact h.replaced_of_same h' hsame halike hcapability hdiscovered hkept hreplaced'
  · rwa [hsame.load, hsame.analyzer, hsame.forceInclude]
  · exact h'.disables_of_same h hsame.symm (hsame.choosesAlike halike) hscope

/-- Tables are determined by the names that they list. -/
theorem Finds.table_eq (h : d.Finds c calls result) (h' : d'.Finds c' calls' result')
    (hsame : SameButOrder d d' c c') {capability : String} {cs cs' : List ServiceCandidate}
    (hcs : result.tables.get? capability = some cs)
    (hcs' : result'.tables.get? capability = some cs')
    (hlisted : ∀ name, d.Listed c calls capability name ↔ d'.Listed c' calls' capability name) :
    cs' = cs := by
  have hnames : cs'.map ServiceCandidate.name = cs.map ServiceCandidate.name := by
    refine eq_of_ascending_of_mem_iff (h'.ascending capability cs' hcs')
      (h.ascending capability cs hcs) ?_
    intro name
    rw [List.mem_map, List.mem_map, h'.listed_iff capability cs' hcs' name,
      h.listed_iff capability cs hcs name, hlisted]
  have hlength : cs'.length = cs.length := by simpa using congrArg List.length hnames
  refine List.ext_getElem hlength ?_
  intro i hi' hi
  have hname : cs'[i].name = cs[i].name := by
    have hget := List.getElem_of_eq hnames (i := i) (by simpa using hi')
    simpa using hget
  obtain ⟨l', hload', hkind', havailable', hforced'⟩ :=
    h'.entry capability cs' hcs' cs'[i] (List.getElem_mem hi')
  obtain ⟨l, hload, hkind, havailable, hforced⟩ :=
    h.entry capability cs hcs cs[i] (List.getElem_mem hi)
  rw [hsame.load, hname, hload] at hload'
  cases hload'
  rw [hkind] at hkind'
  rw [hsame.analyzer, ← havailable] at havailable'
  rw [hsame.analyzer, ← hforced] at hforced'
  generalize cs'[i] = a at hname hkind' havailable' hforced'
  generalize cs[i] = b at hname hkind' havailable' hforced'
  obtain ⟨nameA, kindA, availableA, forcedA⟩ := a
  obtain ⟨nameB, kindB, availableB, forcedB⟩ := b
  cases hkind'
  cases hname
  cases havailable'
  cases hforced'
  rfl

/-- Discoveries that differ in order alone find the same tables. -/
theorem Finds.tables_eq (h : d.Finds c calls result) (h' : d'.Finds c' calls' result')
    (hsame : SameButOrder d d' c c') (halike : d.ChoosesAlike) :
    result'.tables = result.tables := by
  apply Dict.ext_get?
  intro capability
  have htable : (∃ cs, result'.tables.get? capability = some cs) ↔
      ∃ cs, result.tables.get? capability = some cs := by
    rw [h.has_table, h'.has_table, hsame.serviceTypes]
  cases hcs : result.tables.get? capability with
  | none =>
    cases hcs' : result'.tables.get? capability with
    | none => rfl
    | some cs' =>
      obtain ⟨cs, hcs''⟩ := htable.1 ⟨cs', hcs'⟩
      rw [hcs] at hcs''
      cases hcs''
  | some cs =>
    obtain ⟨cs', hcs'⟩ := htable.2 ⟨cs, hcs⟩
    have hcapability := (h.has_table capability).1 ⟨cs, hcs⟩
    have hcapability' := (h'.has_table capability).1 ⟨cs', hcs'⟩
    rw [hcs', h.table_eq h' hsame hcs hcs']
    intro name
    exact ⟨h.listed_of_same h' hsame halike hcapability,
      h'.listed_of_same h hsame.symm (hsame.choosesAlike halike) hcapability'⟩

end Order

/-! ## The whole discovery -/

theorem yields_notedRun {d : Discovery} (hops : d.ByOperations) (c : Context) :
    d.Yields d.notedRun c [] fun result _ calls =>
      ∃ progress, d.Gathered c.application c.analyzer d.settings.serviceTypes progress calls ∧
        result = ⟨finishedTables progress, progress.substitutes⟩ := by
  refine (yields_notedScanAll hops gathered_nil d.settings.serviceTypes).bind ?_
  rintro progress after calls - - hgathered
  rw [List.nil_append] at hgathered
  have hmessages : ∀ messages : List String, d.Yields (Noted.lift (modify fun c : Context =>
      { c with diagnostics := c.diagnostics.addAll category messages })) after calls
        fun _ _ calls' => calls' = calls :=
    fun messages => yields_lift (Generation.runOn_modify _ after) (grows_addAll _ _ _) rfl
  refine (hmessages _).bind ?_
  rintro ⟨⟩ after' calls' - - rfl
  exact yields_pure ⟨progress, hgathered, rfl⟩

/-- What is so of a discovery with its calls noted is so of the discovery. -/
theorem exists_run_of_yields {d : Discovery} {c : Context}
    {post : DiscoveryResult → Context → List SubstitutionCall → Prop}
    (h : d.Yields d.notedRun c [] post) :
    ∃ outcome after calls,
      d.run.runOn c = (outcome, after) ∧ d.notedRun.run.run (c, []) = (outcome, after, calls) ∧
      c.Grows after ∧ (∀ call ∈ calls, d.Genuine call) ∧
      ((∃ result, outcome = .ok result ∧ (∀ call ∈ calls, call.outcome = .ok ()) ∧
          post result after calls) ∨
        ∃ e, outcome = .error e ∧ ∃ call ∈ calls, call.outcome = .error e) := by
  obtain ⟨outcome, after, calls, hrun, hgrows, hgenuine, hends⟩ := h
  rw [List.nil_append] at hrun hends
  have herases := d.erases_notedRun c []
  rw [hrun] at herases
  exact ⟨outcome, after, calls, herases.symm, hrun, hgrows, hgenuine, hends⟩

/-- How a discovery ends, from the calls of substitutions that it made. -/
theorem exists_notedRun (d : Discovery) (c : Context) (hops : d.ByOperations) :
    ∃ outcome after calls,
      d.run.runOn c = (outcome, after) ∧ d.notedRun.run.run (c, []) = (outcome, after, calls) ∧
      c.Grows after ∧ (∀ call ∈ calls, d.Genuine call) ∧
      ((∃ result, outcome = .ok result ∧ d.Finds c calls result) ∨
        ∃ e, outcome = .error e ∧ ∃ call ∈ calls, call.outcome = .error e) := by
  obtain ⟨outcome, after, calls, hrun, hnoted, hgrows, hgenuine, hends⟩ :=
    exists_run_of_yields (yields_notedRun hops c)
  refine ⟨outcome, after, calls, hrun, hnoted, hgrows, hgenuine, ?_⟩
  rcases hends with ⟨result, rfl, hok, progress, hgathered, rfl⟩ | hfailed
  · exact .inl ⟨_, rfl, hgathered.finds hgenuine hok⟩
  · exact .inr hfailed

/-- How a discovery ends that made these calls of substitutions. -/
structure EndsAs (d : Discovery) (c : Context) (outcome : Except BuildError DiscoveryResult)
    (calls : List SubstitutionCall) : Prop where
  /-- a discovery whose calls all succeed has a result -/
  returns : (∀ call ∈ calls, call.outcome = .ok ()) → ∃ result, outcome = .ok result
  /-- an error is that of a call -/
  fails : ∀ e, outcome = .error e → ∃ call ∈ calls, d.Genuine call ∧ call.outcome = .error e
  finds : ∀ result, outcome = .ok result → d.Finds c calls result
  /-- unless a substitution chooses by what it finds, the order of the input plays no part -/
  orderless : d.ChoosesAlike → ∀ d' c', SameButOrder d d' c c' → ∀ result result',
    outcome = .ok result → (d'.run.runOn c').1 = .ok result' → result'.tables = result.tables

/-- A discovery whose substitutions act through the operations of the context fails only when a call
of a substitution does. When none fails it finds, for each configured service, the candidates that
pass every filter. -/
theorem run_endsAs (d : Discovery) (c : Context) (hops : d.ByOperations) :
    ∃ outcome after calls,
      d.run.runOn c = (outcome, after) ∧ d.notedRun.run.run (c, []) = (outcome, after, calls) ∧
      d.EndsAs c outcome calls := by
  obtain ⟨outcome, after, calls, hrun, hnoted, -, hgenuine, hends⟩ := d.exists_notedRun c hops
  have hfinds : ∀ result, outcome = .ok result → d.Finds c calls result := by
    rintro result rfl
    rcases hends with ⟨found, hfound, hfinds⟩ | ⟨e, he, -⟩
    · cases hfound
      exact hfinds
    · cases he
  refine ⟨outcome, after, calls, hrun, hnoted, ?_, ?_, hfinds, ?_⟩
  · intro hok
    rcases hends with ⟨result, hresult, -⟩ | ⟨e, -, call, hcall, hfailed⟩
    · exact ⟨result, hresult⟩
    · rw [hok call hcall] at hfailed
      cases hfailed
  · rintro e rfl
    rcases hends with ⟨result, hresult, -⟩ | ⟨e', he', call, hcall, hfailed⟩
    · cases hresult
    · cases he'
      exact ⟨call, hcall, hgenuine call hcall, hfailed⟩
  · intro halike d' c' hsame result result' hresult hresult'
    have hops' : d'.ByOperations := by
      unfold ByOperations
      rw [hsame.substitutions]
      exact hops
    obtain ⟨outcome', after', calls', hrun', -, -, -, hends'⟩ := d'.exists_notedRun c' hops'
    rw [hrun'] at hresult'
    rcases hends' with ⟨found, hfound, hfinds'⟩ | ⟨e, he, -⟩
    · have heq : found = result' := Except.ok.inj (hfound.symm.trans hresult')
      subst heq
      exact (hfinds result hresult).tables_eq hfinds' hsame halike
    · rw [he] at hresult'
      cases hresult'

/-- A service with a repeated, a rejected, an unavailable and a replaced candidate. -/
theorem run_endsAs_greeters :
    let d : Discovery :=
      { settings := { serviceTypes := ["Greeter"], rejected := .ofList ["a"] }
        substitutions := .ofList
          [("d", ⟨"d", do let _ ← Generation.registerUnit { space := "gen", name := "D" }⟩)] }
    let plain : TypeDescriptor := { factoryMethod := true }
    let c : Context :=
      { space := "gen", profile := .jit, settings := {}, analyzer := ⟨{}, requirementsMet⟩
        application :=
          { services := .ofList [("Greeter", ["b", "a", "a", "c", "d", "b"])]
            types := .ofList
              [("a", plain), ("b", plain), ("d", plain),
                ("c", { plain with requirements := some { env := ["test"] } })] } }
    d.ByOperations ∧ ∃ outcome after calls,
      (d.run.runOn c = (outcome, after) ∧
        d.notedRun.run.run (c, []) = (outcome, after, calls) ∧ d.EndsAs c outcome calls) ∧
      outcome.toOption.map (·.names "Greeter") = some ["b"] := by
  intro d plain c
  have hops : d.ByOperations := by
    intro name s hs
    have hmem := (Dict.get?_ofList (by decide)).1 hs
    rw [List.mem_singleton, Prod.mk.injEq] at hmem
    rw [hmem.2]
    exact (Generation.ByOperations.registerUnit _).bind fun _ => .pure _
  refine ⟨hops, ?_⟩
  obtain ⟨outcome, after, calls, hrun, hnoted, hends⟩ := run_endsAs d c hops
  refine ⟨outcome, after, calls, ⟨hrun, hnoted, hends⟩, ?_⟩
  have hnames : (d.run.runOn c).1.toOption.map (·.names "Greeter") = some ["b"] := by
    decide +kernel
  rw [hrun] at hnames
  exact hnames

end BuildAhead.Discovery
