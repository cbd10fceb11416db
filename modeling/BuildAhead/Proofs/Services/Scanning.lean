import BuildAhead.Proofs.Services.Evaluation
import BuildAhead.Proofs.Services.Replacement

set_option autoImplicit false

/-!
# Services: scanning

What a discovery has gathered after each service: the candidates of every table so far, and the
namespaces that unavailable candidates disable. Both are settled for a service once it was scanned,
since later services call no substitution again that was called for it.
-/

namespace BuildAhead.Discovery

/-! ## A discovery with its calls noted -/

/-- `Discovery.scan`, with the calls noted. -/
def notedScan (d : Discovery) (capability : String) (progress : Progress) :
    Noted SubstitutionCall Context Progress := do
  Noted.lift (Generation.diagnose category (startMessage capability))
  let found := (← Noted.lift get).application.discover capability
  let (pending, progress) ← d.notedCollect capability progress [] found
  let c ← Noted.lift get
  let results := pending.map fun name =>
    evaluate d.settings c.application c.analyzer capability name
  Noted.lift <| modify fun c =>
    { c with diagnostics := c.diagnostics.addInterleaved c.schedule category (results.map (·.2)) }
  return enter capability (results.map (·.1)) progress

/-- `Discovery.scanAll`, with the calls noted. -/
def notedScanAll (d : Discovery) (progress : Progress) :
    List String → Noted SubstitutionCall Context Progress
  | [] => return progress
  | capability :: rest => do
    let progress ← d.notedScan capability progress
    d.notedScanAll progress rest

theorem erases_notedScan (d : Discovery) (capability : String) (progress : Progress) :
    Noted.Erases (d.notedScan capability progress) (d.scan capability progress) :=
  (Noted.Erases.lift _).bind fun _ => (Noted.Erases.lift _).bind fun _ =>
    (d.erases_notedCollect capability progress [] _).bind fun _ =>
      (Noted.Erases.lift _).bind fun _ => (Noted.Erases.lift _).bind fun _ => .pure _

theorem erases_notedScanAll (d : Discovery) (progress : Progress) (capabilities : List String) :
    Noted.Erases (d.notedScanAll progress capabilities) (d.scanAll progress capabilities) := by
  induction capabilities generalizing progress with
  | nil => exact .pure _
  | cons capability rest ih =>
    exact (d.erases_notedScan capability progress).bind fun progress => ih progress

/-! ## What was gathered from the scanned services -/

/-- A candidate found for a service is evaluated: it is neither rejected nor replaced. -/
structure Evaluated (d : Discovery) (model : ApplicationModel) (calls : List SubstitutionCall)
    (capability name : String) : Prop where
  discovered : name ∈ model.discover capability
  notRejected : d.settings.rejected.contains name = false
  notReplaced : ¬ Replaced calls name

/-- Some candidate of the scanned services is unavailable and configures the namespace. -/
def Disables (d : Discovery) (model : ApplicationModel) (analyzer : Analyzer)
    (scanned : List String) (calls : List SubstitutionCall) (scope : String) : Prop :=
  ∃ capability ∈ scanned, ∃ name, d.Evaluated model calls capability name ∧
    Lacks d.settings model analyzer name scope

/-- What a discovery has gathered when it has scanned these services. -/
structure Gathered (d : Discovery) (model : ApplicationModel) (analyzer : Analyzer)
    (scanned : List String) (progress : Progress) (calls : List SubstitutionCall) : Prop where
  remembers : d.Remembers progress.generated calls
  settled : ∀ capability ∈ scanned, ∀ name ∈ model.discover capability,
    d.settings.rejected.contains name = false → d.Settled calls name
  called : ∀ call ∈ calls, ∃ capability ∈ scanned, call.replaces ∈ model.discover capability ∧
    d.settings.rejected.contains call.replaces = false
  has_table : ∀ capability, (∃ cs, progress.tables.get? capability = some cs) ↔
    capability ∈ scanned
  mem_table : ∀ capability cs, progress.tables.get? capability = some cs →
    ∀ e, e ∈ cs ↔ d.Evaluated model calls capability e.name ∧ Keeps d.settings model analyzer e
  mem_scopes : ∀ scope, scope ∈ progress.disabledScopes.toList ↔
    d.Disables model analyzer scanned calls scope

section Gathering

variable {d : Discovery} {model : ApplicationModel} {analyzer : Analyzer} {scanned : List String}
  {progress : Progress} {calls calls' : List SubstitutionCall}

theorem gathered_nil : d.Gathered model analyzer [] {} [] := by
  refine ⟨remembers_nil, by simp, by simp, ?_, ?_, ?_⟩
  · intro capability
    simp
  · intro capability cs hcs
    simp at hcs
  · intro scope
    constructor
    · intro hscope
      cases hscope
    · intro hgiven
      obtain ⟨capability, hcapability, -⟩ := hgiven
      cases hcapability

/-- Later calls change nothing about the services that were scanned. -/
theorem Gathered.evaluated_iff (h : d.Gathered model analyzer scanned progress calls)
    {generated : Dict (List CodeUnit)} (hlater : d.Remembers generated calls')
    (hearlier : calls <+: calls') {capability name : String} (hcapability : capability ∈ scanned) :
    d.Evaluated model calls' capability name ↔ d.Evaluated model calls capability name := by
  constructor
  · intro hgiven
    obtain ⟨hdiscovered, hkept, hreplaced⟩ := hgiven
    have hsettled := h.settled capability hcapability name hdiscovered hkept
    exact ⟨hdiscovered, hkept, fun hbefore =>
      hreplaced ((hlater.replaced_iff hearlier hsettled).2 hbefore)⟩
  · intro hgiven
    obtain ⟨hdiscovered, hkept, hreplaced⟩ := hgiven
    have hsettled := h.settled capability hcapability name hdiscovered hkept
    exact ⟨hdiscovered, hkept, fun hafter =>
      hreplaced ((hlater.replaced_iff hearlier hsettled).1 hafter)⟩

/-- The candidates among outcomes that are kept. -/
theorem mem_kept {outcomes : List Outcome} {e : ServiceCandidate} :
    e ∈ (outcomes.filterMap fun
      | .kept c => some c
      | _ => none) ↔ Outcome.kept e ∈ outcomes := by
  rw [List.mem_filterMap]
  constructor
  · intro hgiven
    obtain ⟨outcome, hmem, hsome⟩ := hgiven
    split at hsome
    · cases hsome
      exact hmem
    · cases hsome
  · intro hmem
    exact ⟨_, hmem, rfl⟩

/-- The namespaces that outcomes disable. -/
theorem mem_unavailable {outcomes : List Outcome} {scope : String} :
    scope ∈ (outcomes.filterMap fun
      | .unavailable scope => scope
      | _ => none) ↔ Outcome.unavailable (some scope) ∈ outcomes := by
  rw [List.mem_filterMap]
  constructor
  · intro hgiven
    obtain ⟨outcome, hmem, hsome⟩ := hgiven
    split at hsome
    · rw [hsome] at hmem
      exact hmem
    · cases hsome
  · intro hmem
    exact ⟨_, hmem, rfl⟩

/-- A table behind which the candidates of a service are entered, once more or for the first time. -/
theorem mem_entered {capability : String} {old : List ServiceCandidate} {pending : List String}
    (hpending : ∀ name, name ∈ pending ↔ d.Evaluated model calls capability name)
    (hold : ∀ e ∈ old, d.Evaluated model calls capability e.name ∧
      Keeps d.settings model analyzer e) {e : ServiceCandidate} :
    e ∈ old ++ (pending.map fun name =>
        (evaluate d.settings model analyzer capability name).1).filterMap (fun
          | .kept c => some c
          | _ => none) ↔
      d.Evaluated model calls capability e.name ∧ Keeps d.settings model analyzer e := by
  rw [List.mem_append, mem_kept, List.mem_map]
  constructor
  · rintro (he | ⟨name, hname, hkept⟩)
    · exact hold e he
    · obtain ⟨rfl, hkeeps⟩ := evaluate_eq_kept_iff.1 hkept
      exact ⟨(hpending e.name).1 hname, hkeeps⟩
  · intro hgiven
    obtain ⟨hevaluated, hkeeps⟩ := hgiven
    exact .inr ⟨e.name, (hpending e.name).2 hevaluated, evaluate_eq_kept_iff.2 ⟨rfl, hkeeps⟩⟩

/-- The names that are left when all names found for a service were gone through are evaluated. -/
theorem Collects.mem_iff_evaluated {capability : String} {pending : List String}
    {progress' : Progress}
    (h : d.Collects calls progress [] (model.discover capability) (pending, progress') calls')
    (name : String) : name ∈ pending ↔ d.Evaluated model calls' capability name := by
  rw [h.mem_iff]
  constructor
  · intro hgiven
    obtain ⟨hdiscovered, -, hkept, hreplaced⟩ := hgiven
    exact ⟨hdiscovered, hkept, hreplaced⟩
  · intro hgiven
    obtain ⟨hdiscovered, hkept, hreplaced⟩ := hgiven
    exact ⟨hdiscovered, by simp, hkept, hreplaced⟩

section Entering

variable (h : d.Gathered model analyzer scanned progress calls) {capability : String}
  {pending : List String} {progress' : Progress} (hearlier : calls <+: calls')
  (hcollects : d.Collects calls progress [] (model.discover capability) (pending, progress') calls')

include h hearlier hcollects

/-- A service that was scanned before has its candidates entered again, which are the same. -/
theorem Gathered.mem_table_enter {other : String} {cs : List ServiceCandidate}
    (hcs : (enter capability
      (pending.map fun name => (evaluate d.settings model analyzer capability name).1)
      progress').tables.get? other = some cs) (e : ServiceCandidate) :
    e ∈ cs ↔ d.Evaluated model calls' other e.name ∧ Keeps d.settings model analyzer e := by
  have htables : progress'.tables = progress.tables := hcollects.tables
  have hbefore : ∀ old, progress.tables.get? other = some old → ∀ name,
      d.Evaluated model calls' other name ↔ d.Evaluated model calls other name :=
    fun old hold name => h.evaluated_iff hcollects.remembers hearlier
      ((h.has_table other).1 ⟨old, hold⟩)
  simp only [Discovery.enter, Dict.get?_alter, htables] at hcs
  split at hcs
  · next heq =>
    subst heq
    rw [← Option.some.inj hcs]
    refine mem_entered hcollects.mem_iff_evaluated ?_
    intro e he
    cases hold : progress.tables.get? other with
    | none =>
      rw [hold] at he
      cases he
    | some old =>
      rw [hold] at he
      obtain ⟨hevaluated, hkeeps⟩ := (h.mem_table other old hold e).1 he
      exact ⟨(hbefore old hold e.name).2 hevaluated, hkeeps⟩
  · rw [h.mem_table other cs hcs e, hbefore cs hcs]

/-- The namespaces of the service come to those of the services before it. -/
theorem Gathered.mem_scopes_enter (scope : String) :
    scope ∈ (enter capability
        (pending.map fun name => (evaluate d.settings model analyzer capability name).1)
        progress').disabledScopes.toList ↔
      d.Disables model analyzer (scanned ++ [capability]) calls' scope := by
  have hscopes : progress'.disabledScopes = progress.disabledScopes := hcollects.disabledScopes
  have hpending : ∀ name, name ∈ pending ↔ d.Evaluated model calls' capability name :=
    hcollects.mem_iff_evaluated
  have hbefore : ∀ other ∈ scanned, ∀ name,
      d.Evaluated model calls' other name ↔ d.Evaluated model calls other name :=
    fun other hother name => h.evaluated_iff hcollects.remembers hearlier hother
  simp only [Discovery.enter, NameSet.mem_foldl_insert, hscopes]
  refine (or_congr (mem_unavailable.trans List.mem_map) (h.mem_scopes scope)).trans ?_
  constructor
  · rintro (⟨name, hname, hlacks⟩ | ⟨other, hother, name, hevaluated, hlacks⟩)
    · exact ⟨capability, by simp, name, (hpending name).1 hname,
        evaluate_eq_unavailable_iff.1 hlacks⟩
    · exact ⟨other, List.mem_append_left _ hother, name,
        (hbefore other hother name).2 hevaluated, hlacks⟩
  · intro hgiven
    obtain ⟨other, hother, name, hevaluated, hlacks⟩ := hgiven
    rcases List.mem_append.1 hother with hother | hother
    · exact .inr ⟨other, hother, name, (hbefore other hother name).1 hevaluated, hlacks⟩
    · rw [List.mem_singleton.1 hother] at hevaluated
      exact .inl ⟨name, (hpending name).2 hevaluated, evaluate_eq_unavailable_iff.2 hlacks⟩

/-- Entering what became of the evaluated candidates of one more service. -/
theorem Gathered.enter :
    d.Gathered model analyzer (scanned ++ [capability])
      (enter capability
        (pending.map fun name => (evaluate d.settings model analyzer capability name).1) progress')
      calls' where
  remembers := hcollects.remembers
  settled other hother name hdiscovered hkept := by
    rcases List.mem_append.1 hother with hother | hother
    · exact (h.settled other hother name hdiscovered hkept).mono hearlier
    · rw [List.mem_singleton.1 hother] at hdiscovered
      exact hcollects.settled name hdiscovered (by simp) hkept
  called call hcall := by
    rcases hcollects.called call hcall with hcall | hcalled
    · obtain ⟨other, hother, hdiscovered⟩ := h.called call hcall
      exact ⟨other, List.mem_append_left _ hother, hdiscovered⟩
    · exact ⟨capability, by simp, hcalled⟩
  has_table other := by
    have htables : progress'.tables = progress.tables := hcollects.tables
    simp only [Discovery.enter, Dict.get?_alter, htables]
    split
    · next heq => simp [heq]
    · next hne => simp [h.has_table, hne]
  mem_table other cs hcs := h.mem_table_enter hearlier hcollects hcs
  mem_scopes := h.mem_scopes_enter hearlier hcollects

end Entering

end Gathering

/-! ## The scan of the services -/

section Scanning

variable {d : Discovery} {c : Context} {scanned : List String} {progress : Progress}
  {calls : List SubstitutionCall}

/-- Messages change nothing that the next steps look at. -/
theorem grows_addAll (c : Context) (category : String) (messages : List String) :
    c.Grows { c with diagnostics := c.diagnostics.addAll category messages } := by
  refine { Context.Grows.refl c with diagnostics := ?_ }
  intro other
  rw [Diagnostics.messages_addAll]
  split
  · exact List.prefix_append _ _
  · exact List.prefix_rfl

/-- Before and after it goes through the names found for a service, a scan leaves messages alone:
behind it those about the candidates that were evaluated. -/
theorem yields_notedScan_of_collect {capability : String}
    {post : List String × Progress → Context → List SubstitutionCall → Prop}
    (hcollect : ∀ c₁ : Context, c.Grows c₁ → c.AddsUnits c₁ [] →
      d.Yields (d.notedCollect capability progress [] (c.application.discover capability)) c₁ calls
        post) :
    d.Yields (d.notedScan capability progress) c calls fun progress' after calls' =>
      ∃ pending collected left, calls <+: calls' ∧ post (pending, collected) left calls' ∧
        left.Grows after ∧ left.AddsUnits after [] ∧
        (∀ name ∈ pending, ∀ message ∈
          (evaluate d.settings c.application c.analyzer capability name).2,
            message ∈ after.diagnostics.messages category) ∧
        progress' = enter capability
          (pending.map fun name => (evaluate d.settings c.application c.analyzer capability name).1)
          collected := by
  have hstart : d.Yields (Noted.lift (Generation.diagnose category (startMessage capability)))
      c calls fun _ after calls' => c.Grows after ∧ c.AddsUnits after [] ∧ calls' = calls :=
    yields_lift (Generation.runOn_diagnose _ _ c) (Generation.Growing.diagnose _ _ c)
      ⟨Generation.Growing.diagnose _ _ c, .none rfl rfl, rfl⟩
  refine hstart.bind ?_
  rintro ⟨⟩ c₁ calls₁ - - ⟨hgrows₁, hadds₁, rfl⟩
  have hlook : ∀ (c : Context) (calls : List SubstitutionCall),
      d.Yields (Noted.lift (get : Generation Context)) c calls fun found after calls' =>
        c = found ∧ c = after ∧ calls = calls' :=
    fun c calls => yields_lift (Generation.runOn_get c) (.refl c) ⟨rfl, rfl, rfl⟩
  refine (hlook c₁ calls₁).bind ?_
  rintro found after calls' - - ⟨rfl, rfl, rfl⟩
  rw [hgrows₁.application]
  refine (hcollect c₁ hgrows₁ hadds₁).bind ?_
  rintro ⟨pending, collected⟩ c₂ calls₂ hgrows₂ hearlier hpost
  refine (hlook c₂ calls₂).bind ?_
  rintro found after calls' - - ⟨rfl, rfl, rfl⟩
  have happlication : c₂.application = c.application :=
    hgrows₂.application.trans hgrows₁.application
  have hanalyzer : c₂.analyzer = c.analyzer := hgrows₂.analyzer.trans hgrows₁.analyzer
  have hmessages : ∀ messages : List (List String), d.Yields (Noted.lift
      (modify fun c : Context =>
        { c with diagnostics := c.diagnostics.addInterleaved c.schedule category messages })) c₂
        calls₂ fun _ after calls' => after = { c₂ with
          diagnostics := c₂.diagnostics.addInterleaved c₂.schedule category messages } ∧
            calls' = calls₂ :=
    fun messages => yields_lift (Generation.runOn_modify _ c₂) (grows_addAll _ _ _) ⟨rfl, rfl⟩
  refine (hmessages _).bind ?_
  rintro ⟨⟩ c₃ calls₃ - - ⟨rfl, rfl⟩
  refine yields_pure ⟨pending, collected, c₂, hearlier, hpost, grows_addAll _ _ _, .none rfl rfl,
    ?_, ?_⟩
  · intro name hname message hmessage
    rw [Diagnostics.mem_messages_addInterleaved, List.map_map]
    refine .inr ⟨rfl, _, List.mem_map_of_mem hname, ?_⟩
    rwa [happlication, hanalyzer]
  · rw [List.map_map, happlication, hanalyzer]
    rfl

theorem yields_notedScan (hops : d.ByOperations)
    (h : d.Gathered c.application c.analyzer scanned progress calls) (capability : String) :
    d.Yields (d.notedScan capability progress) c calls fun progress' _ calls' =>
      d.Gathered c.application c.analyzer (scanned ++ [capability]) progress' calls' := by
  refine (yields_notedScan_of_collect fun c₁ _ _ =>
    (yields_notedCollect hops capability h.remembers [] _).imp
      fun _ _ _ _ _ hgoes => hgoes.collects).imp ?_
  rintro progress' after calls' - - ⟨pending, collected, left, hearlier, hcollects, -, -, -, rfl⟩
  exact h.enter hearlier hcollects

theorem yields_notedScanAll (hops : d.ByOperations)
    (h : d.Gathered c.application c.analyzer scanned progress calls) (capabilities : List String) :
    d.Yields (d.notedScanAll progress capabilities) c calls fun progress' _ calls' =>
      d.Gathered c.application c.analyzer (scanned ++ capabilities) progress' calls' := by
  induction capabilities generalizing c scanned progress calls with
  | nil =>
    refine yields_pure ?_
    rw [List.append_nil]
    exact h
  | cons capability rest ih =>
    refine (yields_notedScan hops h capability).bind ?_
    rintro progress' after calls' hgrows - h'
    rw [← hgrows.application, ← hgrows.analyzer] at h'
    refine (ih h').imp ?_
    rintro progress'' after' calls'' - - h''
    rw [List.append_assoc, List.singleton_append, hgrows.application, hgrows.analyzer] at h''
    exact h''

end Scanning

end BuildAhead.Discovery
