import BuildAhead.Proofs.Services.Discovery

set_option autoImplicit false

/-!
# Services: why a candidate is left out

A discovery says of every candidate that was found for a service, and is neither in its table nor
replaced, why this is so. A candidate can be left out in three places: it is rejected before
anything else is done with it, it is evaluated and not kept, or it is kept and then taken out with a
disabled namespace. Each of them leaves its message, and no message is ever taken back.
-/

namespace BuildAhead

/-- A discovery has left this message. -/
def Context.Told (c : Context) (message : String) : Prop :=
  message ∈ c.diagnostics.messages Discovery.category

theorem Context.Told.mono {c after : Context} {message : String} (h : c.Told message)
    (hgrows : c.Grows after) : after.Told message :=
  (hgrows.diagnostics Discovery.category).subset h

namespace Discovery

/-! ## The messages of an evaluation -/

/-- Why a candidate that was evaluated is not kept, with the message that says so. -/
inductive Unkept (settings : DiscoverySettings) (model : ApplicationModel) (analyzer : Analyzer)
    (capability name : String) : String → Prop where
  /-- it cannot be loaded -/
  | unloadable (e : LoadError) :
      model.load name = .error e →
      Unkept settings model analyzer capability name
        (AvailabilityCheck.missingDependencyMessage capability name e.message)
  /-- its requirements cannot be evaluated -/
  | unprobed (l : LoadedCandidate) (e : ProbeError) :
      model.load name = .ok l → l.probe = some (.error e) →
      settings.forceInclude.contains name = false →
      Unkept settings model analyzer capability name
        (AvailabilityCheck.missingDependencyMessage capability name e.reason)
  /-- its requirements are not met -/
  | unmet (l : LoadedCandidate) (probe : Probe) :
      model.load name = .ok l → l.probe = some (.ok probe) →
      analyzer.isAvailable probe = false → settings.forceInclude.contains name = false →
      Unkept settings model analyzer capability name (unavailableMessage name)
  /-- there is no way to make it -/
  | unmakeable (l : LoadedCandidate) :
      model.load name = .ok l → l.implementation = none →
      (l.available analyzer = true ∨ settings.forceInclude.contains name = true) →
      Unkept settings model analyzer capability name (noProviderMessage name)

section Evaluating

variable {settings : DiscoverySettings} {model : ApplicationModel} {analyzer : Analyzer}
  {capability name : String}

/-- The messages about a loaded candidate: those of its check, then those of its verdict. -/
theorem evaluate_messages_of_load {l : LoadedCandidate} (hload : model.load name = .ok l) :
    (evaluate settings model analyzer capability name).2 =
      ((AvailabilityCheck.ofCandidate l).run l capability analyzer).2 ++
        (classify settings l (l.available analyzer)).2 := by
  unfold evaluate
  rw [hload, ← AvailabilityCheck.run_ofCandidate l capability analyzer]

/-- What is said of a candidate that can be used but not made. -/
theorem mem_classify_of_unmakeable {l : LoadedCandidate} {available : Bool}
    (hmake : l.implementation = none)
    (husable : available = true ∨ settings.forceInclude.contains l.name = true) :
    noProviderMessage l.name ∈ (classify settings l available).2 := by
  unfold classify
  rw [hmake]
  rcases husable with rfl | hforced
  · simp
  · cases available
    · simp [hforced]
    · simp

/-- What is said of a candidate that is included by force. -/
theorem mem_classify_of_forced {l : LoadedCandidate}
    (hforced : settings.forceInclude.contains l.name = true) :
    forcedMessage l.name ∈ (classify settings l false).2 := by
  unfold classify
  cases l.implementation with
  | none => simp [hforced]
  | some kind => simp [hforced]

/-- What is said of a candidate that cannot be used. -/
theorem mem_classify_of_unavailable {l : LoadedCandidate}
    (hforced : settings.forceInclude.contains l.name = false) :
    unavailableMessage l.name ∈ (classify settings l false).2 := by
  unfold classify
  simp [hforced]

/-- A loaded candidate that cannot be used has requirements that cannot be evaluated or are not
met. -/
theorem unkept_of_unavailable {l : LoadedCandidate} (hload : model.load name = .ok l)
    (hunavailable : l.available analyzer = false)
    (hforced : settings.forceInclude.contains name = false) :
    ∃ message, Unkept settings model analyzer capability name message ∧
      message ∈ (evaluate settings model analyzer capability name).2 := by
  have hname := ApplicationModel.load_name hload
  rw [evaluate_messages_of_load hload, hunavailable]
  have hprobed := hunavailable
  unfold LoadedCandidate.available at hprobed
  rcases hprobe : l.probe with _ | e | probe
  · rw [hprobe] at hprobed
    cases hprobed
  · refine ⟨_, .unprobed l e hload hprobe hforced, List.mem_append_left _ ?_⟩
    simp [AvailabilityCheck.ofCandidate, AvailabilityCheck.run, hprobe, hname]
  · rw [hprobe] at hprobed
    refine ⟨_, .unmet l probe hload hprobe hprobed hforced, List.mem_append_right _ ?_⟩
    rw [← hname] at hforced ⊢
    exact mem_classify_of_unavailable hforced

/-- A candidate is kept, or a message says why it is not. -/
theorem keeps_or_unkept (settings : DiscoverySettings) (model : ApplicationModel)
    (analyzer : Analyzer) (capability name : String) :
    (∃ e : ServiceCandidate, e.name = name ∧ Keeps settings model analyzer e) ∨
      ∃ message, Unkept settings model analyzer capability name message ∧
        message ∈ (evaluate settings model analyzer capability name).2 := by
  cases hload : model.load name with
  | error e =>
    refine .inr ⟨_, .unloadable e hload, ?_⟩
    unfold evaluate
    rw [hload]
    exact List.mem_singleton_self _
  | ok l =>
    by_cases husable :
        l.available analyzer = true ∨ settings.forceInclude.contains name = true
    · cases hmake : l.implementation with
      | some kind =>
        exact .inl ⟨⟨name, kind, l.available analyzer, !l.available analyzer⟩, rfl,
          l, hload, hmake, rfl, rfl, husable⟩
      | none =>
        refine .inr ⟨_, .unmakeable l hload hmake husable, ?_⟩
        rw [evaluate_messages_of_load hload]
        refine List.mem_append_right _ ?_
        rw [← ApplicationModel.load_name hload] at husable ⊢
        exact mem_classify_of_unmakeable hmake husable
    · rw [not_or, Bool.not_eq_true, Bool.not_eq_true] at husable
      exact .inr (unkept_of_unavailable hload husable.1 husable.2)

/-- A candidate that was kept by force has the message that says so. -/
theorem forced_message {e : ServiceCandidate} (hkeeps : Keeps settings model analyzer e)
    (hforced : e.forced = true) :
    forcedMessage e.name ∈ (evaluate settings model analyzer capability e.name).2 := by
  obtain ⟨l, hload, -, -, hflag, husable⟩ := hkeeps
  have hunavailable : l.available analyzer = false := by
    rw [hforced] at hflag
    simpa using hflag.symm
  have hincluded : settings.forceInclude.contains e.name = true := by
    rcases husable with havailable | hincluded
    · rw [hunavailable] at havailable
      cases havailable
    · exact hincluded
  rw [evaluate_messages_of_load hload, hunavailable]
  refine List.mem_append_right _ ?_
  rw [← ApplicationModel.load_name hload] at hincluded ⊢
  exact mem_classify_of_forced hincluded

end Evaluating

/-! ## The messages of the scan -/

/-- What a discovery has said about the candidates of the services that it has scanned. -/
structure Explained (d : Discovery) (model : ApplicationModel) (analyzer : Analyzer)
    (scanned : List String) (calls : List SubstitutionCall) (c : Context) : Prop where
  rejected : ∀ capability ∈ scanned, ∀ name ∈ model.discover capability,
    d.settings.rejected.contains name = true → c.Told (rejectedMessage name)
  evaluated : ∀ capability ∈ scanned, ∀ name, d.Evaluated model calls capability name →
    ∀ message ∈ (evaluate d.settings model analyzer capability name).2, c.Told message

section Scanning

variable {d : Discovery} {c : Context} {scanned : List String} {progress : Progress}
  {calls : List SubstitutionCall}

/-- Going through the names found for a service leaves a message about each that is rejected. -/
theorem GoesThrough.told {capability : String} {seen names : List String} {after : Context}
    {calls' : List SubstitutionCall} {result : List String × Progress}
    (h : d.GoesThrough capability progress seen names c calls result after calls') :
    ∀ n ∈ names, d.settings.rejected.contains n = true → after.Told (rejectedMessage n) := by
  have hskip : ∀ {name : String} {rest : List String} {after : Context},
      d.settings.rejected.contains name = false →
      (∀ n ∈ rest, d.settings.rejected.contains n = true → after.Told (rejectedMessage n)) →
      ∀ n ∈ name :: rest, d.settings.rejected.contains n = true →
        after.Told (rejectedMessage n) := by
    intro name rest after hkept hrest n hn hrejected
    rcases List.mem_cons.1 hn with rfl | hn
    · rw [hkept] at hrejected
      cases hrejected
    · exact hrest n hn hrejected
  induction h with
  | done _ =>
    intro n hn
    cases hn
  | rejected _ htold hgrows _ ih =>
    cases htold
    intro n hn hrejected
    rcases List.mem_cons.1 hn with rfl | hn
    · refine Context.Told.mono ?_ hgrows
      simp [Context.Told, Diagnostics.messages_add]
    · exact ih n hn hrejected
  | repeated hkept _ _ ih | pending hkept _ _ _ _ ih | replaced hkept _ _ _ _ _ ih =>
    exact hskip hkept ih

/-- What was explained stays explained. -/
theorem Explained.mono {model : ApplicationModel} {analyzer : Analyzer} {after : Context}
    (h : d.Explained model analyzer scanned calls c) (hgrows : c.Grows after) :
    d.Explained model analyzer scanned calls after where
  rejected capability hcapability name hname hrejected :=
    (h.rejected capability hcapability name hname hrejected).mono hgrows
  evaluated capability hcapability name hevaluated message hmessage :=
    (h.evaluated capability hcapability name hevaluated message hmessage).mono hgrows

theorem explained_nil : d.Explained c.application c.analyzer [] calls c := by
  refine ⟨?_, ?_⟩
  · intro capability hcapability
    cases hcapability
  · intro capability hcapability
    cases hcapability

/-- The scan of one more service explains its candidates and takes no message back. -/
theorem yields_notedScan_explained (hops : d.ByOperations)
    (h : d.Gathered c.application c.analyzer scanned progress calls)
    (hexplained : d.Explained c.application c.analyzer scanned calls c) (capability : String) :
    d.Yields (d.notedScan capability progress) c calls fun progress' after calls' =>
      d.Gathered c.application c.analyzer (scanned ++ [capability]) progress' calls' ∧
        d.Explained c.application c.analyzer (scanned ++ [capability]) calls' after := by
  refine (yields_notedScan_of_collect fun c₁ _ _ =>
    (yields_notedCollect hops capability h.remembers [] _).imp
      fun _ _ _ _ _ hgoes => And.intro hgoes.collects hgoes.told).imp ?_
  rintro progress' after calls' hgrows - ⟨pending, collected, left, hearlier,
    ⟨hcollects, hrejected⟩, hleft, -, htold, rfl⟩
  have hbefore := hexplained.mono hgrows
  refine ⟨h.enter hearlier hcollects, ?_, ?_⟩
  · intro other hother name hname hcontains
    rcases List.mem_append.1 hother with hother | hother
    · exact hbefore.rejected other hother name hname hcontains
    · rw [List.mem_singleton.1 hother] at hname
      exact (hrejected name hname hcontains).mono hleft
  · intro other hother name hevaluated message hmessage
    rcases List.mem_append.1 hother with hother | hother
    · rw [h.evaluated_iff hcollects.remembers hearlier hother] at hevaluated
      exact hbefore.evaluated other hother name hevaluated message hmessage
    · rw [List.mem_singleton.1 hother] at hevaluated hmessage
      exact htold name ((hcollects.mem_iff_evaluated name).2 hevaluated) message hmessage

theorem yields_notedScanAll_explained (hops : d.ByOperations)
    (h : d.Gathered c.application c.analyzer scanned progress calls)
    (hexplained : d.Explained c.application c.analyzer scanned calls c)
    (capabilities : List String) :
    d.Yields (d.notedScanAll progress capabilities) c calls fun progress' after calls' =>
      d.Gathered c.application c.analyzer (scanned ++ capabilities) progress' calls' ∧
        d.Explained c.application c.analyzer (scanned ++ capabilities) calls' after := by
  induction capabilities generalizing c scanned progress calls with
  | nil =>
    refine yields_pure ?_
    rw [List.append_nil]
    exact ⟨h, hexplained⟩
  | cons capability rest ih =>
    refine (yields_notedScan_explained hops h hexplained capability).bind ?_
    rintro progress' after calls' hgrows - ⟨h', hexplained'⟩
    rw [← hgrows.application, ← hgrows.analyzer] at h' hexplained'
    refine (ih h' hexplained').imp ?_
    rintro progress'' after' calls'' - - h''
    rw [List.append_assoc, List.singleton_append, hgrows.application, hgrows.analyzer] at h''
    exact h''

end Scanning

/-! ## The messages about disabled namespaces -/

/-- A candidate inside some of the scopes is taken out with the first of these that has it inside,
and this is said. -/
theorem exists_disabledMessage {tables : List (String × List ServiceCandidate)}
    {scopes : List String} {t : String × List ServiceCandidate} {e : ServiceCandidate}
    (ht : t ∈ tables) (he : e ∈ t.2) (hwithin : withinAny scopes e.name = true) :
    ∃ scope ∈ scopes, isWithin scope e.name = true ∧
      disabledMessage e.name scope ∈ (disable tables scopes).2 := by
  induction scopes generalizing tables t with
  | nil => cases hwithin
  | cons scope rest ih =>
    by_cases hfirst : isWithin scope e.name = true
    · refine ⟨scope, List.mem_cons_self, hfirst, List.mem_append_left _ ?_⟩
      refine List.mem_flatMap.2 ⟨t, ht, List.mem_map.2 ⟨e, ?_, rfl⟩⟩
      exact List.mem_filter.2 ⟨he, hfirst⟩
    · have hrest : withinAny rest e.name = true := by
        unfold withinAny at hwithin ⊢
        rw [List.any_cons, Bool.or_eq_true] at hwithin
        exact hwithin.resolve_left hfirst
      have hleft : e ∈ t.2.filter fun c => !isWithin scope c.name :=
        List.mem_filter.2 ⟨he, by simpa using hfirst⟩
      obtain ⟨later, hlater, hlaterWithin, hmessage⟩ :=
        ih (List.mem_map.2 ⟨t, ht, rfl⟩ : _ ∈ withoutScope scope tables) hleft hrest
      exact ⟨later, List.mem_cons_of_mem _ hlater, hlaterWithin, List.mem_append_right _ hmessage⟩

/-! ## The whole discovery -/

/-- Why a candidate found for a service is not in its table, with the message that says so. -/
inductive LeftOut (d : Discovery) (c : Context) (calls : List SubstitutionCall)
    (capability name : String) : String → Prop where
  /-- the configuration rejects it -/
  | rejected :
      d.settings.rejected.contains name = true →
      LeftOut d c calls capability name (rejectedMessage name)
  /-- it was evaluated and not kept -/
  | unkept (message : String) :
      d.Evaluated c.application calls capability name →
      Unkept d.settings c.application c.analyzer capability name message →
      LeftOut d c calls capability name message
  /-- it was kept, and lies in a disabled namespace -/
  | disabled (e : ServiceCandidate) (scope rest : String) :
      e.name = name → d.Evaluated c.application calls capability name →
      Keeps d.settings c.application c.analyzer e →
      d.Disables c.application c.analyzer d.settings.serviceTypes calls scope →
      name = scope ++ "." ++ rest →
      LeftOut d c calls capability name (disabledMessage name scope)

/-- What a discovery that succeeded says in its messages, from the calls of substitutions that it
made. -/
structure Explains (d : Discovery) (c after : Context) (calls : List SubstitutionCall)
    (result : DiscoveryResult) : Prop where
  /-- a candidate that is neither listed nor replaced has its reason -/
  leftOut : ∀ capability ∈ d.settings.serviceTypes,
    ∃ cs, result.tables.get? capability = some cs ∧
      ∀ name ∈ c.application.discover capability, (∀ e ∈ cs, e.name ≠ name) →
        ¬ Replaced calls name →
          ∃ message, d.LeftOut c calls capability name message ∧ after.Told message
  /-- a candidate that is listed by force is named -/
  forced : ∀ capability cs, result.tables.get? capability = some cs →
    ∀ e ∈ cs, e.forced = true → after.Told (forcedMessage e.name)

section Explaining

variable {d : Discovery} {c after : Context} {progress : Progress} {calls : List SubstitutionCall}

/-- Messages about the scan, and then about disabled namespaces, explain what was found. -/
theorem Gathered.explains
    (h : d.Gathered c.application c.analyzer d.settings.serviceTypes progress calls)
    (hexplained : d.Explained c.application c.analyzer d.settings.serviceTypes calls after)
    (hdisabled : ∀ message ∈ (disable progress.tables.toList progress.disabledScopes.toList).2,
      after.Told message) :
    d.Explains c after calls ⟨finishedTables progress, progress.substitutes⟩ := by
  refine ⟨?_, ?_⟩
  · intro capability hcapability
    obtain ⟨gathered, hgathered⟩ := (h.has_table capability).2 hcapability
    have hcs := get?_finishedTables.2 ⟨gathered, hgathered, rfl⟩
    refine ⟨_, hcs, ?_⟩
    intro name hname hunlisted hreplaced
    by_cases hrejected : d.settings.rejected.contains name = true
    · exact ⟨_, .rejected hrejected, hexplained.rejected capability hcapability name hname hrejected⟩
    have hevaluated : d.Evaluated c.application calls capability name :=
      ⟨hname, by simpa using hrejected, hreplaced⟩
    rcases keeps_or_unkept d.settings c.application c.analyzer capability name with
      ⟨e, rfl, hkeeps⟩ | ⟨message, hunkept, hmessage⟩
    · have hmem : e ∈ gathered := (h.mem_table capability gathered hgathered e).2
        ⟨hevaluated, hkeeps⟩
      have hwithin : withinAny progress.disabledScopes.toList e.name = true := by
        by_contra hnot
        refine hunlisted e ((h.mem_finished hcs).2 ⟨hevaluated, hkeeps, ?_⟩) rfl
        intro scope hscope rest hrest
        refine hnot (List.any_eq_true.2 ⟨scope, (h.mem_scopes scope).2 hscope, ?_⟩)
        exact isWithin_iff.2 ⟨rest, hrest⟩
      obtain ⟨scope, hscope, hinside, hmessage⟩ :=
        exists_disabledMessage (Dict.mem_toList.2 hgathered) hmem hwithin
      obtain ⟨rest, hrest⟩ := isWithin_iff.1 hinside
      exact ⟨_, .disabled e scope rest rfl hevaluated hkeeps ((h.mem_scopes scope).1 hscope) hrest,
        hdisabled _ hmessage⟩
    · exact ⟨message, .unkept message hevaluated hunkept,
        hexplained.evaluated capability hcapability name hevaluated message hmessage⟩
  · intro capability cs hcs e he hforced
    obtain ⟨hevaluated, hkeeps, -⟩ := (h.mem_finished hcs).1 he
    have hcapability : capability ∈ d.settings.serviceTypes := by
      obtain ⟨gathered, hgathered, -⟩ := get?_finishedTables.1 hcs
      exact (h.has_table capability).1 ⟨gathered, hgathered⟩
    exact hexplained.evaluated capability hcapability e.name hevaluated _
      (forced_message hkeeps hforced)

end Explaining

theorem yields_notedRun_explained {d : Discovery} (hops : d.ByOperations) (c : Context) :
    d.Yields d.notedRun c [] fun result after calls => d.Explains c after calls result := by
  refine (yields_notedScanAll_explained hops gathered_nil explained_nil
    d.settings.serviceTypes).bind ?_
  rintro progress after calls - - ⟨hgathered, hexplained⟩
  rw [List.nil_append] at hgathered hexplained
  have hmessages : ∀ messages : List String, d.Yields (Noted.lift (modify fun c : Context =>
      { c with diagnostics := c.diagnostics.addAll category messages })) after calls
        fun _ after' calls' => (∀ message ∈ messages, after'.Told message) ∧ calls' = calls := by
    intro messages
    refine yields_lift (Generation.runOn_modify _ after) (grows_addAll _ _ _) ⟨?_, rfl⟩
    intro message hmessage
    unfold Context.Told
    rw [Diagnostics.messages_addAll, if_pos rfl]
    exact List.mem_append_right _ hmessage
  refine (hmessages _).bind ?_
  rintro ⟨⟩ after' calls' hgrows - ⟨htold, rfl⟩
  exact yields_pure (hgathered.explains (hexplained.mono hgrows) htold)

/-- How a discovery ends that made these calls of substitutions, and what it leaves to be read. -/
structure EndsExplained (d : Discovery) (c after : Context)
    (outcome : Except BuildError DiscoveryResult) (calls : List SubstitutionCall) : Prop where
  /-- no candidate makes it fail -/
  returns : (∀ call ∈ calls, call.outcome = .ok ()) → ∃ result, outcome = .ok result
  /-- an error is that of a substitution -/
  fails : ∀ e, outcome = .error e → ∃ call ∈ calls, d.Genuine call ∧ call.outcome = .error e
  /-- no message is taken back, in any category -/
  keeps : ∀ category, c.diagnostics.messages category <+: after.diagnostics.messages category
  explains : ∀ result, outcome = .ok result → d.Explains c after calls result

end Discovery

end BuildAhead
