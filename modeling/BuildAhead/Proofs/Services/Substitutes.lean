import BuildAhead.Proofs.Services.Discovery
import Mathlib.Data.List.Flatten
import Mathlib.Data.List.Pairwise

set_option autoImplicit false

/-!
# Services: the substitutes of a discovery

Which units a discovery lists in place of replaced candidates, and under which service. For one
listing of a service these are the units of its replaced candidates, in the order in which the
candidates were found. A substitution that is asked for again answers the units of its one call, so
a service that is listed again gets the same units once more: tables are freed of repetitions at the
end, the substitutes are not.
-/

namespace BuildAhead

namespace Substitutes

/-- The substitutes with units behind those of a capability. Without units nothing changes. -/
def extend (s : Substitutes) (capability : String) (units : List CodeUnit) : Substitutes :=
  if units.isEmpty then s else s.add capability units

theorem get?_add (s : Substitutes) (capability other : String) (units : List CodeUnit) :
    (s.add capability units).entries.get? other =
      if other = capability then some (s.get capability ++ units) else s.entries.get? other := by
  unfold add get
  rw [Dict.get?_alter]

theorem get?_extend (s : Substitutes) (capability other : String) (units : List CodeUnit) :
    (s.extend capability units).entries.get? other =
      if other = capability ∧ units ≠ [] then some (s.get capability ++ units)
      else s.entries.get? other := by
  unfold extend
  cases units with
  | nil => simp
  | cons unit units => simp [get?_add]

theorem get_extend (s : Substitutes) (capability other : String) (units : List CodeUnit) :
    (s.extend capability units).get other =
      s.get other ++ if other = capability then units else [] := by
  unfold get
  rw [get?_extend]
  by_cases hother : other = capability
  · subst hother
    by_cases hunits : units = []
    · simp [hunits]
    · simp [hunits, get]
  · simp [hother]

@[simp] theorem extend_nil (s : Substitutes) (capability : String) : s.extend capability [] = s :=
  rfl

theorem ext_get? {a b : Substitutes}
    (h : ∀ capability, a.entries.get? capability = b.entries.get? capability) : a = b := by
  obtain ⟨a⟩ := a
  obtain ⟨b⟩ := b
  exact congrArg Substitutes.mk (Dict.ext_get? h)

theorem extend_extend (s : Substitutes) (capability : String) (first second : List CodeUnit) :
    (s.extend capability first).extend capability second =
      s.extend capability (first ++ second) := by
  apply ext_get?
  intro other
  by_cases hother : other = capability
  · subst hother
    by_cases hsecond : second = []
    · rw [hsecond, extend_nil, List.append_nil]
    · simp [get?_extend, get_extend, hsecond]
  · simp [get?_extend, hother]

/-- What a capability has after units were put behind those of several, each time the same for one
capability. -/
theorem get_foldl_extend (s : Substitutes) (units : String → List CodeUnit)
    (capabilities : List String) (capability : String) :
    (capabilities.foldl (fun s other => s.extend other (units other)) s).get capability =
      s.get capability ++
        (List.replicate (capabilities.count capability) (units capability)).flatten := by
  induction capabilities generalizing s with
  | nil => simp
  | cons other rest ih =>
    rw [List.foldl_cons, ih, get_extend, List.count_cons]
    by_cases heq : capability = other
    · subst heq
      simp [List.replicate_succ]
    · simp [heq, Ne.symm heq]

/-- No other capability gets an entry, and none without units. -/
theorem get?_foldl_extend_eq_none (s : Substitutes) (units : String → List CodeUnit)
    (capabilities : List String) (capability : String) :
    (capabilities.foldl (fun s other => s.extend other (units other)) s).entries.get? capability =
        none ↔
      s.entries.get? capability = none ∧ (capability ∈ capabilities → units capability = []) := by
  induction capabilities generalizing s with
  | nil => simp
  | cons other rest ih =>
    rw [List.foldl_cons, ih, get?_extend]
    by_cases heq : capability = other
    · subst heq
      by_cases hunits : units capability = []
      · simp [hunits]
      · simp [hunits]
    · simp [heq]

end Substitutes

namespace Discovery

/-! ## The candidates of one service -/

/-- The names that are neither rejected nor seen before, each once, in order. -/
def newNames (d : Discovery) (seen names : List String) : List String :=
  (names.filter fun n => !d.settings.rejected.contains n && !seen.contains n).eraseDups

/-- The candidates that are found for a service and not rejected, each once, in order. -/
def candidates (d : Discovery) (model : ApplicationModel) (capability : String) : List String :=
  ((model.discover capability).filter fun n => !d.settings.rejected.contains n).eraseDups

/-- The candidates of a service that were replaced by units. -/
def replacedNames (d : Discovery) (model : ApplicationModel) (calls : List SubstitutionCall)
    (capability : String) : List String :=
  (d.candidates model capability).filter fun n => !(unitsFor calls n).isEmpty

/-- The units that replace candidates of a service, candidate by candidate. -/
def unitsUnder (d : Discovery) (model : ApplicationModel) (calls : List SubstitutionCall)
    (capability : String) : List CodeUnit :=
  (d.replacedNames model calls capability).flatMap (unitsFor calls)

section Names

variable {d : Discovery} {model : ApplicationModel} {seen names : List String} {name : String}

theorem newNames_nil (capability : String) :
    d.newNames [] (model.discover capability) = d.candidates model capability := by
  unfold newNames candidates
  simp

/-- A name that is rejected or was seen before is passed over. -/
theorem newNames_skip (hskipped : d.settings.rejected.contains name = true ∨ name ∈ seen) :
    d.newNames seen (name :: names) = d.newNames seen names := by
  unfold newNames
  rw [List.filter_cons_of_neg]
  rcases hskipped with hrejected | hseen
  · simp [hrejected]
  · simp [hseen]

/-- A new name counts among those that were seen for the names behind it. -/
theorem newNames_cons (hkept : d.settings.rejected.contains name = false) (hunseen : name ∉ seen) :
    d.newNames seen (name :: names) = name :: d.newNames (name :: seen) names := by
  unfold newNames
  rw [List.filter_cons_of_pos (by simp [hkept, hunseen]), List.eraseDups_cons, List.filter_filter]
  congr 2
  refine List.filter_congr fun n _ => ?_
  by_cases hn : n = name
  · simp [hn]
  · simp [hn]

theorem mem_newNames {n : String} : n ∈ d.newNames seen names ↔
    n ∈ names ∧ d.settings.rejected.contains n = false ∧ n ∉ seen := by
  unfold newNames
  rw [List.mem_eraseDups, List.mem_filter]
  simp

theorem newNames_nodup : (d.newNames seen names).Nodup := by
  induction names generalizing seen with
  | nil => exact List.nodup_nil
  | cons name rest ih =>
    by_cases hskipped : d.settings.rejected.contains name = true ∨ name ∈ seen
    · rw [newNames_skip hskipped]
      exact ih
    · push Not at hskipped
      rw [newNames_cons (by simpa using hskipped.1) hskipped.2, List.nodup_cons, mem_newNames]
      refine ⟨?_, ih⟩
      rintro ⟨-, -, hunseen⟩
      exact hunseen List.mem_cons_self

theorem mem_replacedNames {calls : List SubstitutionCall} {capability : String} :
    name ∈ d.replacedNames model calls capability ↔
      name ∈ d.candidates model capability ∧ Replaced calls name := by
  unfold replacedNames
  rw [List.mem_filter, ← unitsFor_ne_nil, Bool.not_eq_true', List.isEmpty_eq_false_iff]

/-- Candidates that were not replaced contribute nothing. -/
theorem unitsUnder_eq (calls : List SubstitutionCall) (capability : String) :
    d.unitsUnder model calls capability =
      (d.candidates model capability).flatMap (unitsFor calls) := by
  unfold unitsUnder replacedNames
  induction d.candidates model capability with
  | nil => rfl
  | cons name rest ih =>
    rw [List.filter_cons, List.flatMap_cons, ← ih]
    cases hunits : unitsFor calls name with
    | nil => simp
    | cons unit units => simp [hunits]

theorem unitsUnder_ne_nil {calls : List SubstitutionCall} {capability : String} :
    d.unitsUnder model calls capability ≠ [] ↔ d.replacedNames model calls capability ≠ [] := by
  unfold unitsUnder
  rw [Ne, Ne, List.flatMap_eq_nil_iff, not_iff_not]
  constructor
  · intro hnone
    rw [List.eq_nil_iff_forall_not_mem]
    intro name hname
    exact unitsFor_ne_nil.2 (mem_replacedNames.1 hname).2 (hnone name hname)
  · intro hnone name hname
    rw [hnone] at hname
    cases hname

end Names

/-! ## Going through the services -/

section Steps

variable {d : Discovery} {c start : Context} {calls calls' : List SubstitutionCall}
  {progress : Progress} {seen names : List String} {name capability : String}

/-- What going through the names found for a service does to the substitutes. -/
structure Replaces (d : Discovery) (start : Context) (capability : String) (progress : Progress)
    (seen names : List String) (progress' : Progress) (after : Context)
    (calls' : List SubstitutionCall) : Prop where
  remembers : d.Remembers progress'.generated calls'
  settled : ∀ n ∈ d.newNames seen names, d.Settled calls' n
  substitutes : progress'.substitutes =
    progress.substitutes.extend capability ((d.newNames seen names).flatMap (unitsFor calls'))
  addsUnits : start.AddsUnits after (calls'.flatMap SubstitutionCall.units)

theorem Replaces.skip {progress' : Progress} {after : Context}
    (h : d.Replaces start capability progress seen names progress' after calls')
    (hskipped : d.settings.rejected.contains name = true ∨ name ∈ seen) :
    d.Replaces start capability progress seen (name :: names) progress' after calls' := by
  have hsame : d.newNames seen (name :: names) = d.newNames seen names := newNames_skip hskipped
  exact { h with settled := hsame ▸ h.settled, substitutes := hsame ▸ h.substitutes }

/-- The units for a new name come before those for the names behind it. -/
theorem Replaces.cons {c₁ after : Context} {calls₁ : List SubstitutionCall}
    {result : List CodeUnit × Progress} {progress₁ progress' : Progress}
    (h : d.Replaces start capability progress₁ (name :: seen) names progress' after calls')
    (hgives : d.Gives c calls progress name result c₁ calls₁) (hearlier : calls₁ <+: calls')
    (hkept : d.settings.rejected.contains name = false) (hunseen : name ∉ seen)
    (hprogress : progress₁.substitutes = result.2.substitutes.extend capability result.1) :
    d.Replaces start capability progress seen (name :: names) progress' after calls' := by
  have hcons : d.newNames seen (name :: names) = name :: d.newNames (name :: seen) names :=
    newNames_cons hkept hunseen
  have hunits : unitsFor calls' name = result.1 := by
    rw [h.remembers.unitsFor_eq_of_settled hearlier hgives.settled, hgives.units]
  refine { h with settled := ?_, substitutes := ?_ }
  · rw [hcons]
    intro n hn
    rcases List.mem_cons.1 hn with rfl | hn
    · exact hgives.settled.mono hearlier
    · exact h.settled n hn
  · rw [hcons, List.flatMap_cons, hunits, ← Substitutes.extend_extend, h.substitutes, hprogress,
      hgives.substitutes]

theorem GoesThrough.replaces {after : Context} {result : List String × Progress}
    (h : d.GoesThrough capability progress seen names c calls result after calls')
    (hadds : start.AddsUnits c (calls.flatMap SubstitutionCall.units)) :
    d.Replaces start capability progress seen names result.2 after calls' := by
  induction h with
  | done hremembers =>
    refine ⟨hremembers, ?_, rfl, hadds⟩
    intro n hn
    cases hn
  | rejected hrejected htold _ _ ih =>
    cases htold
    refine (ih ?_).skip (.inl hrejected)
    rw [← List.append_nil (List.flatMap _ _)]
    exact hadds.trans (.none rfl rfl)
  | repeated _ hseen _ ih => exact (ih hadds).skip (.inr hseen)
  | pending hkept hunseen hgives hearlier _ ih =>
    exact (ih (hgives.addsUnits start hadds)).cons hgives hearlier hkept hunseen rfl
  | replaced hkept hunseen hgives hne hearlier _ ih =>
    obtain ⟨unit, units, rfl⟩ := List.exists_cons_of_ne_nil hne
    exact (ih (hgives.addsUnits start hadds)).cons hgives hearlier hkept hunseen rfl

/-- What a discovery has listed as substitutes when it has scanned these services. -/
structure Substituted (d : Discovery) (start : Context) (scanned : List String)
    (progress : Progress) (after : Context) (calls : List SubstitutionCall) : Prop where
  remembers : d.Remembers progress.generated calls
  settled : ∀ capability ∈ scanned, ∀ n ∈ d.candidates start.application capability,
    d.Settled calls n
  substitutes : progress.substitutes = scanned.foldl
    (fun s capability => s.extend capability (d.unitsUnder start.application calls capability)) {}
  addsUnits : start.AddsUnits after (calls.flatMap SubstitutionCall.units)

theorem substituted_nil (d : Discovery) (start : Context) :
    d.Substituted start [] {} start [] where
  remembers := remembers_nil
  settled capability hcapability := by cases hcapability
  substitutes := rfl
  addsUnits := .none rfl rfl

/-- One more service is scanned. Later calls leave the units of earlier services as they are. -/
theorem Substituted.snoc {scanned : List String} {progress' : Progress} {left after : Context}
    (h : d.Substituted start scanned progress c calls) (hearlier : calls <+: calls')
    (hreplaces : d.Replaces start capability progress [] (start.application.discover capability)
      progress' left calls') (hnone : left.AddsUnits after []) (pending : List Outcome) :
    d.Substituted start (scanned ++ [capability]) (enter capability pending progress') after
      calls' := by
  have hnames : d.newNames [] (start.application.discover capability) =
      d.candidates start.application capability := newNames_nil capability
  have hbefore : ∀ other ∈ scanned, d.unitsUnder start.application calls' other =
      d.unitsUnder start.application calls other := by
    intro other hother
    rw [unitsUnder_eq, unitsUnder_eq]
    refine List.flatMap_congr fun n hn => ?_
    exact hreplaces.remembers.unitsFor_eq_of_settled hearlier (h.settled other hother n hn)
  refine ⟨hreplaces.remembers, ?_, ?_, ?_⟩
  · intro other hother n hn
    rcases List.mem_append.1 hother with hother | hother
    · exact (h.settled other hother n hn).mono hearlier
    · rw [List.mem_singleton.1 hother, ← hnames] at hn
      exact hreplaces.settled n hn
  · show progress'.substitutes = _
    have hfold := hreplaces.substitutes
    rw [hnames, ← unitsUnder_eq, h.substitutes] at hfold
    rw [hfold, List.foldl_append, List.foldl_cons, List.foldl_nil]
    congr 1
    exact List.foldl_ext _ _ _ fun s other hother => by rw [hbefore other hother]
  · simpa using hreplaces.addsUnits.trans hnone

theorem yields_notedScanAll_substituted (hops : d.ByOperations) {scanned : List String}
    (happlication : c.application = start.application)
    (h : d.Substituted start scanned progress c calls) (capabilities : List String) :
    d.Yields (d.notedScanAll progress capabilities) c calls fun progress' after calls' =>
      d.Substituted start (scanned ++ capabilities) progress' after calls' := by
  induction capabilities generalizing c scanned progress calls with
  | nil =>
    refine yields_pure ?_
    rw [List.append_nil]
    exact h
  | cons capability rest ih =>
    refine (yields_notedScan_of_collect fun c₁ _ hnone =>
      (yields_notedCollect hops capability h.remembers [] _).imp fun _ _ _ _ _ hgoes =>
        hgoes.replaces (by simpa using h.addsUnits.trans hnone)).bind ?_
    rintro progress' after calls' hgrows - ⟨pending, collected, left, hearlier, hreplaces, -, hnone,
      -, rfl⟩
    rw [happlication] at hreplaces
    have h' := h.snoc hearlier hreplaces hnone
      (pending.map fun name => (evaluate d.settings c.application c.analyzer capability name).1)
    refine (ih (hgrows.application.trans happlication) h').imp ?_
    rintro progress'' after' calls'' - - h''
    rwa [List.append_assoc, List.singleton_append] at h''

end Steps

/-! ## The whole discovery -/

/-- What a discovery that succeeded lists in place of replaced candidates, from the calls of
substitutions that it made. -/
structure ReplacesInOrder (d : Discovery) (c after : Context) (calls : List SubstitutionCall)
    (result : DiscoveryResult) : Prop where
  genuine : ∀ call ∈ calls, d.Genuine call
  /-- no substitution is called twice -/
  once : (calls.map SubstitutionCall.replaces).Nodup
  /-- the units of the replaced candidates, in order, once for each listing of the service -/
  get_eq : ∀ capability, result.substitutes.get capability =
    (List.replicate (d.settings.serviceTypes.count capability)
      (d.unitsUnder c.application calls capability)).flatten
  nodup : ∀ capability, (d.unitsUnder c.application calls capability).Nodup
  not_listed : ∀ capability, ∀ name ∈ d.replacedNames c.application calls capability,
    name ∉ result.names capability
  registered : ∀ capability, ∀ u ∈ result.substitutes.get capability, u ∈ after.units
  get?_eq_none_iff : ∀ capability, result.substitutes.entries.get? capability = none ↔
    (capability ∈ d.settings.serviceTypes → d.replacedNames c.application calls capability = [])

section Units

variable {calls : List SubstitutionCall}

theorem mem_unitsFor {name : String} {u : CodeUnit} :
    u ∈ unitsFor calls name ↔ ∃ call ∈ calls, call.replaces = name ∧ u ∈ call.units := by
  unfold unitsFor
  simp only [List.mem_flatMap, List.mem_filter, beq_iff_eq, and_assoc]

/-- When no two calls registered one unit, no unit replaces two candidates of a service. -/
theorem unitsUnder_nodup (d : Discovery) (model : ApplicationModel) (capability : String)
    (h : (calls.flatMap SubstitutionCall.units).Nodup) :
    (d.unitsUnder model calls capability).Nodup := by
  rw [unitsUnder_eq, List.nodup_flatMap]
  obtain ⟨-, hapart⟩ := List.nodup_flatMap.1 h
  refine ⟨?_, ?_⟩
  · intro name _
    exact h.sublist (List.filter_sublist.flatMap SubstitutionCall.units)
  · have hdistinct : (d.candidates model capability).Nodup := by
      rw [← newNames_nil]
      exact newNames_nodup
    have hsymm : Std.Symm (Function.onFun List.Disjoint SubstitutionCall.units) :=
      ⟨fun _ _ hdisjoint _ hfirst hsecond => hdisjoint hsecond hfirst⟩
    refine hdistinct.imp ?_
    intro a b hne u hua hub
    obtain ⟨x, hx, rfl, hux⟩ := mem_unitsFor.1 hua
    obtain ⟨y, hy, rfl, huy⟩ := mem_unitsFor.1 hub
    have hxy : x ≠ y := fun heq => hne (congrArg SubstitutionCall.replaces heq)
    exact hapart.forall hx hy hxy hux huy

/-- Every unit in place of a candidate was registered by a call. -/
theorem mem_units_of_mem_unitsUnder {d : Discovery} {model : ApplicationModel}
    {capability : String} {u : CodeUnit} (h : u ∈ d.unitsUnder model calls capability) :
    u ∈ calls.flatMap SubstitutionCall.units := by
  obtain ⟨name, -, hu⟩ := List.mem_flatMap.1 h
  obtain ⟨call, hcall, -, hu⟩ := mem_unitsFor.1 hu
  exact List.mem_flatMap.2 ⟨call, hcall, hu⟩

end Units

/-- Every listed unit was registered by a call. -/
theorem Substituted.mem_units_of_mem_get {d : Discovery} {start after : Context}
    {scanned : List String} {progress : Progress} {calls : List SubstitutionCall}
    (h : d.Substituted start scanned progress after calls) {capability : String} {u : CodeUnit}
    (hu : u ∈ progress.substitutes.get capability) :
    u ∈ calls.flatMap SubstitutionCall.units := by
  rw [h.substitutes, Substitutes.get_foldl_extend] at hu
  have hnone : ({} : Substitutes).get capability = [] := rfl
  rw [hnone, List.nil_append] at hu
  obtain ⟨units, hunits, hu⟩ := List.mem_flatten.1 hu
  rw [(List.mem_replicate.1 hunits).2] at hu
  exact mem_units_of_mem_unitsUnder hu

theorem yields_notedRun_substituted {d : Discovery} (hops : d.ByOperations) (c : Context) :
    d.Yields d.notedRun c [] fun result after calls =>
      ∃ progress, d.Substituted c d.settings.serviceTypes progress after calls ∧
        result.substitutes = progress.substitutes := by
  refine (yields_notedScanAll_substituted hops rfl (d.substituted_nil c) _).bind ?_
  rintro progress after calls - - h
  rw [List.nil_append] at h
  have hmessages : ∀ messages : List String, d.Yields (Noted.lift (modify fun c : Context =>
      { c with diagnostics := c.diagnostics.addAll category messages })) after calls
        fun _ after' calls' => after.AddsUnits after' [] ∧ calls' = calls :=
    fun messages =>
      yields_lift (Generation.runOn_modify _ after) (grows_addAll _ _ _) ⟨.none rfl rfl, rfl⟩
  refine (hmessages _).bind ?_
  rintro ⟨⟩ after' calls' - - ⟨hnone, rfl⟩
  refine yields_pure ⟨progress, { h with addsUnits := ?_ }, rfl⟩
  simpa using h.addsUnits.trans hnone

/-- The calls of a discovery that succeeded registered what it registered; what it lists in place of
candidates is among that. -/
theorem exists_substituted {d : Discovery} (hops : d.ByOperations) {c after : Context}
    {result : DiscoveryResult} (hrun : d.run.runOn c = (.ok result, after)) :
    ∃ calls progress, d.notedRun.run.run (c, []) = (.ok result, after, calls) ∧
      d.Substituted c d.settings.serviceTypes progress after calls ∧
      result.substitutes = progress.substitutes := by
  obtain ⟨outcome, after', calls, hnoted, -, -, hends⟩ := yields_notedRun_substituted hops c
  rw [List.nil_append] at hnoted
  have herases := d.erases_notedRun c []
  rw [hnoted] at herases
  obtain ⟨rfl, rfl⟩ := Prod.mk.inj (herases.trans hrun)
  rcases hends with ⟨found, hfound, -, progress, h, hsubstitutes⟩ | ⟨e, he, -⟩
  · cases hfound
    exact ⟨calls, progress, hnoted, h, hsubstitutes⟩
  · cases he

/-- A discovery that succeeds lists, for every service, the units that replace its candidates in the
order in which the candidates were found, as often as the service is configured. -/
theorem run_replacesInOrder (d : Discovery) (c : Context) (hops : d.ByOperations) :
    ∃ outcome after calls, d.run.runOn c = (outcome, after) ∧
      d.notedRun.run.run (c, []) = (outcome, after, calls) ∧
      ∀ result, outcome = .ok result → d.ReplacesInOrder c after calls result := by
  obtain ⟨outcome, after, calls, hrun, hnoted, -, -, hends⟩ := d.exists_notedRun c hops
  refine ⟨outcome, after, calls, hrun, hnoted, ?_⟩
  rintro result rfl
  obtain ⟨calls', progress, hnoted', h, hsubstitutes⟩ := exists_substituted hops hrun
  obtain rfl : calls' = calls := (Prod.mk.inj (Prod.mk.inj (hnoted'.symm.trans hnoted)).2).2
  have hfinds : d.Finds c calls' result := by
    rcases hends with ⟨found, hfound, hfinds⟩ | ⟨e, he, -⟩
    · cases hfound
      exact hfinds
    · cases he
  refine ⟨hfinds.genuine, hfinds.once, ?_, ?_, ?_, ?_, ?_⟩
  · intro capability
    rw [hsubstitutes, h.substitutes, Substitutes.get_foldl_extend]
    rfl
  · intro capability
    exact unitsUnder_nodup d c.application capability h.addsUnits.nodup
  · intro capability name hname hlisted
    obtain ⟨e, he, rfl⟩ := List.mem_map.1 hlisted
    cases hcs : result.tables.get? capability with
    | none =>
      rw [hcs] at he
      cases he
    | some cs =>
      rw [hcs] at he
      have hlisted := (hfinds.listed_iff capability cs hcs e.name).1 ⟨e, he, rfl⟩
      exact hlisted.notReplaced (mem_replacedNames.1 hname).2
  · intro capability u hu
    rw [hsubstitutes] at hu
    rw [h.addsUnits.units]
    exact List.mem_append_right _ (h.mem_units_of_mem_get hu)
  · intro capability
    have hnone : ({} : Substitutes).entries.get? capability = none := rfl
    rw [hsubstitutes, h.substitutes, Substitutes.get?_foldl_extend_eq_none]
    have hunits : d.unitsUnder c.application calls' capability ≠ [] ↔
        d.replacedNames c.application calls' capability ≠ [] := unitsUnder_ne_nil
    rw [Ne, Ne, not_iff_not] at hunits
    simp only [hnone, hunits, true_and]

/-- A service with two replaced candidates, one of which another service has too. -/
theorem run_replacesInOrder_greeters :
    let unit (name : String) : Substitution :=
      ⟨name, do let _ ← Generation.registerUnit { space := "gen", name := "Sub" ++ name }⟩
    let d : Discovery :=
      { settings := { serviceTypes := ["Greeter", "Parter"] }
        substitutions := .ofList [("a", unit "a"), ("b", unit "b")] }
    let plain : TypeDescriptor := { factoryMethod := true }
    let c : Context :=
      { space := "gen", profile := .jit, settings := {}, analyzer := ⟨{}, requirementsMet⟩
        application :=
          { services := .ofList [("Greeter", ["b", "c", "a", "b"]), ("Parter", ["a"])]
            types := .ofList [("a", plain), ("b", plain), ("c", plain)] } }
    d.ByOperations ∧ ∃ outcome after calls,
      (d.run.runOn c = (outcome, after) ∧ d.notedRun.run.run (c, []) = (outcome, after, calls) ∧
        ∀ result, outcome = .ok result → d.ReplacesInOrder c after calls result) ∧
      outcome.toOption.map (fun result =>
        ["Greeter", "Parter"].map fun capability =>
          (result.substitutes.get capability).map CodeUnit.name) =
        some [["Subb", "Suba"], ["Suba"]] := by
  intro unit d plain c
  have hops : d.ByOperations := by
    intro name s hs
    have hmem := (Dict.get?_ofList (by decide)).1 hs
    have hs : s = unit "a" ∨ s = unit "b" := by
      rcases List.mem_cons.1 hmem with heq | hmem
      · exact .inl (Prod.mk.inj heq).2
      · exact .inr (Prod.mk.inj (List.mem_singleton.1 hmem)).2
    rcases hs with rfl | rfl <;>
      exact (Generation.ByOperations.registerUnit _).bind fun _ => .pure _
  refine ⟨hops, ?_⟩
  obtain ⟨outcome, after, calls, hrun, hnoted, hreplaces⟩ := run_replacesInOrder d c hops
  refine ⟨outcome, after, calls, ⟨hrun, hnoted, hreplaces⟩, ?_⟩
  have hnames : (d.run.runOn c).1.toOption.map (fun result =>
      ["Greeter", "Parter"].map fun capability =>
        (result.substitutes.get capability).map CodeUnit.name) =
      some [["Subb", "Suba"], ["Suba"]] := by
    decide +kernel
  rw [hrun] at hnames
  exact hnames

/-- A service that is configured twice lists the one unit that its one candidate is replaced by
twice. -/
theorem repeated_service_repeats_substitutes :
    let d : Discovery :=
      { settings := { serviceTypes := ["Greeter", "Greeter"] }
        substitutions := .ofList
          [("a", ⟨"a", do let _ ← Generation.registerUnit { space := "gen", name := "Sub" }⟩)] }
    let c : Context :=
      { space := "gen", profile := .jit, settings := {}, analyzer := ⟨{}, requirementsMet⟩
        application := { services := .ofList [("Greeter", ["a"])] } }
    (d.run.runOn c).2.units.map CodeUnit.name = ["Sub"] ∧
      (d.run.runOn c).1.toOption.map (fun result =>
        (result.substitutes.get "Greeter").map CodeUnit.name) = some ["Sub", "Sub"] := by
  decide +kernel

end Discovery

end BuildAhead
