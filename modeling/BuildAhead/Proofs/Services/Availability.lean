import BuildAhead.Proofs.Services.Evaluation

set_option autoImplicit false

/-!
# Services: when a candidate can be used

A loaded candidate can be used when it has no requirements, or when its probe can be made and every
condition is met. Each condition is read on its own, so the order of the conditions and how often
one is given play no part. Only a condition on a property is not all that its fields ask for: where
a value is forbidden, this alone decides, and a required value beside it is not looked at. How a
value that is no string is rendered plays no part in any of this.
-/

namespace BuildAhead

/-! ## Conditions on one property -/

namespace PropertyRequirement

/-- All that the fields of a condition ask of the text of a property. -/
structure Asks (r : PropertyRequirement) (current : Option String) : Prop where
  value : ∀ v, r.value = some v → current = some v
  notEquals : ∀ v, r.notEquals = some v → current ≠ some v
  present : r.value = none → r.notEquals = none → current.isSome = true

/-- What decides whether a condition holds: the forbidden value alone, if there is one. -/
structure Decides (r : PropertyRequirement) (current : Option String) : Prop where
  forbidden : ∀ v, r.notEquals = some v → current ≠ some v
  otherwise : r.notEquals = none →
    current.isSome = true ∧ ∀ v, r.value = some v → current = some v

theorem holds_iff {r : PropertyRequirement} {current : Option String} :
    r.holds current = true ↔ r.Decides current := by
  obtain ⟨name, value, notEquals⟩ := r
  constructor
  · intro h
    cases notEquals with
    | some excluded =>
      refine ⟨?_, nofun⟩
      rintro v ⟨⟩
      simpa [holds] using h
    | none =>
      refine ⟨nofun, fun _ => ?_⟩
      cases current with
      | none => simp [holds] at h
      | some actual =>
        refine ⟨rfl, ?_⟩
        rintro v ⟨⟩
        exact congrArg some (beq_iff_eq.1 h).symm
  · rintro ⟨hforbidden, hotherwise⟩
    cases notEquals with
    | some excluded => simpa [holds] using hforbidden excluded rfl
    | none =>
      obtain ⟨hpresent, hvalue⟩ := hotherwise rfl
      obtain ⟨actual, rfl⟩ := Option.isSome_iff_exists.1 hpresent
      cases value with
      | none => rfl
      | some expected => exact beq_iff_eq.2 (Option.some.inj (hvalue expected rfl)).symm

/-- What a condition asks for beyond what decides: the required value, where one is forbidden. -/
theorem asks_iff {r : PropertyRequirement} {current : Option String} :
    r.Asks current ↔ r.Decides current ∧
      (r.notEquals ≠ none → ∀ v, r.value = some v → current = some v) := by
  constructor
  · intro h
    refine ⟨⟨h.notEquals, fun hnone => ⟨?_, h.value⟩⟩, fun _ => h.value⟩
    cases hvalue : r.value with
    | none => exact h.present hvalue hnone
    | some v => exact Option.isSome_of_eq_some (h.value v hvalue)
  · rintro ⟨h, hbeside⟩
    refine ⟨fun v hv => ?_, h.forbidden, fun _ hnone => (h.otherwise hnone).1⟩
    by_cases hnone : r.notEquals = none
    · exact (h.otherwise hnone).2 v hv
    · exact hbeside hnone v hv

end PropertyRequirement

/-! ## All conditions -/

namespace Requirements

/-- Every condition is met by an environment, where property values are rendered and the conditions
on them read in this way. -/
structure Satisfied (render : Json → String) (reads : PropertyRequirement → Option String → Prop)
    (r : Requirements) (s : Snapshot) : Prop where
  env : r.env = [] ∨ ∃ e ∈ r.env, e ∈ s.activeEnvironments.toList
  notEnv : ∀ e ∈ r.notEnv, e ∉ s.activeEnvironments.toList
  missingProperties : ∀ name ∈ r.missingProperties, s.properties.get? name = none
  properties : ∀ p ∈ r.properties, reads p (s.propertyWith? render p.name)

/-- The same conditions, in any order and any number of times. -/
structure SameConditions (r r' : Requirements) : Prop where
  env : ∀ e, e ∈ r.env ↔ e ∈ r'.env
  notEnv : ∀ e, e ∈ r.notEnv ↔ e ∈ r'.notEnv
  missingProperties : ∀ name, name ∈ r.missingProperties ↔ name ∈ r'.missingProperties
  properties : ∀ p, p ∈ r.properties ↔ p ∈ r'.properties

variable {render : Json → String} {r r' : Requirements} {s : Snapshot}

theorem met_iff : r.met render s = true ↔ r.Satisfied render PropertyRequirement.Decides s := by
  have henv : (r.env.isEmpty || r.env.any s.activeEnvironments.contains) = true ↔
      r.env = [] ∨ ∃ e ∈ r.env, e ∈ s.activeEnvironments.toList := by
    rw [Bool.or_eq_true, List.isEmpty_iff, List.any_eq_true]
    simp only [NameSet.contains_iff]
  have hnotEnv : (!r.notEnv.any s.activeEnvironments.contains) = true ↔
      ∀ e ∈ r.notEnv, e ∉ s.activeEnvironments.toList := by
    rw [Bool.not_eq_true', List.any_eq_false]
    simp only [NameSet.contains_iff]
  have hmissing : (!r.missingProperties.any s.properties.contains) = true ↔
      ∀ name ∈ r.missingProperties, s.properties.get? name = none := by
    rw [Bool.not_eq_true', List.any_eq_false]
    simp only [Dict.contains, Option.not_isSome_iff_eq_none]
  have hproperties : (r.properties.all fun p => p.holds (s.propertyWith? render p.name)) = true ↔
      ∀ p ∈ r.properties, p.Decides (s.propertyWith? render p.name) := by
    rw [List.all_eq_true]
    simp only [PropertyRequirement.holds_iff]
  rw [met, Bool.and_eq_true, Bool.and_eq_true, Bool.and_eq_true, henv, hnotEnv, hmissing,
    hproperties]
  constructor
  · rintro ⟨⟨⟨he, hn⟩, hm⟩, hp⟩
    exact ⟨he, hn, hm, hp⟩
  · rintro ⟨he, hn, hm, hp⟩
    exact ⟨⟨⟨he, hn⟩, hm⟩, hp⟩

theorem SameConditions.symm (h : r.SameConditions r') : r'.SameConditions r where
  env e := (h.env e).symm
  notEnv e := (h.notEnv e).symm
  missingProperties name := (h.missingProperties name).symm
  properties p := (h.properties p).symm

theorem SameConditions.satisfied {reads : PropertyRequirement → Option String → Prop}
    (h : r.SameConditions r') (hr : r.Satisfied render reads s) : r'.Satisfied render reads s where
  env := by
    rcases hr.env with hnone | ⟨e, he, hactive⟩
    · refine .inl (List.eq_nil_iff_forall_not_mem.2 fun e he => ?_)
      rw [← h.env, hnone] at he
      cases he
    · exact .inr ⟨e, (h.env e).1 he, hactive⟩
  notEnv e he := hr.notEnv e ((h.notEnv e).2 he)
  missingProperties name hname := hr.missingProperties name ((h.missingProperties name).2 hname)
  properties p hp := hr.properties p ((h.properties p).2 hp)

/-- The same conditions are met by the same environments. -/
theorem SameConditions.met_eq (h : r.SameConditions r') (render : Json → String) (s : Snapshot) :
    r.met render s = r'.met render s := by
  rw [Bool.eq_iff_iff, met_iff, met_iff]
  exact ⟨h.satisfied, h.symm.satisfied⟩

/-- The conditions are met as they are written when those that decide are met, and the required
values that do not decide are there too. -/
theorem satisfied_asks_iff : r.Satisfied render PropertyRequirement.Asks s ↔
    r.Satisfied render PropertyRequirement.Decides s ∧ ∀ p ∈ r.properties, p.notEquals ≠ none →
      ∀ v, p.value = some v → s.propertyWith? render p.name = some v := by
  constructor
  · intro h
    refine ⟨⟨h.env, h.notEnv, h.missingProperties, fun p hp => ?_⟩, fun p hp => ?_⟩
    · exact (PropertyRequirement.asks_iff.1 (h.properties p hp)).1
    · exact (PropertyRequirement.asks_iff.1 (h.properties p hp)).2
  · rintro ⟨h, hbeside⟩
    refine ⟨h.env, h.notEnv, h.missingProperties, fun p hp => ?_⟩
    exact PropertyRequirement.asks_iff.2 ⟨h.properties p hp, hbeside p hp⟩

end Requirements

/-! ## Verdicts -/

/-- What makes a candidate of this type usable in an environment, where property values are rendered
and the conditions on them read in this way. -/
def TypeDescriptor.Usable (render : Json → String)
    (reads : PropertyRequirement → Option String → Prop) (d : TypeDescriptor) (s : Snapshot) :
    Prop :=
  d.requirements = none ∨
    d.probeFailure = none ∧ ∃ r, d.requirements = some r ∧ r.Satisfied render reads s

theorem TypeDescriptor.usable_asks_iff {render : Json → String} {d : TypeDescriptor}
    {s : Snapshot} :
    d.Usable render PropertyRequirement.Asks s ↔ d.Usable render PropertyRequirement.Decides s ∧
      ∀ r, d.requirements = some r → ∀ p ∈ r.properties, p.notEquals ≠ none →
        ∀ v, p.value = some v → s.propertyWith? render p.name = some v := by
  unfold Usable
  cases d.requirements with
  | none => simp
  | some r => simp [Requirements.satisfied_asks_iff, and_assoc]

namespace AvailabilityCheck

/-- The verdict on a candidate and the messages that are left about it, in an environment whose
requirements are evaluated in the usual way. -/
def judge (render : Json → String) (l : LoadedCandidate) (capability : String) (s : Snapshot) :
    Bool × List String :=
  (ofCandidate l).run l capability ⟨s, requirementsMetWith render⟩

/-- What the verdict on a candidate of a type says, and what is said besides. -/
structure Judges (render : Json → String) (model : ApplicationModel) (name : String)
    (d : TypeDescriptor) (capability : String) (s : Snapshot) (verdict : Bool × List String) :
    Prop where
  usable_iff : verdict.1 = true ↔ d.Usable render PropertyRequirement.Decides s
  /-- all conditions are met as they are written when the candidate can be used and each required
  value that has a forbidden one beside it is there -/
  asked_iff : d.Usable render PropertyRequirement.Asks s ↔ verdict.1 = true ∧
    ∀ r, d.requirements = some r → ∀ p ∈ r.properties, p.notEquals ≠ none →
      ∀ v, p.value = some v → s.propertyWith? render p.name = some v
  /-- so they are when no condition has both a required and a forbidden value -/
  asked_iff_of_apart : (∀ r, d.requirements = some r → ∀ p ∈ r.properties,
      p.value = none ∨ p.notEquals = none) →
    (verdict.1 = true ↔ d.Usable render PropertyRequirement.Asks s)
  /-- something is said exactly when the probe cannot be made -/
  messages_ne_nil_iff : verdict.2 ≠ [] ↔ d.requirements ≠ none ∧ d.probeFailure ≠ none
  messages : ∀ reason, d.requirements ≠ none → d.probeFailure = some reason →
    verdict.2 = [missingDependencyMessage capability name reason]
  /-- a type with the same conditions in another order, or repeated, gets the same verdict -/
  reordered : ∀ r r', d.requirements = some r → r.SameConditions r' →
    ∃ l', (model.addType name { d with requirements := some r' }).load name = .ok l' ∧
      judge render l' capability s = verdict

section Judging

variable {render : Json → String} {model : ApplicationModel} {name capability : String}
  {d : TypeDescriptor} {s : Snapshot}

/-- The verdict on a candidate that was loaded with its type's description. -/
theorem judge_of_probe {l : LoadedCandidate} (hname : l.name = name)
    (hprobe : l.probe = ApplicationModel.probeOf name d) :
    judge render l capability s =
      match d.requirements, d.probeFailure with
      | none, _ => (true, [])
      | some _, some reason => (false, [missingDependencyMessage capability name reason])
      | some r, none => (r.met render s, []) := by
  unfold judge ofCandidate
  rw [hprobe]
  cases hrequirements : d.requirements with
  | none => simp [ApplicationModel.probeOf, hrequirements, run]
  | some r =>
    cases hfailure : d.probeFailure with
    | none =>
      simp [ApplicationModel.probeOf, hrequirements, hfailure, run, hprobe, Analyzer.isAvailable,
        requirementsMetWith]
    | some reason =>
      simp [ApplicationModel.probeOf, hrequirements, hfailure, run, hprobe, hname]

theorem load_eq_ok_iff {l : LoadedCandidate} :
    model.load name = .ok l ↔ ∃ d, model.types.get? name = some d ∧ d.missingDependency = none ∧
      l = ⟨name, d.implementation?, ApplicationModel.probeOf name d, d.configurationScope⟩ := by
  unfold ApplicationModel.load
  cases model.types.get? name with
  | none => simp
  | some d =>
    cases hmissing : d.missingDependency with
    | none => simp [hmissing, eq_comm]
    | some dependency => simp [hmissing]

theorem judges_of_probe {l : LoadedCandidate} (hmissing : d.missingDependency = none)
    (hname : l.name = name) (hprobe : l.probe = ApplicationModel.probeOf name d) :
    Judges render model name d capability s (judge render l capability s) := by
  have husable : (judge render l capability s).1 = true ↔
      d.Usable render PropertyRequirement.Decides s := by
    rw [judge_of_probe hname hprobe]
    unfold TypeDescriptor.Usable
    cases d.requirements with
    | none => simp
    | some r => cases d.probeFailure <;> simp [Requirements.met_iff]
  have hasked : d.Usable render PropertyRequirement.Asks s ↔
      (judge render l capability s).1 = true ∧
        ∀ r, d.requirements = some r → ∀ p ∈ r.properties, p.notEquals ≠ none →
          ∀ v, p.value = some v → s.propertyWith? render p.name = some v := by
    rw [husable]
    exact TypeDescriptor.usable_asks_iff
  refine ⟨husable, hasked, ?_, ?_, ?_, ?_⟩
  · intro hapart
    rw [hasked, iff_self_and]
    intro _ r hr p hp hforbidden v hv
    rcases hapart r hr p hp with hnone | hnone
    · rw [hnone] at hv
      cases hv
    · exact absurd hnone hforbidden
  · rw [judge_of_probe hname hprobe]
    cases d.requirements <;> cases d.probeFailure <;> simp
  · intro reason hrequirements hreason
    obtain ⟨r, hr⟩ := Option.ne_none_iff_exists'.1 hrequirements
    rw [judge_of_probe hname hprobe, hr, hreason]
  · intro r r' hr hsame
    have hload : (model.addType name { d with requirements := some r' }).load name = .ok
        ⟨name, d.implementation?, ApplicationModel.probeOf name { d with requirements := some r' },
          d.configurationScope⟩ := by
      refine load_eq_ok_iff.2 ⟨{ d with requirements := some r' }, ?_, hmissing, rfl⟩
      rw [ApplicationModel.addType, Dict.get?_insert, if_pos rfl]
    refine ⟨_, hload, (judge_of_probe (d := { d with requirements := some r' }) rfl rfl).trans ?_⟩
    rw [judge_of_probe hname hprobe, hr]
    dsimp only
    cases d.probeFailure with
    | none => exact congrArg (·, []) (hsame.met_eq render s).symm
    | some reason => rfl

end Judging

/-- Every candidate that can be loaded gets the verdict that its type's requirements ask for, save
that a forbidden value decides alone. -/
theorem load_judges (render : Json → String) {model : ApplicationModel} {name : String}
    {l : LoadedCandidate} (hload : model.load name = .ok l) (capability : String) (s : Snapshot) :
    ∃ d, model.types.get? name = some d ∧
      Judges render model name d capability s (judge render l capability s) := by
  obtain ⟨d, hd, hmissing, rfl⟩ := load_eq_ok_iff.1 hload
  exact ⟨d, hd, judges_of_probe hmissing rfl rfl⟩

/-- A candidate with a condition of every kind, of which a property with a number as its value meets
one. -/
theorem load_judges_of_pool :
    let r : Requirements :=
      { env := ["test", "dev"], notEnv := ["prod"], missingProperties := ["legacy"]
        properties :=
          [{ name := "pool.size", value := some "4" },
            { name := "mode", notEquals := some "off" }] }
    let d : TypeDescriptor := { factoryMethod := true, requirements := some r }
    let model : ApplicationModel := { types := .ofList [("x.Pool", d)] }
    let s : Snapshot :=
      { activeEnvironments := .ofList ["test"], properties := .ofList [("pool.size", .int 4)] }
    ∃ l, model.load "x.Pool" = .ok l ∧
      (∃ d, model.types.get? "x.Pool" = some d ∧
        Judges Json.compact model "x.Pool" d "a.Service" s
          (judge Json.compact l "a.Service" s)) ∧
      judge Json.compact l "a.Service" s = (true, []) := by
  intro r d model s
  have hload : model.load "x.Pool" = .ok
      ⟨"x.Pool", some .factoryMethod, some (.ok ⟨"x.Pool", r⟩), none⟩ := by
    rfl
  exact ⟨_, hload, load_judges Json.compact hload "a.Service" s, by decide +kernel⟩

/-- A candidate can be used although it requires a value of a property that is not there, because it
forbids another one. -/
theorem absent_required_value_accepted :
    let r : Requirements :=
      { properties := [{ name := "p", value := some "on", notEquals := some "off" }] }
    let model : ApplicationModel :=
      { types := .ofList [("x.A", { factoryMethod := true, requirements := some r })] }
    ∃ l, model.load "x.A" = .ok l ∧ judge Json.compact l "a.Service" {} = (true, []) ∧
      ({} : Snapshot).property? "p" = none ∧
      ¬ r.Satisfied Json.compact PropertyRequirement.Asks {} := by
  intro r model
  have hload : model.load "x.A" = .ok
      ⟨"x.A", some .factoryMethod, some (.ok ⟨"x.A", r⟩), none⟩ := by
    rfl
  refine ⟨_, hload, by decide +kernel, rfl, fun h => ?_⟩
  have hvalue := (h.properties _ List.mem_cons_self).value "on" rfl
  cases hvalue

end AvailabilityCheck

end BuildAhead
