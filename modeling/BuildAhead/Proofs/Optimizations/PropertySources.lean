import BuildAhead.Proofs.Code.Literals
import BuildAhead.Proofs.Generation.Running
import BuildAhead.Proofs.Optimizations.Naming

set_option autoImplicit false

/-!
# Optimizations: what becomes of configuration resources

A configuration resource that is made into a unit is left out of the application, so the unit is all
that is left of it. The unit gives back the whole resource: its methods answer the name, the order
that was configured, and every key with its value. A resource that the environment does not have
gets no unit and is not left out, and nothing else in the context changes.
-/

namespace BuildAhead

open Code Code.Exec

/-! ## Methods that return one expression -/

/-- Called when the unit is first used, a method without parameters ends and answers this, as soon
as enough of the unit's own calls may be open. -/
def CodeUnit.Returns (u : CodeUnit) (method : String) (value : Value) : Prop :=
  ∃ bound, ∀ depth, bound ≤ depth → ∃ events, Answers (u.invoke depth method []) value events

namespace PropertySources

theorem returns_getter {u : CodeUnit} {name result : String} {value : Expr} {w : Value}
    (hfields : u.fields = []) (hinit : u.staticInit = [])
    (hmethod : u.method? name = some (getter name result value))
    (hvalue : Literals.Gives u value w) : u.Returns name w := by
  obtain ⟨bound, hvalue⟩ := hvalue
  refine ⟨bound + 1, fun depth hdepth => ?_⟩
  obtain ⟨depth, rfl⟩ : ∃ d, depth = d + 1 := ⟨depth - 1, by omega⟩
  obtain ⟨events, hanswers⟩ := hvalue depth (Nat.le_of_succ_le_succ hdepth) [] []
  refine ⟨[.own name []] ++ events, fun t => ?_⟩
  rw [← Trace.add_add]
  exact CodeUnit.run_invoke hfields hinit hmethod rfl (answers_performAll_ret hanswers [] _)

/-! ## Names at their first positions -/

/-- The members of a list, each once, in the order of their first positions. -/
structure AtFirstPositions (all names : List String) : Prop where
  mem : ∀ n, n ∈ names ↔ n ∈ all
  order : names.Pairwise fun a b => all.idxOf a < all.idxOf b

theorem mem_distinct {n : String} {seen names : List String} :
    n ∈ distinct seen names ↔ n ∈ names ∧ n ∉ seen := by
  induction names generalizing seen with
  | nil => simp [distinct]
  | cons name rest ih =>
    unfold distinct
    by_cases hseen : name ∈ seen
    · rw [if_pos (List.contains_iff_mem.2 hseen), ih, List.mem_cons]
      constructor
      · intro h
        exact ⟨.inr h.1, h.2⟩
      · rintro ⟨rfl | hn, hnew⟩
        · exact absurd hseen hnew
        · exact ⟨hn, hnew⟩
    · rw [if_neg (by simpa using hseen), List.mem_cons, ih, List.mem_cons, List.mem_cons]
      by_cases hname : n = name
      · simp [hname, hseen]
      · simp [hname]

/-- Behind a name that is not kept again, positions move by one. -/
theorem pairwise_idxOf_cons {name : String} {rest kept : List String} (hname : name ∉ kept)
    (horder : kept.Pairwise fun a b => rest.idxOf a < rest.idxOf b) :
    kept.Pairwise fun a b => (name :: rest).idxOf a < (name :: rest).idxOf b := by
  refine horder.imp_of_mem fun {a b} ha hb hlt => ?_
  have hapart : ∀ n ∈ kept, name ≠ n := fun n hn heq => hname (heq ▸ hn)
  rw [List.idxOf_cons_ne _ (hapart a ha), List.idxOf_cons_ne _ (hapart b hb)]
  exact Nat.succ_lt_succ hlt

theorem pairwise_idxOf_distinct (seen names : List String) :
    (distinct seen names).Pairwise fun a b => names.idxOf a < names.idxOf b := by
  induction names generalizing seen with
  | nil => exact .nil
  | cons name rest ih =>
    unfold distinct
    by_cases hseen : name ∈ seen
    · rw [if_pos (List.contains_iff_mem.2 hseen)]
      exact pairwise_idxOf_cons (fun hmem => (mem_distinct.1 hmem).2 hseen) (ih seen)
    · rw [if_neg (by simpa using hseen)]
      have hname : name ∉ distinct (name :: seen) rest :=
        fun hmem => (mem_distinct.1 hmem).2 List.mem_cons_self
      refine .cons (fun n hn => ?_) (pairwise_idxOf_cons hname (ih (name :: seen)))
      have hapart : name ≠ n := by
        rintro rfl
        exact hname hn
      rw [List.idxOf_cons_self, List.idxOf_cons_ne _ hapart]
      exact Nat.succ_pos _

theorem atFirstPositions_distinct (names : List String) :
    AtFirstPositions names (distinct [] names) where
  mem n := by rw [mem_distinct, and_iff_left List.not_mem_nil]
  order := pairwise_idxOf_distinct [] names

/-! ## The unit of a resource -/

/-- A unit holds a resource with these values. -/
structure IsSource (space : String) (s : Settings) (resource : String) (values : Dict Json)
    (u : CodeUnit) : Prop where
  named : u.unitName = ⟨space, unitNameOf resource⟩
  implements : u.implements = [Runtime.propertySource]
  distinct : (u.methods.map Method.name).Nodup
  getName : u.Returns "getName" (.text resource)
  getOrder : ∃ order, s.int ("map.property.order." ++ resource) (-2147483648) = .ok order ∧
    -2147483648 ≤ order ∧ order ≤ 2147483647 ∧ u.Returns "getOrder" (.int order)
  values : (∀ n ∈ (Json.object values.toList).ints, Json.inInt64 n = true) →
    ∃ w, (Json.object values.toList).StandsFor w ∧ u.Returns "values" w

theorem of_orderOf {s : Settings} {resource : String} {order : Int}
    (h : orderOf s resource = .ok order) :
    s.int (orderKey resource) lowestOrder = .ok order ∧ IsOrder order := by
  unfold orderOf at h
  cases hint : s.int (orderKey resource) lowestOrder with
  | error e =>
    rw [hint] at h
    cases h
  | ok n =>
    by_cases hrange : n < lowestOrder ∨ highestOrder < n
    · simp [hint, hrange, throw, throwThe, MonadExceptOf.throw, bind, Except.bind] at h
    · simp only [hint, hrange, if_false, pure, Except.pure, bind, Except.bind,
        Except.ok.injEq] at h
      subst h
      exact ⟨rfl, by unfold IsOrder; omega⟩

/-- No helper has the name of one of the methods that every unit has: its name begins with another
letter. -/
theorem not_mem_getters {g g' : Literals} {name : String} (h : Literals.Between g g' name) :
    name ∉ ["getName", "getOrder", "values"] := by
  have hfirst : name.toList.head? = some 'l' ∨ name.toList.head? = some 'm' := by
    rcases h with ⟨i, -, -, rfl⟩ | ⟨i, -, -, rfl⟩
    · left
      rw [String.toList_append]
      rfl
    · right
      rw [String.toList_append]
      rfl
  intro hmem
  simp only [List.mem_cons, List.not_mem_nil, or_false] at hmem
  rcases hmem with rfl | rfl | rfl <;> exact absurd hfirst (by decide)

section

variable (space resource : String) (order : Int) (values : Dict Json)

/-- The expression of a resource's values and the helpers that it calls. -/
def literalsOf : Expr × Literals := Literals.make {} (.map values.toList)

theorem methods_unitOf :
    (unitOf space resource order values).methods =
      [getter "getName" "String" (.text resource), getter "getOrder" "int" (.int order),
        getter "values" "Map" (literalsOf values).1] ++ (literalsOf values).2.helpers :=
  rfl

theorem nodup_methods_unitOf :
    ((unitOf space resource order values).methods.map Method.name).Nodup := by
  obtain ⟨new, hadds⟩ := Literals.adds_make (.map values.toList) {}
  have hhelpers : (literalsOf values).2.helpers = new := hadds.helpers
  have hgetters : [getter "getName" "String" (.text resource), getter "getOrder" "int" (.int order),
      getter "values" "Map" (literalsOf values).1].map Method.name =
        ["getName", "getOrder", "values"] := rfl
  rw [methods_unitOf, List.map_append, hhelpers, hgetters]
  refine List.nodup_append.2 ⟨by decide, hadds.distinct, ?_⟩
  intro a ha b hb hab
  obtain ⟨m, hm, rfl⟩ := List.mem_map.1 hb
  exact not_mem_getters (hadds.between m hm) (hab ▸ ha)

variable {space resource order values}

theorem returns_of_mem {name result : String} {value : Expr} {w : Value}
    (hmem : getter name result value ∈ (unitOf space resource order values).methods)
    (hvalue : Literals.Gives (unitOf space resource order values) value w) :
    (unitOf space resource order values).Returns name w :=
  returns_getter rfl rfl
    (CodeUnit.method?_of_mem (nodup_methods_unitOf space resource order values) hmem) hvalue

theorem isSource_unitOf {s : Settings} (horder : orderOf s resource = .ok order) :
    IsSource space s resource values (unitOf space resource order values) where
  named := rfl
  implements := rfl
  distinct := nodup_methods_unitOf space resource order values
  getName := by
    have hmem : getter "getName" "String" (.text resource) ∈
        (unitOf space resource order values).methods :=
      List.mem_cons_self
    exact returns_of_mem hmem (.of_eval fun _ _ => rfl)
  getOrder := by
    obtain ⟨hint, hlowest, hhighest⟩ := of_orderOf horder
    have hmem : getter "getOrder" "int" (.int order) ∈
        (unitOf space resource order values).methods :=
      List.mem_cons_of_mem _ List.mem_cons_self
    exact ⟨order, hint, hlowest, hhighest, returns_of_mem hmem (.of_eval fun _ _ => rfl)⟩
  values := by
    intro hfits
    have hmem : getter "values" "Map" (literalsOf values).1 ∈
        (unitOf space resource order values).methods :=
      List.mem_cons_of_mem _ (List.mem_cons_of_mem _ List.mem_cons_self)
    have hfound : ∀ m ∈ (literalsOf values).2.helpers,
        (unitOf space resource order values).method? m.name = some m := by
      intro m hm
      refine CodeUnit.method?_of_mem (nodup_methods_unitOf space resource order values) ?_
      rw [methods_unitOf]
      exact List.mem_append_right _ hm
    obtain ⟨w, hstands, hgives⟩ := Literals.gives_make hfound hfits
    exact ⟨w, hstands, returns_of_mem hmem hgives⟩

end

/-! ## The units of all resources -/

/-- What became of a context when units were made for the resources that the environment has: the
units stand at the end, in the order of the resources, and their files are left out. Nothing else in
the context has changed. -/
structure Replaces (c c' : Context) (present : List String) (us : List CodeUnit) : Prop where
  changed : c' = { c with
    units := c.units ++ us, unitNames := c'.unitNames, excludedResources := c'.excludedResources }
  recorded : ∀ qualified, c'.hasUnit qualified = true ↔
    c.hasUnit qualified = true ∨ qualified ∈ us.map CodeUnit.qualifiedName
  excluded : ∀ path, path ∈ c'.excludedResources.toList ↔
    path ∈ c.excludedResources.toList ∨ ∃ resource ∈ present, path = resource ++ ".yml"
  sources : List.Forall₂
    (fun resource u => ∃ values,
      c.analyzer.snapshot.configResources.get? resource = some values ∧
        IsSource c.space c.settings resource values u)
    present us

theorem Replaces.none (c : Context) : Replaces c c [] [] where
  changed := by rw [List.append_nil]
  recorded qualified := by simp
  excluded path := by simp
  sources := .nil

/-- One resource that the environment has, and then others. -/
theorem Replaces.cons {c c' : Context} {resource : String} {values : Dict Json} {u : CodeUnit}
    {present : List String} {us : List CodeUnit}
    (hvalues : c.analyzer.snapshot.configResources.get? resource = some values)
    (hsource : IsSource c.space c.settings resource values u)
    (h : Replaces
      { c.addUnit u with
        excludedResources := c.excludedResources.insert (resource ++ ".yml") }
      c' present us) :
    Replaces c c' (resource :: present) (u :: us) where
  changed := by
    have hchanged := h.changed
    rw [Context.addUnit, List.append_assoc] at hchanged
    exact hchanged
  recorded qualified := by
    rw [h.recorded, List.map_cons, List.mem_cons, ← or_assoc]
    exact or_congr_left (c.hasUnit_addUnit u qualified)
  excluded path := by
    rw [h.excluded, NameSet.mem_insert, List.exists_mem_cons_iff, or_assoc, or_left_comm]
  sources := .cons ⟨values, hvalues, hsource⟩ h.sources

theorem exists_replaces {resources : List String} {c c' : Context}
    (hrun : (generateUnits resources).runOn c = (.ok (), c')) :
    ∃ us, Replaces c c' (presentOf c.analyzer.snapshot resources) us := by
  induction resources generalizing c with
  | nil =>
    cases hrun
    exact ⟨[], .none _⟩
  | cons resource rest ih =>
    unfold generateUnits at hrun
    rw [Generation.runOn_bind, Generation.runOn_get] at hrun
    dsimp only at hrun
    cases hvalues : c.analyzer.snapshot.configResources.get? resource with
    | none =>
      have hpresent : presentOf c.analyzer.snapshot (resource :: rest) =
          presentOf c.analyzer.snapshot rest := by
        simp [presentOf, Dict.contains, hvalues]
      rw [hvalues] at hrun
      rw [hpresent]
      exact ih hrun
    | some values =>
      have hpresent : presentOf c.analyzer.snapshot (resource :: rest) =
          resource :: presentOf c.analyzer.snapshot rest := by
        simp [presentOf, Dict.contains, hvalues]
      simp only [hvalues, Generation.runOn_bind] at hrun
      rw [hpresent]
      cases horder : orderOf c.settings resource with
      | error e =>
        rw [horder] at hrun
        cases hrun
      | ok order =>
        have hread : (generateUnits.liftExcept (.ok order)).runOn c = (.ok order, c) := rfl
        simp only [horder, hread] at hrun
        rcases hregister : (Generation.registerUnit
          (unitOf c.space resource order values)).runOn c with ⟨e | n, registered⟩
        · rw [hregister] at hrun
          cases hrun
        · rw [hregister] at hrun
          have hregistered : registered = c.addUnit (unitOf c.space resource order values) := by
            rw [Generation.runOn_registerUnit] at hregister
            split at hregister
            · cases hregister
            · split at hregister <;> cases hregister
              rfl
          subst hregistered
          obtain ⟨us, hrest⟩ := ih hrun
          exact ⟨_, .cons hvalues (isSource_unitOf horder) hrest⟩

/-- In an open context, units can be made for resources when the order of each is in its range, and
when their names are different and new. -/
theorem exists_runOn_generateUnits_iff {resources : List String} {c : Context}
    (hopen : c.finished = false) :
    (∃ c', (generateUnits resources).runOn c = (.ok (), c')) ↔
      (∀ r ∈ presentOf c.analyzer.snapshot resources, c.settings.Admits (orderKey r) IsOrder) ∧
        ((presentOf c.analyzer.snapshot resources).map unitNameOf).Nodup ∧
        ∀ r ∈ presentOf c.analyzer.snapshot resources,
          c.hasUnit (Names.qualify c.space (unitNameOf r)) = false := by
  have hslots : ∀ names : List String, (names.map fun r => Slot.unit (unitNameOf r)).Nodup ↔
      (names.map unitNameOf).Nodup := by
    intro names
    have hinjective : Function.Injective Slot.unit := fun _ _ h => Slot.unit.inj h
    rw [← List.nodup_map_iff hinjective, List.map_map]
    rfl
  have houtcome : (∃ c', (generateUnits resources).runOn c = (.ok (), c')) ↔
      ∃ done, ((generateUnits resources).runOn c).1 = .ok done := by
    constructor
    · rintro ⟨c', hrun⟩
      exact ⟨(), by rw [hrun]⟩
    · rintro ⟨done, hdone⟩
      exact ⟨_, Prod.ext hdone rfl⟩
  have hregisters : Generation.Registers c (generateUnits resources) _ _ _ :=
    registers_generateUnits resources
  have hsucceeds := hregisters.succeeds_iff c ⟨rfl, rfl, rfl, rfl, hopen⟩
  rw [houtcome, hsucceeds, hslots]
  simp only [List.forall_mem_map, Context.Taken, Bool.not_eq_true]

/-- Units are made for those resources of an application that the environment has: of the common
one, then those of the active environments in ascending order, then those of the possible
environments other than the default one, each once. -/
theorem generateUnits_replaces (active : NameSet) (possible : List String) {c : Context}
    (hopen : c.finished = false) :
    let resources := resourceNames active possible
    let present := resources.filter c.analyzer.snapshot.configResources.contains
    AtFirstPositions
      ("application" :: (active.toList ++ possible.filter (· != "default")).map ("application-" ++ ·))
      resources ∧
    ((∃ c', (generateUnits resources).runOn c = (.ok (), c')) ↔
      (∀ r ∈ present, c.settings.Admits (orderKey r) IsOrder) ∧
        (present.map unitNameOf).Nodup ∧
        ∀ r ∈ present, c.hasUnit (Names.qualify c.space (unitNameOf r)) = false) ∧
    ∀ c', (generateUnits resources).runOn c = (.ok (), c') → ∃ us, Replaces c c' present us :=
  ⟨atFirstPositions_distinct _, exists_runOn_generateUnits_iff hopen, fun _ => exists_replaces⟩

/-- Two resources, of which one is there twice, and a third one that the environment does not
have. -/
theorem generateUnits_replaces_two :
    let active : NameSet := .ofList ["test"]
    let possible := ["default", "prod", "test"]
    let c : Context :=
      { space := "gen", profile := .jit
        settings := .ofPairs [("map.property.order.application-test", "10")]
        analyzer :=
          ⟨{ configResources := .ofList
              [("application", .ofList [("name", .text "demo"), ("hosts", .array [.int 1])]),
                ("application-test", .ofList [("url", .null)])] },
            requirementsMet⟩
        application := {} }
    c.finished = false ∧
      resourceNames active possible = ["application", "application-test", "application-prod"] ∧
      ∃ c', (generateUnits (resourceNames active possible)).runOn c = (.ok (), c') ∧
        ∃ us, Replaces c c' ["application", "application-test"] us := by
  intro active possible c
  obtain ⟨-, -, hreplaces⟩ := generateUnits_replaces active possible (c := c) rfl
  have hsucceeds : ((generateUnits (resourceNames active possible)).runOn c).1.isOk = true := by
    decide +kernel
  have hpresent : (resourceNames active possible).filter
      c.analyzer.snapshot.configResources.contains = ["application", "application-test"] := by
    decide
  refine ⟨rfl, by decide, ?_⟩
  rcases hrun : (generateUnits (resourceNames active possible)).runOn c with ⟨e | done, c'⟩
  · rw [hrun] at hsucceeds
    cases hsucceeds
  · have hfound := hreplaces c' hrun
    rw [hpresent] at hfound
    exact ⟨c', rfl, hfound⟩

end PropertySources

end BuildAhead
