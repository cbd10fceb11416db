import BuildAhead.Modules.Registry
import BuildAhead.Proofs.Collection.Steps
import BuildAhead.Proofs.Modules.Counting

set_option autoImplicit false

/-!
# Modules: what a schedule is

A registry is scheduled exactly when every dependency is registered and the registered modules do
not depend on each other in a circle. The schedule then is the least order, position by position in
the order of the identifiers, of the wanted modules in which each comes after those that it depends
on. The order in which the modules were registered plays no part.
-/

namespace BuildAhead

/-! ## Runs of modules -/

/-- One module declares that it depends on another. -/
def DependsOn (ms : List Module) (a b : String) : Prop :=
  ∃ m ∈ ms, m.id = a ∧ b ∈ m.descriptor.dependencies

/-- Every declared dependency is the identifier of a module. -/
def Declared (ms : List Module) : Prop :=
  ∀ m ∈ ms, ∀ d ∈ m.descriptor.dependencies, ∃ n ∈ ms, n.id = d

/-- No module depends on itself, directly or through others. -/
def Acyclic (ms : List Module) : Prop :=
  ∀ id, ¬ Relation.TransGen (DependsOn ms) id id

/-- The wanted modules, each once, and each after those of its dependencies that are wanted too. -/
structure RunsInOrder (ms : List Module) (wanted : ModuleDescriptor → Bool) (run : List Module) :
    Prop where
  once : run.Nodup
  mem_iff : ∀ m, m ∈ run ↔ m ∈ ms ∧ wanted m.descriptor = true
  after : ∀ (i j : Nat) (hi : i < run.length) (hj : j < run.length),
    run[j].id ∈ run[i].descriptor.dependencies → j < i

/-- A run whose identifiers are, position by position, before those of all other runs. -/
structure LeastRun (ms : List Module) (wanted : ModuleDescriptor → Bool) (run : List Module) :
    Prop where
  inOrder : RunsInOrder ms wanted run
  least : ∀ other, RunsInOrder ms wanted other →
    List.Lex (· < ·) (run.map Module.id) (other.map Module.id) ∨
      run.map Module.id = other.map Module.id

namespace Registry

theorem order_eq_error {r : Registry} {names : List String} {e : BuildError}
    (h : r.order names = .error e) :
    ∃ c, e = .cyclicDependency c ∧ Ordering.sort r.dependencies (.ofList names) = .error c := by
  unfold Registry.order at h
  cases hsort : Ordering.sort r.dependencies (.ofList names) with
  | ok order =>
    rw [hsort] at h
    cases h
  | error c =>
    rw [hsort] at h
    cases h
    exact ⟨c, rfl, rfl⟩

/-! ## Registered modules -/

/-- The registry with further modules, registered one after the other. -/
def registerAll (r : Registry) : List Module → Except BuildError Registry
  | [] => .ok r
  | m :: rest => do (← r.register m).registerAll rest

/-- The registry answers with these modules, of which no two have one identifier. -/
structure Holds (r : Registry) (ms : List Module) : Prop where
  distinct : (ms.map Module.id).Nodup
  get?_iff : ∀ id m, r.get? id = some m ↔ m ∈ ms ∧ m.id = id

theorem holds_empty : Holds {} [] := by
  refine ⟨List.nodup_nil, ?_⟩
  intro id m
  simp [get?]

/-- The registry of modules with distinct identifiers holds them. -/
theorem holds_ofModules {ms : List Module} (hdistinct : (ms.map Module.id).Nodup) :
    (ofModules ms).Holds ms := by
  refine ⟨hdistinct, ?_⟩
  intro id m
  have hkeys : ((ms.map fun m => (m.id, m)).map (·.1)).Nodup := by
    rw [List.map_map]
    exact hdistinct
  have hget : (ofModules ms).get? id = some m ↔ (id, m) ∈ ms.map fun m => (m.id, m) :=
    Dict.get?_ofList hkeys
  rw [hget, List.mem_map]
  constructor
  · rintro ⟨n, hn, heq⟩
    cases heq
    exact ⟨hn, rfl⟩
  · rintro ⟨hm, rfl⟩
    exact ⟨m, hm, rfl⟩

/-- One more module with a new identifier can be registered, and is then held. -/
theorem Holds.register {r : Registry} {ms : List Module} (h : r.Holds ms) {m : Module}
    (hnew : ∀ n ∈ ms, n.id ≠ m.id) :
    ∃ r', r.register m = .ok r' ∧ r'.Holds (m :: ms) := by
  have hnone : ¬ r.modules.contains m.id = true := by
    rw [Dict.contains_iff]
    intro hgiven
    obtain ⟨n, hn⟩ := hgiven
    obtain ⟨hmem, hid⟩ := (h.get?_iff m.id n).1 hn
    exact hnew n hmem hid
  refine ⟨⟨r.modules.insert m.id m⟩, ?_, ?_, ?_⟩
  · simp [Registry.register, hnone]
  · rw [List.map_cons, List.nodup_cons]
    refine ⟨?_, h.distinct⟩
    rw [List.mem_map]
    intro hgiven
    obtain ⟨n, hn, hid⟩ := hgiven
    exact hnew n hn hid
  · intro id n
    have hold : r.modules.get? id = some n ↔ n ∈ ms ∧ n.id = id := h.get?_iff id n
    simp only [get?, Dict.get?_insert, List.mem_cons]
    split
    · next heq =>
      subst heq
      constructor
      · intro hsome
        have hmn : m = n := Option.some.inj hsome
        subst hmn
        exact ⟨.inl rfl, rfl⟩
      · intro hgiven
        obtain ⟨rfl | hmem, hid⟩ := hgiven
        · rfl
        · exact absurd hid (hnew n hmem)
    · next hne =>
      rw [hold]
      constructor
      · intro hgiven
        obtain ⟨hmem, hid⟩ := hgiven
        exact ⟨.inr hmem, hid⟩
      · intro hgiven
        obtain ⟨rfl | hmem, hid⟩ := hgiven
        · exact absurd hid.symm hne
        · exact ⟨hmem, hid⟩

/-- Modules with distinct identifiers can all be registered, and the registry holds them. -/
theorem Holds.registerAll {r : Registry} {ms new : List Module} (h : r.Holds ms)
    (hnew : (new.map Module.id).Nodup) (happart : ∀ m ∈ new, ∀ n ∈ ms, n.id ≠ m.id) :
    ∃ r', r.registerAll new = .ok r' ∧ r'.Holds (new.reverse ++ ms) := by
  induction new generalizing r ms with
  | nil => exact ⟨r, rfl, h⟩
  | cons m rest ih =>
    rw [List.map_cons, List.nodup_cons] at hnew
    obtain ⟨r₁, hr₁, h₁⟩ := h.register (happart m List.mem_cons_self)
    have happart₁ : ∀ k ∈ rest, ∀ n ∈ m :: ms, n.id ≠ k.id := by
      intro k hk n hn
      rcases List.mem_cons.1 hn with rfl | hn
      · exact fun hid => hnew.1 (List.mem_map.2 ⟨k, hk, hid.symm⟩)
      · exact happart k (List.mem_cons_of_mem _ hk) n hn
    obtain ⟨r₂, hr₂, h₂⟩ := ih h₁ hnew.2 happart₁
    refine ⟨r₂, ?_, by simpa using h₂⟩
    show (r.register m).bind _ = _
    rw [hr₁]
    exact hr₂

/-- A registry that registered modules one after the other holds them. -/
theorem Holds.of_registerAll {r r' : Registry} {ms new : List Module} (h : r.Holds ms)
    (hall : r.registerAll new = .ok r') : r'.Holds (new.reverse ++ ms) := by
  induction new generalizing r ms with
  | nil =>
    cases hall
    exact h
  | cons m rest ih =>
    obtain ⟨r₁, hr₁, hrest⟩ := bind_eq_ok hall
    have hnew : ∀ n ∈ ms, n.id ≠ m.id := by
      intro n hn hid
      have hget : r.get? m.id = some n := (h.get?_iff m.id n).2 ⟨hn, hid⟩
      have hcontains : r.modules.contains m.id = true := Dict.contains_iff.2 ⟨n, hget⟩
      unfold Registry.register at hr₁
      rw [if_pos hcontains] at hr₁
      cases hr₁
    obtain ⟨r₂, hr₂, h₂⟩ := h.register hnew
    rw [hr₁] at hr₂
    cases hr₂
    have hheld := ih h₂ hrest
    rw [List.reverse_cons, List.append_assoc, List.singleton_append]
    exact hheld

/-- The modules that a registry holds may be given in any order. -/
theorem Holds.perm {r : Registry} {ms ms' : List Module} (h : r.Holds ms) (hperm : ms.Perm ms') :
    r.Holds ms' := by
  refine ⟨(hperm.map Module.id).nodup_iff.1 h.distinct, ?_⟩
  intro id m
  rw [h.get?_iff, hperm.mem_iff]

/-- Two registries that hold the same modules are equal. -/
theorem Holds.unique {r r' : Registry} {ms : List Module} (h : r.Holds ms) (h' : r'.Holds ms) :
    r = r' := by
  obtain ⟨d⟩ := r
  obtain ⟨d'⟩ := r'
  congr 1
  apply Dict.ext_get?
  intro id
  ext m
  exact (h.get?_iff id m).trans (h'.get?_iff id m).symm

section Held

variable {r : Registry} {ms : List Module} (h : r.Holds ms)

include h

theorem Holds.mem_ids {id : String} : id ∈ r.ids ↔ ∃ m ∈ ms, m.id = id := by
  unfold ids
  rw [Dict.mem_keys]
  exact exists_congr fun m => h.get?_iff id m

theorem Holds.get?_id {m : Module} (hm : m ∈ ms) : r.get? m.id = some m :=
  (h.get?_iff m.id m).2 ⟨hm, rfl⟩

theorem Holds.dependencies_id {m : Module} (hm : m ∈ ms) :
    r.dependencies m.id = m.descriptor.dependencies := by
  unfold dependencies
  rw [h.get?_id hm]

theorem Holds.dependsOn_iff {a b : String} : DependsOn ms a b ↔ b ∈ r.dependencies a := by
  constructor
  · intro hgiven
    obtain ⟨m, hm, rfl, hb⟩ := hgiven
    rw [h.dependencies_id hm]
    exact hb
  · intro hb
    unfold dependencies at hb
    split at hb
    · next m hget =>
      obtain ⟨hm, hid⟩ := (h.get?_iff a m).1 hget
      exact ⟨m, hm, hid, hb⟩
    · exact absurd hb (by simp)

/-- The entries of the registry stand under the identifiers of their modules. -/
theorem Holds.values_map_id : r.modules.values.map Module.id = r.ids := by
  unfold Dict.values ids Dict.keys
  rw [List.map_map]
  refine List.map_congr_left ?_
  rintro ⟨key, m⟩ hmem
  exact ((h.get?_iff key m).1 (Dict.mem_toList.1 hmem)).2

theorem Holds.mem_values {m : Module} : m ∈ r.modules.values ↔ m ∈ ms := by
  rw [Dict.mem_values]
  constructor
  · intro hgiven
    obtain ⟨key, hkey⟩ := hgiven
    exact ((h.get?_iff key m).1 hkey).1
  · intro hm
    exact ⟨m.id, h.get?_id hm⟩

/-! ## The check of the whole registry -/

theorem Holds.unknownDependency?_eq_none_iff :
    r.unknownDependency? r.ids = none ↔ Declared ms := by
  have hscan : ∀ names : List String, r.unknownDependency? names = none ↔
      ∀ id ∈ names, ∀ d ∈ r.dependencies id, d ∈ r.ids := by
    intro names
    induction names with
    | nil => simp [unknownDependency?]
    | cons id rest ih =>
      rw [List.forall_mem_cons, ← ih]
      simp only [unknownDependency?]
      split
      · next d hfind =>
        have hd : d ∈ r.dependencies id := List.mem_of_find?_eq_some hfind
        have hnot : ¬ d ∈ r.ids := by
          have hfalse := List.find?_some hfind
          rw [ids, Dict.mem_keys, ← Dict.contains_iff]
          simpa using hfalse
        constructor
        · intro hnone
          cases hnone
        · intro hgiven
          obtain ⟨hall, -⟩ := hgiven
          exact absurd (hall d hd) hnot
      · next hfind =>
        rw [iff_and_self]
        intro _ d hd
        have htrue := List.find?_eq_none.1 hfind d hd
        rw [ids, Dict.mem_keys, ← Dict.contains_iff]
        simpa using htrue
  rw [hscan]
  constructor
  · intro hall m hm d hd
    exact h.mem_ids.1 (hall m.id (h.mem_ids.2 ⟨m, hm, rfl⟩) d (by rwa [h.dependencies_id hm]))
  · intro hdecl id hid d hd
    obtain ⟨m, hm, rfl⟩ := h.mem_ids.1 hid
    rw [h.dependencies_id hm] at hd
    exact h.mem_ids.2 (hdecl m hm d hd)

/-- Dependencies among some of the registered modules are dependencies. -/
theorem Holds.acyclic_within (hacyclic : Acyclic ms) (names : List String) :
    ∀ n, ¬ Relation.TransGen (Ordering.DependsWithin r.dependencies names) n n := by
  intro n hcycle
  refine hacyclic n (Relation.TransGen.mono ?_ n n hcycle)
  rintro a b ⟨-, -, hab⟩
  exact h.dependsOn_iff.2 hab

/-- The check succeeds exactly when every dependency is registered and there is no cycle, wanted or
not. -/
theorem Holds.validate_eq_ok_iff : r.validate = .ok () ↔ Declared ms ∧ Acyclic ms := by
  rw [← h.unknownDependency?_eq_none_iff]
  unfold validate
  cases hunknown : r.unknownDependency? r.ids with
  | some found =>
    constructor
    · intro hok
      cases hok
    · intro hgiven
      obtain ⟨hnone, -⟩ := hgiven
      cases hnone
  | none =>
    have hdecl : Declared ms := h.unknownDependency?_eq_none_iff.1 hunknown
    have hordered : ((do let _ ← r.order r.ids) = Except.ok ()) ↔
        ∃ order, Ordering.sort r.dependencies (.ofList r.ids) = .ok order := by
      unfold Registry.order
      cases hsort : Ordering.sort r.dependencies (.ofList r.ids) with
      | ok order => exact ⟨fun _ => ⟨order, rfl⟩, fun _ => rfl⟩
      | error cycle =>
        constructor
        · intro hok
          cases hok
        · intro hgiven
          obtain ⟨order, hok⟩ := hgiven
          cases hok
    refine hordered.trans ⟨?_, ?_⟩
    · intro hgiven
      obtain ⟨order, hsort⟩ := hgiven
      refine ⟨rfl, fun n hcycle => ?_⟩
      refine Ordering.acyclic_of_sort hsort n (Relation.TransGen.mono ?_ n n hcycle)
      rintro a b ⟨m, hm, rfl, hb⟩
      refine ⟨NameSet.mem_ofList.2 (h.mem_ids.2 ⟨m, hm, rfl⟩),
        NameSet.mem_ofList.2 (h.mem_ids.2 (hdecl m hm b hb)), ?_⟩
      rwa [h.dependencies_id hm]
    · intro hgiven
      obtain ⟨-, hacyclic⟩ := hgiven
      obtain ⟨order, hsort, -⟩ := Ordering.sort_of_acyclic (h.acyclic_within hacyclic _)
      exact ⟨order, hsort⟩

/-! ## Runs and arrangements of identifiers -/

/-- The identifiers of the modules that satisfy a test, in ascending order. -/
theorem Holds.selected_ascending (wanted : ModuleDescriptor → Bool) :
    ((r.modules.values.filter fun m => wanted m.descriptor).map Module.id).Pairwise (· < ·) := by
  have hsub : ((r.modules.values.filter fun m => wanted m.descriptor).map Module.id).Sublist
      (r.modules.values.map Module.id) := List.filter_sublist.map Module.id
  rw [h.values_map_id] at hsub
  exact r.modules.keys_ascending.sublist hsub

/-- Registered modules are found again by their identifiers. -/
theorem Holds.filterMap_get? {run : List Module} (hrun : ∀ m ∈ run, m ∈ ms) :
    (run.map Module.id).filterMap r.get? = run := by
  rw [List.filterMap_map]
  induction run with
  | nil => rfl
  | cons m rest ih =>
    rw [List.filterMap_cons, Function.comp_apply, h.get?_id (hrun m List.mem_cons_self),
      ih fun n hn => hrun n (List.mem_cons_of_mem _ hn)]

/-- Identifiers of registered modules lead to modules with these identifiers. -/
theorem Holds.map_id_filterMap {order : List String} (horder : ∀ id ∈ order, id ∈ r.ids) :
    (order.filterMap r.get?).map Module.id = order := by
  induction order with
  | nil => rfl
  | cons id rest ih =>
    obtain ⟨m, hm, rfl⟩ := h.mem_ids.1 (horder id List.mem_cons_self)
    rw [List.filterMap_cons, h.get?_id hm, List.map_cons,
      ih fun n hn => horder n (List.mem_cons_of_mem _ hn)]

/-- The runs of the wanted modules are the arrangements of their identifiers. -/
theorem Holds.runsInOrder_iff {wanted : ModuleDescriptor → Bool} {run : List Module} :
    RunsInOrder ms wanted run ↔ (∀ m ∈ run, m ∈ ms) ∧
      Ordering.Arranges r.dependencies
        ((r.modules.values.filter fun m => wanted m.descriptor).map Module.id)
        (run.map Module.id) := by
  have hinj : ∀ a ∈ ms, ∀ b ∈ ms, a.id = b.id → a = b := fun a ha b hb hid =>
    List.inj_on_of_nodup_map h.distinct ha hb hid
  constructor
  · intro hrun
    have hmem : ∀ m ∈ run, m ∈ ms := fun m hm => ((hrun.mem_iff m).1 hm).1
    refine ⟨hmem, ?_, ?_⟩
    · have hnodup : (run.map Module.id).Nodup :=
        hrun.once.map_on fun a ha b hb hid => hinj a (hmem a ha) b (hmem b hb) hid
      refine (List.perm_ext_iff_of_nodup hnodup
        (nodup_of_ascending (h.selected_ascending wanted))).2 ?_
      intro id
      simp only [List.mem_map, List.mem_filter, hrun.mem_iff, h.mem_values]
    · intro i j hi hj hdep
      rw [List.length_map] at hi hj
      rw [List.getElem_map, List.getElem_map, h.dependencies_id (hmem _ (List.getElem_mem hi))]
        at hdep
      exact hrun.after i j hi hj hdep
  · intro hgiven
    obtain ⟨hmem, hperm, hrespects⟩ := hgiven
    have hnodup : (run.map Module.id).Nodup :=
      hperm.nodup_iff.2 (nodup_of_ascending (h.selected_ascending wanted))
    refine ⟨hnodup.of_map, ?_, ?_⟩
    · intro m
      have hid : m.id ∈ run.map Module.id ↔ _ := hperm.mem_iff
      simp only [List.mem_map, List.mem_filter, h.mem_values] at hid
      constructor
      · intro hm
        obtain ⟨n, ⟨hn, hwanted⟩, hnm⟩ := hid.1 ⟨m, hm, rfl⟩
        have heq : n = m := hinj n hn m (hmem m hm) hnm
        exact heq ▸ ⟨hn, hwanted⟩
      · intro hgiven
        obtain ⟨hm, hwanted⟩ := hgiven
        obtain ⟨n, hn, hnm⟩ := hid.2 ⟨m, ⟨hm, hwanted⟩, rfl⟩
        exact hinj n (hmem n hn) m hm hnm ▸ hn
    · intro i j hi hj hdep
      refine hrespects i j (by simpa using hi) (by simpa using hj) ?_
      rw [List.getElem_map, List.getElem_map, h.dependencies_id (hmem _ (List.getElem_mem hi))]
      exact hdep

/-- Two least runs of the same modules are equal. -/
theorem Holds.leastRun_unique {wanted : ModuleDescriptor → Bool} {a b : List Module}
    (ha : LeastRun ms wanted a) (hb : LeastRun ms wanted b) : a = b := by
  have hids : a.map Module.id = b.map Module.id :=
    Ordering.eq_of_lex_or_eq (ha.least b hb.inOrder) (hb.least a ha.inOrder)
  rw [← h.filterMap_get? (h.runsInOrder_iff.1 ha.inOrder).1, hids,
    h.filterMap_get? (h.runsInOrder_iff.1 hb.inOrder).1]

/-- The least arrangement of the wanted identifiers leads to the least run. -/
theorem Holds.leastRun_of_leastArrangement {wanted : ModuleDescriptor → Bool} {order : List String}
    (horder : Ordering.LeastArrangement r.dependencies
      ((r.modules.values.filter fun m => wanted m.descriptor).map Module.id) order) :
    LeastRun ms wanted (order.filterMap r.get?) := by
  have hids : ∀ id ∈ order, id ∈ r.ids := by
    intro id hid
    obtain ⟨m, hm, rfl⟩ := List.mem_map.1 (horder.arranges.perm.mem_iff.1 hid)
    exact h.mem_ids.2 ⟨m, h.mem_values.1 (List.mem_filter.1 hm).1, rfl⟩
  have hmap : (order.filterMap r.get?).map Module.id = order := h.map_id_filterMap hids
  have hmem : ∀ m ∈ order.filterMap r.get?, m ∈ ms := by
    intro m hm
    obtain ⟨id, -, hget⟩ := List.mem_filterMap.1 hm
    exact ((h.get?_iff id m).1 hget).1
  refine ⟨h.runsInOrder_iff.2 ⟨hmem, ?_⟩, ?_⟩
  · rw [hmap]
    exact horder.arranges
  · intro other hother
    rw [hmap]
    exact horder.least _ (h.runsInOrder_iff.1 hother).2

/-- Without a cycle among the registered modules, the wanted identifiers are sorted. -/
theorem Holds.exists_sort (hacyclic : Acyclic ms) (wanted : ModuleDescriptor → Bool) :
    ∃ order,
      r.order ((r.modules.values.filter fun m => wanted m.descriptor).map Module.id) = .ok order ∧
      Ordering.LeastArrangement r.dependencies
        ((r.modules.values.filter fun m => wanted m.descriptor).map Module.id) order := by
  obtain ⟨order, hsort, hleast⟩ := Ordering.sort_of_acyclic (h.acyclic_within hacyclic
    (NameSet.ofList ((r.modules.values.filter fun m => wanted m.descriptor).map Module.id)).toList)
  rw [NameSet.toList_ofList (h.selected_ascending wanted)] at hleast
  refine ⟨order, ?_, hleast⟩
  unfold Registry.order
  rw [hsort]
  rfl

/-- The order of the wanted modules exists exactly when the registry passes its check, and then it
is the least run. A selection cannot fail on its own: dependencies outside it ask for nothing, and
inside it they have no cycle that the whole registry has not. -/
theorem Holds.ordered_eq_ok_iff {wanted : ModuleDescriptor → Bool} {run : List Module} :
    r.ordered wanted = .ok run ↔ (Declared ms ∧ Acyclic ms) ∧ LeastRun ms wanted run := by
  have hcheck := h.validate_eq_ok_iff
  unfold ordered
  cases hvalid : r.validate with
  | error e =>
    rw [hvalid] at hcheck
    constructor
    · intro hok
      cases hok
    · intro hgiven
      obtain ⟨hvalid', -⟩ := hgiven
      cases hcheck.2 hvalid'
  | ok u =>
    have hgood : Declared ms ∧ Acyclic ms := hcheck.1 hvalid
    obtain ⟨order, hsort, hleast⟩ := h.exists_sort hgood.2 wanted
    have hrun := h.leastRun_of_leastArrangement hleast
    have hok : (do
        let o ← r.order ((r.modules.values.filter fun m => wanted m.descriptor).map Module.id)
        return o.filterMap r.get?) = Except.ok (order.filterMap r.get?) := by
      rw [hsort]
      rfl
    show (do
        let o ← r.order ((r.modules.values.filter fun m => wanted m.descriptor).map Module.id)
        return o.filterMap r.get?) = Except.ok run ↔ _
    rw [hok]
    constructor
    · intro heq
      exact ⟨hgood, Except.ok.inj heq ▸ hrun⟩
    · intro hgiven
      obtain ⟨-, hother⟩ := hgiven
      rw [h.leastRun_unique hrun hother]

/-- Whether the wanted modules can be put in order does not depend on which are wanted. -/
theorem Holds.exists_ordered_iff {wanted : ModuleDescriptor → Bool} :
    (∃ run, r.ordered wanted = .ok run) ↔ Declared ms ∧ Acyclic ms := by
  constructor
  · intro hgiven
    obtain ⟨run, hrun⟩ := hgiven
    exact (h.ordered_eq_ok_iff.1 hrun).1
  · intro hgood
    obtain ⟨order, -, hleast⟩ := h.exists_sort hgood.2 wanted
    exact ⟨_, h.ordered_eq_ok_iff.2 ⟨hgood, h.leastRun_of_leastArrangement hleast⟩⟩

end Held

/-! ## Schedules -/

/-- The registry is scheduled, and listed, exactly when all dependencies of its modules are
registered and free of cycles. The schedule of a profile is the least run of its modules whose
switch, by default the module's own, is on; the list is the least run of all its modules. -/
structure SchedulesLeastRuns (r : Registry) (ms : List Module) : Prop where
  schedule_ok_iff : ∀ (profile : Profile) (s : Settings),
    (∃ run, r.schedule profile s = .ok run) ↔ Declared ms ∧ Acyclic ms
  schedule_least : ∀ (profile : Profile) (s : Settings) (run : List Module),
    r.schedule profile s = .ok run →
      LeastRun ms
        (fun d => d.profiles.contains profile && s.bool (d.id ++ ".enabled") d.enabledByDefault)
        run
  list_ok_iff : ∀ profile : Profile,
    (∃ ds, r.list profile = .ok ds) ↔ Declared ms ∧ Acyclic ms
  list_least : ∀ (profile : Profile) (ds : List ModuleDescriptor), r.list profile = .ok ds →
    ∃ run, LeastRun ms (fun d => d.profiles.contains profile) run ∧
      ds = run.map Module.descriptor

theorem list_eq_ok_iff {r : Registry} {profile : Profile} {ds : List ModuleDescriptor} :
    r.list profile = .ok ds ↔
      ∃ run, r.ordered (fun d => d.profiles.contains profile) = .ok run ∧
        ds = run.map Module.descriptor := by
  unfold list
  cases r.ordered fun d => d.profiles.contains profile with
  | error e =>
    constructor
    · intro hds
      cases hds
    · intro hgiven
      obtain ⟨run, hrun, -⟩ := hgiven
      cases hrun
  | ok run =>
    constructor
    · intro hds
      exact ⟨run, rfl, (Except.ok.inj hds).symm⟩
    · intro hgiven
      obtain ⟨run', hrun', rfl⟩ := hgiven
      cases hrun'
      rfl

theorem Holds.schedulesLeastRuns {r : Registry} {ms : List Module} (h : r.Holds ms) :
    r.SchedulesLeastRuns ms where
  schedule_ok_iff _ _ := h.exists_ordered_iff
  schedule_least _ _ _ hrun := (h.ordered_eq_ok_iff.1 hrun).2
  list_ok_iff profile := by
    have hordered : (∃ run, r.ordered (fun d => d.profiles.contains profile) = .ok run) ↔
        Declared ms ∧ Acyclic ms := h.exists_ordered_iff
    rw [← hordered]
    constructor
    · intro hgiven
      obtain ⟨ds, hds⟩ := hgiven
      obtain ⟨run, hrun, -⟩ := list_eq_ok_iff.1 hds
      exact ⟨run, hrun⟩
    · intro hgiven
      obtain ⟨run, hrun⟩ := hgiven
      exact ⟨_, list_eq_ok_iff.2 ⟨run, hrun, rfl⟩⟩
  list_least profile ds hds := by
    obtain ⟨run, hrun, hmap⟩ := list_eq_ok_iff.1 hds
    exact ⟨run, (h.ordered_eq_ok_iff.1 hrun).2, hmap⟩

/-- Modules with distinct identifiers make one registry, whatever the order of their registration,
and it schedules and lists their least runs. -/
theorem registerAll_schedules_least_runs (ms : List Module)
    (hdistinct : (ms.map Module.id).Nodup) :
    ∃ r : Registry, (∀ ms', ms'.Perm ms → registerAll {} ms' = .ok r) ∧
      r.SchedulesLeastRuns ms := by
  have hregister : ∀ ms', ms'.Perm ms → ∃ r, registerAll {} ms' = .ok r ∧ r.Holds ms := by
    intro ms' hperm
    have hdistinct' : (ms'.map Module.id).Nodup := (hperm.map Module.id).nodup_iff.2 hdistinct
    obtain ⟨r, hr, hholds⟩ := holds_empty.registerAll hdistinct' (by simp)
    rw [List.append_nil] at hholds
    exact ⟨r, hr, hholds.perm ((List.reverse_perm ms').trans hperm)⟩
  obtain ⟨r, -, hholds⟩ := hregister ms (.refl ms)
  refine ⟨r, ?_, hholds.schedulesLeastRuns⟩
  intro ms' hperm
  obtain ⟨r', hr', hholds'⟩ := hregister ms' hperm
  rw [hr', hholds'.unique hholds]

/-- Three modules of which one names its dependency twice and one is switched off. -/
theorem registerAll_schedules_least_runs_three :
    let module (id : String) (dependencies : List String) (on : Bool) : Module :=
      ⟨{ id, dependencies, enabledByDefault := on }, pure ()⟩
    let ms := [module "a" ["c", "c"] true, module "b" ["c"] false, module "c" [] true]
    (ms.map Module.id).Nodup ∧ ∃ r : Registry,
      ((∀ ms', ms'.Perm ms → registerAll {} ms' = .ok r) ∧ r.SchedulesLeastRuns ms) ∧
      (r.schedule .jit {}).toOption.map (·.map Module.id) = some ["c", "a"] := by
  intro module ms
  have hdistinct : (ms.map Module.id).Nodup := by decide
  refine ⟨hdistinct, ?_⟩
  obtain ⟨r, hr⟩ := registerAll_schedules_least_runs ms hdistinct
  refine ⟨r, hr, ?_⟩
  have hms : registerAll {} ms = .ok r := hr.1 ms (.refl ms)
  have hrun : (registerAll {} ms).toOption.bind
      (fun r => (r.schedule .jit {}).toOption.map (·.map Module.id)) = some ["c", "a"] := by
    decide +kernel
  rw [hms] at hrun
  exact hrun

end Registry

end BuildAhead
