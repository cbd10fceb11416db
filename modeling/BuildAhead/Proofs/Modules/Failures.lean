import BuildAhead.Proofs.Modules.Cycles
import BuildAhead.Proofs.Modules.Scheduling
import Mathlib.Data.List.Permutation

set_option autoImplicit false

/-!
# Modules: why there is no schedule

A registry that is not scheduled, or not listed, fails in its check, so with the same error for all
profiles and settings. The error names the least module with a dependency that is not registered;
when there is none, it gives a cycle of dependencies.
-/

namespace BuildAhead

/-- An error says why modules cannot be put in order. -/
inductive Disordered (ms : List Module) : BuildError → Prop where
  /-- A module declares a dependency that no module satisfies, while all before it in its list are
  satisfied, as are all dependencies of modules with smaller identifiers. -/
  | undeclared (m : Module) (before after : List String) (d : String) :
      m ∈ ms → m.descriptor.dependencies = before ++ d :: after →
      (∀ b ∈ before, b ∈ ms.map Module.id) → d ∉ ms.map Module.id →
      (∀ n ∈ ms, (∃ u ∈ n.descriptor.dependencies, u ∉ ms.map Module.id) → m.id ≤ n.id) →
      Disordered ms (.unknownDependency m.id d)
  /-- Every dependency is declared, and these depend on each other in a circle. -/
  | cyclic (c : List String) :
      Declared ms → Ordering.IsCycle (DependsOn ms) c → Disordered ms (.cyclicDependency c)

namespace Registry

/-- The scan for unregistered dependencies stops at the first identifier that has one, with the
first one that it has. -/
theorem unknownDependency?_eq_some {r : Registry} {names : List String} {id d : String}
    (h : r.unknownDependency? names = some (id, d)) :
    ∃ before after, names = before ++ id :: after ∧
      (∀ n ∈ before, ∀ b ∈ r.dependencies n, b ∈ r.ids) ∧
      ∃ earlier later, r.dependencies id = earlier ++ d :: later ∧
        (∀ b ∈ earlier, b ∈ r.ids) ∧ d ∉ r.ids := by
  have hids : ∀ b, b ∈ r.ids ↔ r.modules.contains b = true := by
    intro b
    rw [ids, Dict.mem_keys, Dict.contains_iff]
  induction names with
  | nil => cases h
  | cons first rest ih =>
    simp only [unknownDependency?] at h
    split at h
    · next d' hfind =>
      cases h
      obtain ⟨hd, earlier, later, hsplit, hearlier⟩ := List.find?_eq_some_iff_append.1 hfind
      refine ⟨[], rest, rfl, by simp, earlier, later, hsplit, ?_, ?_⟩
      · intro b hb
        rw [hids]
        simpa using hearlier b hb
      · rw [hids]
        simpa using hd
    · next hnone =>
      obtain ⟨before, after, rfl, hbefore, hfound⟩ := ih h
      refine ⟨first :: before, after, rfl, ?_, hfound⟩
      intro n hn b hb
      rcases List.mem_cons.1 hn with rfl | hn
      · rw [hids]
        simpa using List.find?_eq_none.1 hnone b hb
      · exact hbefore n hn b hb

section Held

variable {r : Registry} {ms : List Module} (h : r.Holds ms)

include h

theorem Holds.mem_map_id {id : String} : id ∈ ms.map Module.id ↔ id ∈ r.ids := by
  rw [h.mem_ids, List.mem_map]

/-- A cycle of dependencies among registered identifiers is one of the modules. -/
theorem Holds.isCycle {names c : List String}
    (hc : Ordering.IsCycle (Ordering.DependsWithin r.dependencies names) c) :
    Ordering.IsCycle (DependsOn ms) c := by
  refine hc.mono ?_
  rintro a b ⟨-, -, hab⟩
  exact h.dependsOn_iff.2 hab

/-- The check of the whole registry gives the reason for which it fails. -/
theorem Holds.disordered_of_validate {e : BuildError} (hvalidate : r.validate = .error e) :
    Disordered ms e := by
  unfold validate at hvalidate
  cases hunknown : r.unknownDependency? r.ids with
  | some found =>
    obtain ⟨id, d⟩ := found
    rw [hunknown] at hvalidate
    cases hvalidate
    obtain ⟨smaller, greater, hids, hsmaller, before, after, hsplit, hbefore, hd⟩ :=
      unknownDependency?_eq_some hunknown
    obtain ⟨m, hm, rfl⟩ := h.mem_ids.1 (hids ▸ List.mem_append_right _ List.mem_cons_self)
    rw [h.dependencies_id hm] at hsplit
    refine .undeclared m before after d hm hsplit ?_ ?_ ?_
    · exact fun b hb => h.mem_map_id.2 (hbefore b hb)
    · exact fun hmem => hd (h.mem_map_id.1 hmem)
    · rintro n hn ⟨u, hu, hunregistered⟩
      have hmem : n.id ∈ smaller ++ m.id :: greater := hids ▸ h.mem_ids.2 ⟨n, hn, rfl⟩
      have hasc : (smaller ++ m.id :: greater).Pairwise (· < ·) :=
        hids ▸ r.modules.keys_ascending
      rcases List.mem_append.1 hmem with hin | hin
      · refine absurd (h.mem_map_id.2 (hsmaller n.id hin u ?_)) hunregistered
        rwa [h.dependencies_id hn]
      · rcases List.mem_cons.1 hin with heq | hin
        · exact heq ▸ String.le_refl _
        · have hafter := (List.pairwise_append.1 hasc).2.1
          have hlt : m.id < n.id := (List.pairwise_cons.1 hafter).1 _ hin
          exact String.not_lt.1 fun hgt => String.lt_irrefl _ (String.lt_trans hlt hgt)
  | none =>
    rw [hunknown] at hvalidate
    have horder : r.order r.ids = .error e := by
      rcases bind_eq_error hvalidate with horder | ⟨order, -, hrest⟩
      · exact horder
      · cases hrest
    obtain ⟨c, rfl, hsort⟩ := order_eq_error horder
    exact .cyclic c (h.unknownDependency?_eq_none_iff.1 hunknown)
      (h.isCycle (Ordering.search_of_sort_eq_error hsort).2)

/-- Modules are put in order unless the check of the whole registry fails. -/
theorem Holds.validate_of_ordered {wanted : ModuleDescriptor → Bool} {e : BuildError}
    (hordered : r.ordered wanted = .error e) : r.validate = .error e := by
  cases hvalidate : r.validate with
  | ok u =>
    obtain ⟨run, hrun⟩ := h.exists_ordered_iff.2 (h.validate_eq_ok_iff.1 hvalidate)
    cases hrun.symm.trans hordered
  | error e' =>
    unfold ordered at hordered
    rw [hvalidate] at hordered
    cases hordered
    rfl

end Held

/-! ## Every failure has its cause -/

/-- A registry that is not scheduled, or not listed, says why. -/
structure FailsForCause (r : Registry) (ms : List Module) : Prop where
  schedule : ∀ (profile : Profile) (s : Settings) (e : BuildError),
    r.schedule profile s = .error e → Disordered ms e
  list : ∀ (profile : Profile) (e : BuildError), r.list profile = .error e → Disordered ms e

theorem list_eq_error {r : Registry} {profile : Profile} {e : BuildError}
    (h : r.list profile = .error e) :
    r.ordered (fun d => d.profiles.contains profile) = .error e := by
  unfold list at h
  cases hordered : r.ordered fun d => d.profiles.contains profile with
  | ok run =>
    rw [hordered] at h
    cases h
  | error e' =>
    rw [hordered] at h
    cases h
    rfl

/-- Whatever was registered, a schedule or a list that fails says why, and the search behind it
comes to an end on its own for all dependencies. -/
theorem registerAll_failsForCause {ms : List Module} {r : Registry}
    (hregistered : registerAll {} ms = .ok r) :
    r.FailsForCause ms ∧ ∀ deps names, Ordering.SearchesCycle deps names := by
  have hheld : r.Holds ms := by
    have hall := holds_empty.of_registerAll hregistered
    rw [List.append_nil] at hall
    exact hall.perm (List.reverse_perm ms)
  refine ⟨⟨?_, ?_⟩, Ordering.searchesCycle⟩
  · intro profile s e hschedule
    exact hheld.disordered_of_validate (hheld.validate_of_ordered hschedule)
  · intro profile e hlist
    exact hheld.disordered_of_validate (hheld.validate_of_ordered (list_eq_error hlist))

/-- Two modules that depend on each other, one that is behind them and has no part in the cycle, and
one that is before them. -/
theorem registerAll_failsForCause_of_two :
    let module (id : String) (dependencies : List String) : Module :=
      ⟨{ id, dependencies }, pure ()⟩
    let ms := [module "a" ["b"], module "b" ["d", "c"], module "c" ["b", "b"], module "d" []]
    ∃ r : Registry, registerAll {} ms = .ok r ∧
      (r.FailsForCause ms ∧ ∀ deps names, Ordering.SearchesCycle deps names) ∧
      r.schedule .jit {} = .error (.cyclicDependency ["b", "c"]) ∧
      Ordering.IsCycle (DependsOn ms) ["b", "c"] := by
  intro module ms
  have hdistinct : (ms.map Module.id).Nodup := by decide
  obtain ⟨r, hr, -⟩ := holds_empty.registerAll hdistinct (by simp)
  have hcauses := registerAll_failsForCause hr
  have hcycle : (registerAll {} ms).toOption.map
      (fun r => (r.schedule .jit {}).map fun _ => ()) =
        some (.error (.cyclicDependency ["b", "c"])) := by
    cbv
  rw [hr] at hcycle
  have hfails : r.schedule .jit {} = .error (.cyclicDependency ["b", "c"]) := by
    have hfound : ((r.schedule .jit {}).map fun _ => ()) =
        .error (.cyclicDependency ["b", "c"]) := Option.some.inj hcycle
    cases hschedule : r.schedule .jit {} with
    | error e =>
      rw [hschedule] at hfound
      cases hfound
      rfl
    | ok modules =>
      rw [hschedule] at hfound
      cases hfound
  refine ⟨r, hr, hcauses, hfails, ?_⟩
  cases hcauses.1.schedule _ _ _ hfails with
  | cyclic _ _ hc => exact hc

end Registry

end BuildAhead
