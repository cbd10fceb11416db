import BuildAhead.Modules.Ordering
import BuildAhead.Proofs.Collection.Dict
import Mathlib.Data.Fintype.Card
import Mathlib.Data.Fintype.EquivFin

set_option autoImplicit false

/-!
# Modules: the least order that respects dependencies

`Ordering.place` takes the least ready name again and again, where a name is ready when none of the
names that are left is a dependency of it. Two facts carry the theory. Whatever arrangement of the
names respects the dependencies begins with a ready name, so the greedy choice is never behind it;
and what is stuck at the end holds a dependency of each of its members, so it is empty exactly when
the dependencies have no cycle.
-/

namespace BuildAhead.Ordering

/-! ## Arrangements -/

/-- Every name comes after those of its dependencies that stand in the same list. -/
def Respects (deps : Dependencies) (order : List String) : Prop :=
  ∀ (i j : Nat) (hi : i < order.length) (hj : j < order.length),
    order[j] ∈ deps order[i] → j < i

/-- The names, each as often as it is given, in an order that respects the dependencies. -/
structure Arranges (deps : Dependencies) (names order : List String) : Prop where
  perm : order.Perm names
  respects : Respects deps order

/-- An arrangement that is before all others in the order of lists, position by position. -/
structure LeastArrangement (deps : Dependencies) (names order : List String) : Prop where
  arranges : Arranges deps names order
  least : ∀ other, Arranges deps names other → List.Lex (· < ·) order other ∨ order = other

theorem respects_nil (deps : Dependencies) : Respects deps [] := by
  intro i j hi
  exact absurd hi (Nat.not_lt_zero i)

/-- The first name of a list that respects the dependencies has none of them in the list. -/
theorem respects_cons {deps : Dependencies} {a : String} {rest : List String} :
    Respects deps (a :: rest) ↔ (∀ d ∈ deps a, d ∉ a :: rest) ∧ Respects deps rest := by
  constructor
  · intro h
    refine ⟨?_, ?_⟩
    · intro d hd hmem
      obtain ⟨j, hj, hjd⟩ := List.getElem_of_mem hmem
      have hlt : j < 0 := h 0 j (Nat.zero_lt_succ _) hj (by simpa [hjd] using hd)
      exact Nat.not_lt_zero j hlt
    · intro i j hi hj hdep
      have hlt := h (i + 1) (j + 1) (Nat.succ_lt_succ hi) (Nat.succ_lt_succ hj) (by simpa using hdep)
      exact Nat.lt_of_succ_lt_succ hlt
  · rintro ⟨hfirst, hrest⟩ i j hi hj hdep
    cases i with
    | zero => exact absurd (List.getElem_mem hj) (hfirst _ (by simpa using hdep))
    | succ i =>
      cases j with
      | zero => exact Nat.zero_lt_succ i
      | succ j =>
        have hlt := hrest i j (Nat.lt_of_succ_lt_succ hi) (Nat.lt_of_succ_lt_succ hj)
          (by simpa using hdep)
        exact Nat.succ_lt_succ hlt

/-- Names may be left out of a list that respects the dependencies. -/
theorem Respects.sublist {deps : Dependencies} {part order : List String}
    (h : Respects deps order) (hsub : part.Sublist order) : Respects deps part := by
  induction hsub with
  | slnil => exact h
  | cons a _ ih => exact ih (respects_cons.1 h).2
  | cons_cons a hsub ih =>
    obtain ⟨hfirst, hrest⟩ := respects_cons.1 h
    refine respects_cons.2 ⟨?_, ih hrest⟩
    intro d hd hmem
    exact hfirst d hd ((hsub.cons_cons a).subset hmem)

/-- Two lists of which neither is behind the other are equal. -/
theorem eq_of_lex_or_eq {a b : List String} (hab : List.Lex (· < ·) a b ∨ a = b)
    (hba : List.Lex (· < ·) b a ∨ b = a) : a = b := by
  rcases hab with hab | hab
  · rcases hba with hba | hba
    · have haa : List.Lex (· < ·) a a :=
        List.lex_trans (fun h₁ h₂ => String.lt_trans h₁ h₂) hab hba
      exact absurd haa (List.lex_irrefl String.lt_irrefl a)
    · exact hba.symm
  · exact hab

/-! ## Placing names -/

/-- Whether none of the names that are left is a dependency of this one. -/
def isReady (deps : Dependencies) (left : List String) (name : String) : Bool :=
  (deps name).all fun d => !left.contains d

/-- The names in order as far as one can be given, and those that cannot be placed. -/
def place (deps : Dependencies) (left : List String) : List String × List String :=
  match h : left.find? (isReady deps left) with
  | none => ([], left)
  | some name =>
    have : (left.erase name).length < left.length := by
      have hm := List.mem_of_find?_eq_some h
      have hpos := List.length_pos_of_mem hm
      rw [List.length_erase_of_mem hm]
      omega
    let (order, stuck) := place deps (left.erase name)
    (name :: order, stuck)
termination_by left.length

theorem isReady_iff {deps : Dependencies} {left : List String} {name : String} :
    isReady deps left name = true ↔ ∀ d ∈ deps name, d ∉ left := by
  simp [isReady]

/-- Every name is either placed or stuck. -/
theorem place_perm (deps : Dependencies) (left : List String) :
    ((place deps left).1 ++ (place deps left).2).Perm left := by
  fun_induction place deps left with
  | case1 left hnone => exact .refl _
  | case2 left name hsome hlt order stuck heq ih =>
    have hmem : name ∈ left := List.mem_of_find?_eq_some hsome
    rw [heq] at ih
    exact (ih.cons name).trans (List.perm_cons_erase hmem).symm

/-- What is placed respects the dependencies: a name is ready when it is taken. -/
theorem place_respects (deps : Dependencies) (left : List String) :
    Respects deps (place deps left).1 := by
  fun_induction place deps left with
  | case1 left hnone => exact respects_nil deps
  | case2 left name hsome hlt order stuck heq ih =>
    have hready : ∀ d ∈ deps name, d ∉ left := isReady_iff.1 (List.find?_some hsome)
    have hmem : name ∈ left := List.mem_of_find?_eq_some hsome
    have hperm := place_perm deps (left.erase name)
    rw [heq] at ih hperm
    refine respects_cons.2 ⟨?_, ih⟩
    intro d hd hin
    rcases List.mem_cons.1 hin with rfl | hin
    · exact hready d hd hmem
    · have herase : d ∈ left.erase name := hperm.subset (List.mem_append_left _ hin)
      exact hready d hd (List.mem_of_mem_erase herase)

/-- Each name that is stuck depends on one that is stuck. -/
theorem exists_dep_of_stuck (deps : Dependencies) (left : List String) :
    ∀ n ∈ (place deps left).2, ∃ d ∈ deps n, d ∈ (place deps left).2 := by
  fun_induction place deps left with
  | case1 left hnone =>
    intro n hn
    have hnot : ¬ isReady deps left n = true := by
      simpa using List.find?_eq_none.1 hnone n hn
    rw [isReady_iff] at hnot
    push Not at hnot
    exact hnot
  | case2 left name hsome hlt order stuck heq ih =>
    rw [heq] at ih
    exact ih

/-- A list that respects the dependencies begins with a ready name. -/
theorem isReady_of_respects_cons {deps : Dependencies} {left rest : List String} {a : String}
    (hperm : (a :: rest).Perm left) (h : Respects deps (a :: rest)) :
    isReady deps left a = true := by
  refine isReady_iff.2 fun d hd hmem => ?_
  exact (respects_cons.1 h).1 d hd (hperm.mem_iff.2 hmem)

/-- In an ascending list no name that satisfies a test is before the first that does. -/
theorem le_of_find?_of_ascending {p : String → Bool} {left : List String} {a b : String}
    (hasc : left.Pairwise (· < ·)) (ha : left.find? p = some a) (hb : b ∈ left)
    (hpb : p b = true) : a < b ∨ a = b := by
  obtain ⟨-, before, after, rfl, hbefore⟩ := List.find?_eq_some_iff_append.1 ha
  rcases List.mem_append.1 hb with hb | hb
  · have hfalse : (!p b) = true := hbefore b hb
    rw [hpb] at hfalse
    exact absurd hfalse (by decide)
  · rcases List.mem_cons.1 hb with rfl | hb
    · exact .inr rfl
    · have hafter := (List.pairwise_append.1 hasc).2.1
      exact .inl ((List.pairwise_cons.1 hafter).1 b hb)

/-- Where the names can be arranged at all, every name is placed, and no arrangement is before the
order in which they are placed. The exchange: the other arrangement begins with a ready name, so
with the one that was taken or a greater one. -/
theorem place_least {deps : Dependencies} {left : List String} (hasc : left.Pairwise (· < ·))
    {other : List String} (h : Arranges deps left other) :
    (place deps left).2 = [] ∧
      (List.Lex (· < ·) (place deps left).1 other ∨ (place deps left).1 = other) := by
  fun_induction place deps left generalizing other with
  | case1 left hnone =>
    cases other with
    | nil => exact ⟨h.perm.symm.eq_nil, .inr rfl⟩
    | cons a rest =>
      have hmem : a ∈ left := h.perm.mem_iff.1 List.mem_cons_self
      have hready := isReady_of_respects_cons h.perm h.respects
      exact absurd hready (List.find?_eq_none.1 hnone a hmem)
  | case2 left name hsome hlt order stuck heq ih =>
    cases other with
    | nil =>
      have hmem : name ∈ left := List.mem_of_find?_eq_some hsome
      rw [h.perm.symm.eq_nil] at hmem
      exact absurd hmem (by simp)
    | cons a rest =>
      have hmem : a ∈ left := h.perm.mem_iff.1 List.mem_cons_self
      have hready := isReady_of_respects_cons h.perm h.respects
      rw [heq] at ih
      have hrest : Arranges deps (left.erase name) ((a :: rest).erase name) :=
        ⟨h.perm.erase name, h.respects.sublist List.erase_sublist⟩
      obtain ⟨hstuck, hleast⟩ := ih (hasc.sublist List.erase_sublist) hrest
      refine ⟨hstuck, ?_⟩
      rcases le_of_find?_of_ascending hasc hsome hmem hready with hna | rfl
      · exact .inl (.rel hna)
      · rw [List.erase_cons_head] at hleast
        exact hleast.imp .cons (congrArg (name :: ·))

/-! ## Cycles -/

/-- A name of the list depends on a name of the list. -/
def DependsWithin (deps : Dependencies) (names : List String) (a b : String) : Prop :=
  a ∈ names ∧ b ∈ names ∧ b ∈ deps a

/-- Along dependencies inside a list that respects them, places only go down. -/
theorem Respects.idxOf_lt {deps : Dependencies} {order : List String} (h : Respects deps order)
    {a b : String} (hab : Relation.TransGen (DependsWithin deps order) a b) :
    order.idxOf b < order.idxOf a := by
  have hstep : ∀ x y, DependsWithin deps order x y → order.idxOf y < order.idxOf x := by
    rintro x y ⟨hx, hy, hxy⟩
    have hix := List.idxOf_lt_length_of_mem hx
    have hiy := List.idxOf_lt_length_of_mem hy
    refine h _ _ hix hiy ?_
    rw [List.getElem_idxOf hix, List.getElem_idxOf hiy]
    exact hxy
  induction hab with
  | single hab => exact hstep _ _ hab
  | tail _ hbc ih => exact Nat.lt_trans (hstep _ _ hbc) ih

/-- Names of which each depends on one of them have a cycle: without one, the names would have a
first one in the order of the dependencies. -/
theorem exists_cycle_of_stuck {deps : Dependencies} {names : List String} (hne : names ≠ [])
    (hstuck : ∀ n ∈ names, ∃ d ∈ deps n, d ∈ names) :
    ∃ n, Relation.TransGen (DependsWithin deps names) n n := by
  by_contra hacyclic
  push Not at hacyclic
  let before : { n // n ∈ names } → { n // n ∈ names } → Prop := fun b a =>
    Relation.TransGen (DependsWithin deps names) a.1 b.1
  have : IsTrans _ before := ⟨fun _ _ _ hxy hyz => hyz.trans hxy⟩
  have : Std.Irrefl before := ⟨fun x hx => hacyclic x.1 hx⟩
  have hwf : WellFounded before := Finite.wellFounded_of_trans_of_irrefl before
  have hnone : ∀ x : { n // n ∈ names }, False := by
    intro x
    induction x using hwf.induction with
    | _ x ih =>
      obtain ⟨d, hd, hdn⟩ := hstuck x.1 x.2
      exact ih ⟨d, hdn⟩ (.single ⟨x.2, hdn, hd⟩)
  obtain ⟨first, hfirst⟩ := List.exists_mem_of_ne_nil names hne
  exact hnone ⟨first, hfirst⟩

/-- Every name is placed exactly when the dependencies among the names have no cycle. -/
theorem place_snd_eq_nil_iff {deps : Dependencies} {left : List String} :
    (place deps left).2 = [] ↔ ∀ n, ¬ Relation.TransGen (DependsWithin deps left) n n := by
  have hperm := place_perm deps left
  constructor
  · intro hstuck n hcycle
    rw [hstuck, List.append_nil] at hperm
    refine Nat.lt_irrefl _
      ((place_respects deps left).idxOf_lt (Relation.TransGen.mono ?_ n n hcycle))
    rintro x y ⟨hx, hy, hxy⟩
    exact ⟨hperm.mem_iff.2 hx, hperm.mem_iff.2 hy, hxy⟩
  · intro hacyclic
    by_contra hne
    obtain ⟨n, hcycle⟩ := exists_cycle_of_stuck hne (exists_dep_of_stuck deps left)
    refine hacyclic n (Relation.TransGen.mono ?_ n n hcycle)
    rintro x y ⟨hx, hy, hxy⟩
    have hsub : ∀ z ∈ (place deps left).2, z ∈ left := fun z hz =>
      hperm.subset (List.mem_append_right _ hz)
    exact ⟨hsub x hx, hsub y hy, hxy⟩

end BuildAhead.Ordering
