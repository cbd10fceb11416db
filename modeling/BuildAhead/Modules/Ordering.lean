import BuildAhead.Collection.Dict
import BuildAhead.Number.Sum

set_option autoImplicit false

/-!
# Modules: ordering

Puts names into an order in which each comes after those that it depends on. Every name has a
counter of the dependencies that it waits for, and the least name that waits for nothing is taken
next. When names are left that wait for each other, there is a cycle among them, which a depth-first
search finds.
-/

namespace BuildAhead.Ordering

/-- The direct dependencies of a name. -/
abbrev Dependencies : Type := String → List String

/-! ## What the names wait for -/

/-- The pairs of a name and one of its dependencies among the names. A dependency that is declared
twice is there twice. -/
def edges (deps : Dependencies) (names : NameSet) : List (String × String) :=
  names.toList.flatMap fun name => ((deps name).filter names.contains).map fun d => (name, d)

/-- How many dependencies each name waits for, and which names wait for each. -/
structure Waits where
  counts : Dict Nat
  dependents : Dict (List String)
  deriving Repr

/-- A name waits for one more dependency. -/
def Waits.add (w : Waits) (edge : String × String) : Waits where
  counts := w.counts.alter edge.1 fun count => count.getD 0 + 1
  dependents := w.dependents.alter edge.2 fun names => names.getD [] ++ [edge.1]

/-- What the names wait for before the first of them is taken. -/
def waits (deps : Dependencies) (names : NameSet) : Waits :=
  (edges deps names).foldl Waits.add ⟨.ofList (names.toList.map fun name => (name, 0)), ∅⟩

/-! ## Taking the names -/

/-- The counters, and the names that wait for nothing and were not taken. -/
structure Frontier where
  counts : Dict Nat
  ready : NameSet
  deriving Repr

namespace Frontier

/-- A name waits for one dependency less. It is ready when that was the last. -/
def release (f : Frontier) (name : String) : Frontier :=
  match f.counts.get? name with
  | none => f
  -- a name is never released more often than it waits, so this counter is not met
  | some 0 => f
  | some 1 => ⟨f.counts.insert name 0, f.ready.insert name⟩
  | some (count + 2) => { f with counts := f.counts.insert name (count + 1) }

/-- How much is ahead: what is still waited for, and the names that are ready. -/
def ahead (f : Frontier) : Nat := sumOf f.counts.values + f.ready.size

/-- Less is waited for when a counter goes down. -/
theorem sumOf_values_insert {counts : Dict Nat} {name : String} {old new : Nat}
    (h : counts.get? name = some old) :
    sumOf (counts.insert name new).values + old = sumOf counts.values + new := by
  have hentries : ∀ l : List (String × Nat), l.Pairwise KeyBefore →
      Dict.lookup name l = some old →
        sumOf ((Dict.alterEntries name (fun _ => new) l).map (·.2)) + old =
          sumOf (l.map (·.2)) + new := by
    intro l hl hlookup
    induction l with
    | nil => cases hlookup
    | cons e rest ih =>
      obtain ⟨key, count⟩ := e
      obtain ⟨hkey, hrest⟩ := List.pairwise_cons.1 hl
      by_cases heq : key = name
      · subst heq
        simp only [Dict.lookup, if_true, Option.some.injEq] at hlookup
        subst hlookup
        simp only [Dict.alterEntries, String.lt_irrefl, if_false, if_true, List.map_cons, sumOf]
        omega
      · have hafter : ¬ name < key := Dict.not_lt_of_lookup hl hlookup
        simp only [Dict.lookup, heq, if_false] at hlookup
        have hne : ¬ name = key := fun h => heq h.symm
        have hsum := ih hrest hlookup
        simp only [Dict.alterEntries, hafter, hne, if_false, List.map_cons, sumOf]
        omega
  exact hentries counts.entries counts.ascending h

/-- Nothing more is ahead after a name waits for less. -/
theorem ahead_release_le (f : Frontier) (name : String) : (f.release name).ahead ≤ f.ahead := by
  unfold release
  split
  · exact Nat.le_refl _
  · exact Nat.le_refl _
  · next hcount =>
    have hsum : sumOf (f.counts.insert name 0).values + 1 = sumOf f.counts.values + 0 :=
      sumOf_values_insert hcount
    have hsize : (f.ready.insert name).size ≤ f.ready.size + 1 :=
      NameSet.length_insertName_le name f.ready.toList
    simp only [ahead]
    omega
  · next count hcount =>
    have hsum : sumOf (f.counts.insert name (count + 1)).values + (count + 2) =
        sumOf f.counts.values + (count + 1) := sumOf_values_insert hcount
    simp only [ahead]
    omega

theorem ahead_foldl_release_le (f : Frontier) (names : List String) :
    (names.foldl release f).ahead ≤ f.ahead := by
  induction names generalizing f with
  | nil => exact Nat.le_refl _
  | cons name rest ih => exact Nat.le_trans (ih (f.release name)) (f.ahead_release_le name)

/-- Less is ahead when a ready name was taken. -/
theorem ahead_take_lt {f : Frontier} {name : String} {rest : NameSet}
    (h : f.ready.popFirst? = some (name, rest)) (names : List String) :
    (names.foldl release { f with ready := rest }).ahead < f.ahead := by
  have hle := ahead_foldl_release_le { f with ready := rest } names
  have hsize : f.ready.size = rest.size + 1 :=
    congrArg List.length (NameSet.toList_of_popFirst? h)
  simp only [ahead] at hle ⊢
  omega

end Frontier

/-- Takes the least ready name again and again; the names that depend on it then wait for one
dependency less. -/
def take (dependents : Dict (List String)) (f : Frontier) : List String :=
  match h : f.ready.popFirst? with
  | none => []
  | some (name, rest) =>
    let children := (dependents.get? name).getD []
    have := Frontier.ahead_take_lt h children
    name :: take dependents (children.foldl .release { f with ready := rest })
termination_by f.ahead

/-- What can be taken before the first name is: the names that wait for nothing. -/
def frontier (counts : Dict Nat) : Frontier :=
  ⟨counts, .ofList ((counts.toList.filter fun e => e.2 == 0).map (·.1))⟩

/-- The names in order, as far as one can be given. -/
def takeAll (deps : Dependencies) (names : NameSet) : List String :=
  let w := waits deps names
  take w.dependents (frontier w.counts)

/-! ## The search for a cycle -/

/-- How far a search has come with a name. -/
inductive Mark where
  /-- the name is on the trail -/
  | visiting
  /-- the search has left the name behind -/
  | done
  deriving DecidableEq, Repr, Inhabited

/-- The names that a search has not come to. -/
def unmarked (names : List String) (marks : Dict Mark) : List String :=
  names.filter fun n => !marks.contains n

theorem mem_unmarked {names : List String} {marks : Dict Mark} {n : String} :
    n ∈ unmarked names marks ↔ n ∈ names ∧ marks.get? n = none := by
  unfold unmarked
  rw [List.mem_filter]
  simp [Dict.contains]

/-- Marking a name takes it from those without a mark, and no other. -/
theorem unmarked_insert (names : List String) (marks : Dict Mark) (name : String) (mark : Mark) :
    unmarked names (marks.insert name mark) = (unmarked names marks).filter (· != name) := by
  unfold unmarked
  rw [List.filter_filter]
  refine List.filter_congr fun n _ => ?_
  simp only [Dict.contains, Dict.get?_insert]
  by_cases hn : n = name <;> simp [hn]

theorem length_unmarked_insert_lt {names : List String} {marks : Dict Mark} {name : String}
    (h : name ∈ unmarked names marks) (mark : Mark) :
    (unmarked names (marks.insert name mark)).length < (unmarked names marks).length := by
  rw [unmarked_insert]
  exact List.length_filter_lt_length_iff_exists.2 ⟨name, h, by simp⟩

/-- A later state of the marks, in which no name has lost its mark. -/
def Keeps (marks after : Dict Mark) : Prop :=
  ∀ n, marks.contains n = true → after.contains n = true

theorem Keeps.insert {marks after : Dict Mark} (h : Keeps marks after) (name : String)
    (mark : Mark) : Keeps marks (after.insert name mark) := by
  intro n hn
  have hafter := h n hn
  simp only [Dict.contains, Dict.get?_insert] at hafter ⊢
  split
  · rfl
  · exact hafter

theorem Keeps.of_insert {marks after : Dict Mark} {name : String} {mark : Mark}
    (h : Keeps (marks.insert name mark) after) : Keeps marks after := by
  intro n hn
  refine h n ?_
  simp only [Dict.contains, Dict.get?_insert] at hn ⊢
  split
  · rfl
  · exact hn

theorem Keeps.trans {marks after last : Dict Mark} (h : Keeps marks after)
    (h' : Keeps after last) : Keeps marks last := fun n hn => h' n (h n hn)

theorem Keeps.length_unmarked_le {marks after : Dict Mark} (h : Keeps marks after)
    (names : List String) : (unmarked names after).length ≤ (unmarked names marks).length := by
  unfold unmarked
  rw [← List.countP_eq_length_filter, ← List.countP_eq_length_filter]
  refine List.countP_mono_left fun n _ hn => ?_
  simp only [Bool.not_eq_true'] at hn ⊢
  cases hmark : marks.contains n with
  | false => rfl
  | true =>
    rw [h n hmark] at hn
    cases hn

/-- What visiting names leads to: a cycle, or the marks after it. -/
abbrev Visit (marks : Dict Mark) : Type := Except (List String) { after // Keeps marks after }

/-- The dependencies of a name among the names, in ascending order. -/
def within (deps : Dependencies) (names : NameSet) (name : String) : List String :=
  sortedNames ((deps name).filter names.contains)

theorem mem_of_mem_within {deps : Dependencies} {names : NameSet} {name d : String}
    (h : d ∈ within deps names name) : d ∈ names.toList := by
  unfold within sortedNames at h
  rw [List.mem_mergeSort, List.mem_filter] at h
  exact List.contains_iff_mem.1 h.2

mutual

/-- Visits a name without a mark: it is put at the end of the trail while its dependencies are
visited, and is done after them. -/
def visit (deps : Dependencies) (names : NameSet) (marks : Dict Mark) (trail : List String)
    (name : String) (h : name ∈ unmarked names.toList marks) : Visit marks :=
  have := length_unmarked_insert_lt h .visiting
  match visitEach deps names (marks.insert name .visiting) (trail ++ [name])
      (within deps names name) fun _ hd => mem_of_mem_within hd with
  | .error cycle => .error cycle
  | .ok ⟨after, hafter⟩ => .ok ⟨after.insert name .done, hafter.of_insert.insert name .done⟩
termination_by ((unmarked names.toList marks).length, 0)
decreasing_by exact Prod.Lex.left _ _ this

/-- Visits the dependencies of the last name on the trail. One that is on the trail ends the search:
from it on, the trail is a cycle. -/
def visitEach (deps : Dependencies) (names : NameSet) (marks : Dict Mark) (trail : List String) :
    (ds : List String) → (∀ d ∈ ds, d ∈ names.toList) → Visit marks
  | [], _ => .ok ⟨marks, fun _ hn => hn⟩
  | d :: rest, h =>
    have hrest := (List.forall_mem_cons.1 h).2
    match hmark : marks.get? d with
    | some .visiting => .error (trail.drop ((trail.findIdx? (· == d)).getD 0))
    | some .done => visitEach deps names marks trail rest hrest
    | none =>
      match visit deps names marks trail d (mem_unmarked.2 ⟨h d List.mem_cons_self, hmark⟩) with
      | .error cycle => .error cycle
      | .ok ⟨after, hafter⟩ =>
        have := hafter.length_unmarked_le names.toList
        match visitEach deps names after trail rest hrest with
        | .error cycle => .error cycle
        | .ok ⟨last, hlast⟩ => .ok ⟨last, hafter.trans hlast⟩
termination_by ds => ((unmarked names.toList marks).length, ds.length + 1)
decreasing_by
  · exact Prod.Lex.right _ (Nat.lt_succ_self _)
  · exact Prod.Lex.right _ (Nat.succ_pos _)
  · exact Prod.Lex.right' _ this (Nat.lt_succ_self _)

end

/-- Visits the names that have no mark, one after the other. -/
def searchEach (deps : Dependencies) (names : NameSet) (marks : Dict Mark) :
    (starts : List String) → (∀ n ∈ starts, n ∈ names.toList) → Option (List String)
  | [], _ => none
  | start :: rest, h =>
    have hrest := (List.forall_mem_cons.1 h).2
    match hmark : marks.get? start with
    | some _ => searchEach deps names marks rest hrest
    | none =>
      match visit deps names marks [] start
          (mem_unmarked.2 ⟨h start List.mem_cons_self, hmark⟩) with
      | .error cycle => some cycle
      | .ok after => searchEach deps names after.1 rest hrest

/-- A cycle among the names, if there is one. -/
def search (deps : Dependencies) (names : NameSet) : Option (List String) :=
  searchEach deps names ∅ names.toList fun _ hn => hn

/-- The cycle that is reported for names that wait for each other. -/
def cycle (deps : Dependencies) (names : NameSet) : List String :=
  (search deps names).getD names.toList

/-! ## Sorting -/

/-- The names that are still there when no name is ready. -/
def remaining (deps : Dependencies) (names : NameSet) : NameSet :=
  names.filter fun n => !(takeAll deps names).contains n

/-- The names in order, or a cycle. -/
def sort (deps : Dependencies) (names : NameSet) : Except (List String) (List String) :=
  let order := takeAll deps names
  if order.length < names.size then .error (cycle deps (remaining deps names)) else .ok order

example :
    (sort (fun | "a" => ["c", "c"] | "b" => ["c"] | _ => [])
      (.ofList ["a", "b", "c", "d"])).toOption =
      some ["c", "a", "b", "d"] := by
  decide +kernel

example :
    sort (fun | "a" => ["b"] | "b" => ["d", "c"] | "c" => ["b"] | _ => [])
      (.ofList ["a", "b", "c", "d"]) = .error ["b", "c"] := by
  cbv

end BuildAhead.Ordering
