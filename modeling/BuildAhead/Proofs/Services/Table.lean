import BuildAhead.Services.Discovery
import BuildAhead.Proofs.Collection.Dict

set_option autoImplicit false

/-!
# Services: tables in order

Sorting the candidates of a service and keeping the first of each name gives a list whose names
strictly ascend. Nothing is lost by it when candidates with one name are equal; otherwise a table
has the candidate that was given first. Removing the candidates inside disabled namespaces, one
namespace after the other, is removing those that lie inside any of them.
-/

namespace BuildAhead

/-! ## Neighbours with one name -/

section FirstOfEach

variable {α : Type} {name : α → String}

theorem firstOfEach_sublist (l : List α) : (firstOfEach name l).Sublist l := by
  fun_induction firstOfEach name l with
  | case1 => exact .slnil
  | case2 a => exact .refl _
  | case3 a b rest heq ih => exact ih.trans ((List.sublist_cons_self b rest).cons_cons a)
  | case4 a b rest hne ih => exact ih.cons_cons a

/-- The first of each name of a list in order: the names strictly ascend. -/
theorem firstOfEach_ascending {l : List α} (hsorted : (l.map name).Pairwise (· ≤ ·)) :
    ((firstOfEach name l).map name).Pairwise (· < ·) := by
  fun_induction firstOfEach name l with
  | case1 => exact .nil
  | case2 a => exact List.pairwise_singleton _ _
  | case3 a b rest heq ih =>
    refine ih (hsorted.sublist ?_)
    exact ((List.sublist_cons_self b rest).cons_cons a).map name
  | case4 a b rest hne ih =>
    rw [List.map_cons, List.pairwise_cons] at hsorted
    obtain ⟨hfirst, hrest⟩ := hsorted
    rw [List.map_cons, List.pairwise_cons]
    refine ⟨?_, ih hrest⟩
    intro n hn
    have hmem : n ∈ (b :: rest).map name := ((firstOfEach_sublist (b :: rest)).map name).subset hn
    have hab : name a < name b :=
      Std.lt_of_le_of_ne (hfirst _ (by simp)) hne
    rw [List.map_cons, List.pairwise_cons] at hrest
    rcases List.mem_cons.1 hmem with rfl | hmem
    · exact hab
    · exact Std.lt_of_lt_of_le hab (hrest.1 n hmem)

/-- Nothing is lost when elements with one name are equal. -/
theorem mem_firstOfEach {l : List α} (hsame : ∀ a ∈ l, ∀ b ∈ l, name a = name b → a = b) {a : α} :
    a ∈ firstOfEach name l ↔ a ∈ l := by
  fun_induction firstOfEach name l with
  | case1 => rfl
  | case2 b => rfl
  | case3 b c rest heq ih =>
    have hbc : b = c := hsame b (by simp) c (by simp) heq
    subst hbc
    rw [ih fun x hx y hy => hsame x (List.mem_cons_of_mem _ hx) y (List.mem_cons_of_mem _ hy)]
    simp
  | case4 b c rest hne ih =>
    rw [List.mem_cons, List.mem_cons,
      ih fun x hx y hy => hsame x (List.mem_cons_of_mem _ hx) y (List.mem_cons_of_mem _ hy)]

/-- A list whose names strictly ascend has no neighbours with one name. -/
theorem firstOfEach_of_ascending {l : List α} (hasc : (l.map name).Pairwise (· < ·)) :
    firstOfEach name l = l := by
  fun_induction firstOfEach name l with
  | case1 => rfl
  | case2 a => rfl
  | case3 a b rest heq ih =>
    rw [List.map_cons, List.pairwise_cons] at hasc
    exact absurd heq (Std.ne_of_lt (hasc.1 (name b) (by simp)))
  | case4 a b rest hne ih =>
    rw [List.map_cons, List.pairwise_cons] at hasc
    rw [ih hasc.2]

/-- The first element of a name is kept. -/
theorem find?_firstOfEach (l : List α) (n : String) :
    (firstOfEach name l).find? (fun a => name a == n) = l.find? (fun a => name a == n) := by
  fun_induction firstOfEach name l with
  | case1 => rfl
  | case2 a => rfl
  | case3 a b rest heq ih =>
    rw [ih, List.find?_cons, List.find?_cons, List.find?_cons, heq]
    cases name b == n <;> rfl
  | case4 a b rest hne ih => rw [List.find?_cons, List.find?_cons, ih]

end FirstOfEach

/-- A sort keeps the order of elements that are tied, so the first of them stays the first. -/
theorem find?_mergeSort_of_tied {α : Type} {le : α → α → Bool}
    (htrans : ∀ a b c, le a b = true → le b c = true → le a c = true)
    (htotal : ∀ a b, (le a b || le b a) = true) {p : α → Bool}
    (htied : ∀ a b, p a = true → p b = true → le a b = true) (l : List α) :
    (l.mergeSort le).find? p = l.find? p := by
  have hpairwise : (l.filter p).Pairwise (le · ·) :=
    List.pairwise_filter.2 (List.pairwise_of_forall htied)
  have hsublist : (l.filter p).Sublist ((l.mergeSort le).filter p) := by
    have hkept := (List.sublist_mergeSort htrans htotal hpairwise List.filter_sublist).filter p
    simpa only [List.filter_filter, Bool.and_self] using hkept
  have hlength : (l.filter p).length = ((l.mergeSort le).filter p).length :=
    ((List.mergeSort_perm l le).symm.filter p).length_eq
  rw [← List.head?_filter, ← List.head?_filter, hsublist.eq_of_length hlength]

/-! ## The order of candidates -/

namespace ServiceCandidate

theorem le_total (a b : ServiceCandidate) : (le a b || le b a) = true := by
  obtain ⟨nameA, kindA, availableA, forcedA⟩ := a
  obtain ⟨nameB, kindB, availableB, forcedB⟩ := b
  by_cases hname : nameA = nameB
  · subst hname
    cases kindA <;> cases kindB <;> cases availableA <;> cases availableB <;> cases forcedA <;>
      cases forcedB <;> simp [le, kindRank]
  · have hname' : nameB ≠ nameA := fun heq => hname heq.symm
    rcases Std.le_total (a := nameA) (b := nameB) with hle | hle
    · have hlt : nameA < nameB := Std.lt_of_le_of_ne hle hname
      simp [le, hname, hname', hlt]
    · have hlt : nameB < nameA := Std.lt_of_le_of_ne hle hname'
      simp [le, hname, hname', hlt]

theorem name_le_of_le {a b : ServiceCandidate} (hab : le a b = true) : a.name ≤ b.name := by
  unfold le at hab
  split at hab
  · exact Std.le_of_lt (of_decide_eq_true hab)
  · next hname => exact Std.le_of_eq (Decidable.not_not.1 hname)

theorem le_trans (a b c : ServiceCandidate) (hab : le a b = true) (hbc : le b c = true) :
    le a c = true := by
  have hleft := name_le_of_le hab
  have hright := name_le_of_le hbc
  obtain ⟨nameA, kindA, availableA, forcedA⟩ := a
  obtain ⟨nameB, kindB, availableB, forcedB⟩ := b
  obtain ⟨nameC, kindC, availableC, forcedC⟩ := c
  simp only at hleft hright
  by_cases hname : nameA = nameC
  · -- all three have one name, and the other parts are few
    subst hname
    have hmiddle : nameA = nameB := Std.le_antisymm hleft hright
    subst hmiddle
    revert hab hbc
    cases kindA <;> cases kindB <;> cases kindC <;> cases availableA <;> cases availableB <;>
      cases availableC <;> cases forcedB <;> simp +contextual [le, kindRank]
  · have hlt : nameA < nameC := Std.lt_of_le_of_ne (Std.le_trans hleft hright) hname
    simp [le, hname, hlt]

theorem sorted_ascending (cs : List ServiceCandidate) :
    ((sorted cs).map ServiceCandidate.name).Pairwise (· ≤ ·) := by
  have hpairwise : (sorted cs).Pairwise (le · ·) := List.pairwise_mergeSort le_trans le_total cs
  exact List.pairwise_map.2 (hpairwise.imp name_le_of_le)

theorem mem_sorted {cs : List ServiceCandidate} {c : ServiceCandidate} :
    c ∈ sorted cs ↔ c ∈ cs := List.mem_mergeSort

end ServiceCandidate

namespace Discovery

/-- The names of a finished table strictly ascend. -/
theorem finalTable_ascending (cs : List ServiceCandidate) :
    ((finalTable cs).map ServiceCandidate.name).Pairwise (· < ·) :=
  firstOfEach_ascending (ServiceCandidate.sorted_ascending cs)

/-- A finished table has the candidates that were gathered, when those with one name are equal. -/
theorem mem_finalTable {cs : List ServiceCandidate}
    (hsame : ∀ a ∈ cs, ∀ b ∈ cs, a.name = b.name → a = b) {c : ServiceCandidate} :
    c ∈ finalTable cs ↔ c ∈ cs := by
  have hsame' : ∀ a ∈ ServiceCandidate.sorted cs, ∀ b ∈ ServiceCandidate.sorted cs,
      a.name = b.name → a = b := by
    intro a ha b hb
    exact hsame a (ServiceCandidate.mem_sorted.1 ha) b (ServiceCandidate.mem_sorted.1 hb)
  exact (mem_firstOfEach hsame').trans ServiceCandidate.mem_sorted

/-! ## Disabled namespaces -/

/-- A name lies inside a namespace when it is the namespace, a dot and anything behind it. -/
theorem isWithin_iff {scope name : String} :
    isWithin scope name = true ↔ ∃ rest, name = scope ++ "." ++ rest := by
  unfold isWithin
  rw [List.isPrefixOf_iff_prefix]
  constructor
  · intro hgiven
    obtain ⟨rest, hrest⟩ := hgiven
    refine ⟨String.ofList rest, ?_⟩
    apply String.toList_injective
    rw [← hrest]
    simp
  · intro hgiven
    obtain ⟨rest, rfl⟩ := hgiven
    exact ⟨rest.toList, by simp⟩

/-- A name lies inside one of some namespaces. -/
def withinAny (scopes : List String) (name : String) : Bool :=
  scopes.any fun scope => isWithin scope name

/-- Removing the candidates inside one scope after the other removes those inside any of them. -/
theorem disable_tables (tables : List (String × List ServiceCandidate)) (scopes : List String) :
    (disable tables scopes).1 =
      tables.map fun t => (t.1, t.2.filter fun c => !withinAny scopes c.name) := by
  induction scopes generalizing tables with
  | nil =>
    simp only [disable, withinAny, List.any_nil, Bool.not_false, List.filter_true, List.map_id']
  | cons scope rest ih =>
    simp only [disable, ih, withoutScope, List.map_map]
    refine List.map_congr_left ?_
    rintro ⟨capability, cs⟩ -
    simp only [Function.comp_apply, List.filter_filter, withinAny, List.any_cons, Bool.not_or]
    congr 2
    funext c
    rw [Bool.and_comm]

end Discovery

/-! ## Tables of a result -/

namespace TableSpec

/-- The table of candidates in strictly ascending order of their names is their table, one for
one. -/
theorem ofCandidates_of_ascending (capability : String) {cs : List ServiceCandidate}
    (hasc : (cs.map ServiceCandidate.name).Pairwise (· < ·)) :
    ofCandidates capability cs = ⟨capability, cs.map ServiceCandidate.entry⟩ := by
  have hnames : ((cs.map ServiceCandidate.entry).map TableEntry.name).Pairwise (· < ·) := by
    rw [List.map_map]
    exact hasc
  have hle : (cs.map ServiceCandidate.entry).Pairwise (le · ·) := by
    refine (List.pairwise_map.1 hnames).imp ?_
    intro a b hab
    exact decide_eq_true (Std.le_of_lt hab)
  unfold ofCandidates
  rw [List.mergeSort_of_pairwise hle, firstOfEach_of_ascending hnames]

theorem le_total (a b : TableEntry) : (le a b || le b a) = true := by
  simpa [le] using Std.le_total (a := a.name) (b := b.name)

theorem le_trans (a b c : TableEntry) (hab : le a b = true) (hbc : le b c = true) :
    le a c = true := by
  simp only [le, decide_eq_true_eq] at hab hbc ⊢
  exact Std.le_trans hab hbc

/-- The names of a table strictly ascend. -/
theorem names_ofCandidates_ascending (capability : String) (cs : List ServiceCandidate) :
    (ofCandidates capability cs).names.Pairwise (· < ·) := by
  refine firstOfEach_ascending (List.pairwise_map.2 ?_)
  refine (List.pairwise_mergeSort le_trans le_total _).imp ?_
  intro a b hab
  exact of_decide_eq_true hab

/-- Under each name a table has the entry of the first candidate that was given under it. -/
theorem find?_entries_ofCandidates (capability : String) (cs : List ServiceCandidate)
    (n : String) :
    (ofCandidates capability cs).entries.find? (fun e => e.name == n) =
      (cs.find? fun c => c.name == n).map ServiceCandidate.entry := by
  have htied : ∀ a b : TableEntry, (a.name == n) = true → (b.name == n) = true →
      le a b = true := by
    intro a b ha hb
    simp [le, eq_of_beq ha, eq_of_beq hb]
  unfold ofCandidates
  rw [find?_firstOfEach, find?_mergeSort_of_tied le_trans le_total htied, List.find?_map]
  rfl

end TableSpec

end BuildAhead
