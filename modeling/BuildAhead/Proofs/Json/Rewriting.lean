import BuildAhead.Application.Codec
import BuildAhead.Proofs.Collection.Steps
import BuildAhead.Proofs.Json.Canonical
import Mathlib.Data.List.Perm.Basic

set_option autoImplicit false

/-!
# Json: values that are written in another way

What is read does not depend on the order of an object's members, on whether a field of a record that
has its default is written, or on members that a record does not know. Each such change of a value
is a step of `RecordEdit`, `DictEdit` or one of their like, at any depth; `Keeps` says of a reader
that it reads the same before and after, and is handed on from the readers of the parts to the
reader of the whole.
-/

namespace BuildAhead

/-- A dictionary does not depend on the order of pairs with distinct keys. -/
theorem Dict.ofList_perm {α : Type} {pairs pairs' : List (String × α)}
    (hnodup : (pairs.map Prod.fst).Nodup) (hperm : pairs.Perm pairs') :
    Dict.ofList pairs = Dict.ofList pairs' := by
  have hnodup' : (pairs'.map Prod.fst).Nodup := (hperm.map Prod.fst).nodup_iff.1 hnodup
  refine Dict.ext_get? fun key => ?_
  ext v
  exact (Dict.get?_ofList hnodup).trans (hperm.mem_iff.trans (Dict.get?_ofList hnodup').symm)

namespace Json

/-- A reader reads a value as before after every change of this kind. -/
def Keeps {α : Type} (edit : Json → Json → Prop) (read : Json → Option α) : Prop :=
  ∀ v w a, edit v w → read v = some a → read w = some a

/-! ## Kinds of changes -/

/-- A value in which nothing can be written in another way. -/
def Fixed : Json → Json → Prop := fun _ _ => False

/-- One item of an array is changed. -/
inductive ItemEdit (inner : Json → Json → Prop) : Json → Json → Prop where
  | item {before after : List Json} {v w : Json} (h : inner v w) :
    ItemEdit inner (.array (before ++ v :: after)) (.array (before ++ w :: after))

/-- The members of an object with free keys are put into another order, or the value of one of them
is changed. -/
inductive DictEdit (inner : Json → Json → Prop) : Json → Json → Prop where
  | reorder {members members' : List (String × Json)} (hnodup : (members.map Prod.fst).Nodup)
    (h : members.Perm members') : DictEdit inner (.object members) (.object members')
  | member {before after : List (String × Json)} {key : String} {v w : Json} (h : inner v w) :
    DictEdit inner (.object (before ++ (key, v) :: after)) (.object (before ++ (key, w) :: after))

/-- Somewhere in a value of any form, the members of an object are put into another order. -/
inductive FreeEdit : Json → Json → Prop where
  | reorder {members members' : List (String × Json)} (hnodup : (members.map Prod.fst).Nodup)
    (h : members.Perm members') : FreeEdit (.object members) (.object members')
  | member {before after : List (String × Json)} {key : String} {v w : Json} (h : FreeEdit v w) :
    FreeEdit (.object (before ++ (key, v) :: after)) (.object (before ++ (key, w) :: after))
  | item {before after : List Json} {v w : Json} (h : FreeEdit v w) :
    FreeEdit (.array (before ++ v :: after)) (.array (before ++ w :: after))

/-- What can be done to a field of a record. -/
structure FieldRule where
  name : String
  /-- with these values the field can be left out -/
  optional : Json → Prop
  /-- the changes of its value -/
  edit : Json → Json → Prop

namespace FieldRule

/-- A field that can be left out where it is read as its default. -/
def withDefault {α : Type} (name : String) (default : α) (read : Json → Option α)
    (edit : Json → Json → Prop) : FieldRule :=
  ⟨name, fun v => read v = some default, edit⟩

/-- A field that must be there. -/
def mandatory (name : String) (edit : Json → Json → Prop) : FieldRule :=
  ⟨name, fun _ => False, edit⟩

end FieldRule

/-- The members of a record are put into another order, a field that has its default is left out, a
member that is no field is added, or the value of a field is changed. -/
inductive RecordEdit (rules : List FieldRule) : Json → Json → Prop where
  | reorder {members members' : List (String × Json)} (h : members.Perm members') :
    RecordEdit rules (.object members) (.object members')
  | leaveOut {before after : List (String × Json)} {rule : FieldRule} {v : Json}
    (hrule : rule ∈ rules) (h : rule.optional v) :
    RecordEdit rules (.object (before ++ (rule.name, v) :: after)) (.object (before ++ after))
  | add {before after : List (String × Json)} {name : String} (v : Json)
    (h : name ∉ rules.map FieldRule.name) :
    RecordEdit rules (.object (before ++ after)) (.object (before ++ (name, v) :: after))
  | field {before after : List (String × Json)} {rule : FieldRule} {v w : Json}
    (hrule : rule ∈ rules) (h : rule.edit v w) :
    RecordEdit rules (.object (before ++ (rule.name, v) :: after))
      (.object (before ++ (rule.name, w) :: after))

/-! ## Lists, dictionaries and values of any form -/

section Keeps

variable {α : Type} {edit : Json → Json → Prop} {read : Json → Option α}

theorem keeps_fixed (read : Json → Option α) : Keeps Fixed read := fun _ _ _ h => h.elim

theorem Keeps.toList? (h : Keeps edit read) : Keeps (ItemEdit edit) (Json.toList? read) := by
  intro v w as hedit hread
  cases hedit with
  | item hitem =>
    rw [Json.toList?, mapM_eq_some_iff] at hread ⊢
    exact forall₂_replace hread fun a ha => h _ _ a hitem ha

/-- An object is read as a dictionary when the values of its members are read. -/
theorem toDict?_object_eq_some_iff {members : List (String × Json)} {d : Dict α} :
    Json.toDict? read (.object members) = some d ↔ ∃ pairs, d = Dict.ofList pairs ∧
      List.Forall₂ (fun m e => e.1 = m.1 ∧ read m.2 = some e.2) members pairs := by
  have hentry : ∀ (m : String × Json) (e : String × α),
      (read m.2).map (fun a => (m.1, a)) = some e ↔ e.1 = m.1 ∧ read m.2 = some e.2 := by
    intro m e
    obtain ⟨key, a⟩ := e
    rw [Option.map_eq_some_iff]
    constructor
    · rintro ⟨b, hb, heq⟩
      cases heq
      exact ⟨rfl, hb⟩
    · rintro ⟨rfl, ha⟩
      exact ⟨a, ha, rfl⟩
  rw [Json.toDict?, Option.map_eq_some_iff]
  simp only [mapM_eq_some_iff, hentry]
  constructor
  · rintro ⟨pairs, hpairs, rfl⟩
    exact ⟨pairs, rfl, hpairs⟩
  · rintro ⟨pairs, rfl, hpairs⟩
    exact ⟨pairs, hpairs, rfl⟩

/-- What is read from members has their keys. -/
theorem keys_eq_of_forall₂ {members : List (String × Json)} {pairs : List (String × α)}
    (h : List.Forall₂ (fun m e => e.1 = m.1 ∧ read m.2 = some e.2) members pairs) :
    pairs.map Prod.fst = members.map Prod.fst := by
  induction h with
  | nil => rfl
  | cons hfirst _ ih => rw [List.map_cons, List.map_cons, ih, hfirst.1]

/-- Every value of a dictionary was read from a value. -/
theorem exists_of_mem_values {field : Option Json} {d : Dict α} {a : α}
    (h : Json.orDefault ∅ (Json.toDict? read) field = some d) (ha : a ∈ d.values) :
    ∃ w, read w = some a := by
  match field, h with
  | none, h =>
    cases h
    exact absurd ha List.not_mem_nil
  | some (.object members), h =>
    obtain ⟨pairs, rfl, hpairs⟩ := toDict?_object_eq_some_iff.1 h
    obtain ⟨key, hkey⟩ := Dict.mem_values.1 ha
    have hmem : (key, a) ∈ pairs := Dict.mem_of_get?_ofList hkey
    obtain ⟨m, -, hread⟩ := exists_of_mem_forall₂ hpairs.flip hmem
    exact ⟨m.2, hread⟩

theorem Keeps.toDict? (h : Keeps edit read) : Keeps (DictEdit edit) (Json.toDict? read) := by
  intro v w d hedit hread
  cases hedit with
  | @reorder members members' hnodup hperm =>
    obtain ⟨pairs, rfl, hpairs⟩ := toDict?_object_eq_some_iff.1 hread
    obtain ⟨pairs', hpairs', hperm'⟩ := List.perm_comp_forall₂ hperm.symm hpairs
    refine toDict?_object_eq_some_iff.2 ⟨pairs', ?_, hpairs'⟩
    refine Dict.ofList_perm ?_ hperm'.symm
    rw [keys_eq_of_forall₂ hpairs]
    exact hnodup
  | member hvalue =>
    obtain ⟨pairs, rfl, hpairs⟩ := toDict?_object_eq_some_iff.1 hread
    refine toDict?_object_eq_some_iff.2 ⟨pairs, rfl, forall₂_replace hpairs ?_⟩
    rintro e ⟨hkey, he⟩
    exact ⟨hkey, h _ _ _ hvalue he⟩

/-- A change of an object is one of an optional object. -/
theorem Keeps.toOption? (h : Keeps edit read)
    (hobject : ∀ v w, edit v w → ∃ members members', v = .object members ∧ w = .object members') :
    Keeps edit (Json.toOption? read) := by
  intro v w a hedit hread
  obtain ⟨members, members', rfl, rfl⟩ := hobject v w hedit
  have hsome : (read (.object members)).map some = some a := hread
  obtain ⟨b, hb, rfl⟩ := Option.map_eq_some_iff.1 hsome
  exact congrArg (Option.map some) (h _ _ b hedit hb)

end Keeps

theorem canonicalMembers_append (first second sorted : List (String × Json)) :
    canonicalMembers (first ++ second) sorted =
      canonicalMembers second (canonicalMembers first sorted) := by
  induction first generalizing sorted with
  | nil => rfl
  | cons m rest ih =>
    rw [List.cons_append, canonicalMembers, ih, canonicalMembers]

/-- The canonical members do not depend on the order of members with distinct keys. -/
theorem canonicalMembers_perm {members members' : List (String × Json)}
    (hnodup : (members.map Prod.fst).Nodup) (hperm : members.Perm members') :
    canonicalMembers members [] = canonicalMembers members' [] := by
  have hlast : ∀ {ms : List (String × Json)}, (ms.map Prod.fst).Nodup → ∀ {key : String} {v : Json},
      lastMember? key ms = some v ↔ (key, v) ∈ ms := by
    intro ms hms key v
    refine ⟨mem_of_lastMember?, fun hmem => ?_⟩
    refine Dict.lookup_of_mem_of_nodup ?_ (List.mem_reverse.2 hmem)
    rw [List.map_reverse]
    exact List.nodup_reverse.2 hms
  have hnodup' : (members'.map Prod.fst).Nodup := (hperm.map Prod.fst).nodup_iff.1 hnodup
  have hsame : ∀ key, lastMember? key members = lastMember? key members' := by
    intro key
    ext v
    exact (hlast hnodup).trans (hperm.mem_iff.trans (hlast hnodup').symm)
  let dictOf (ms : List (String × Json)) : Dict Json :=
    ⟨canonicalMembers ms [], canonicalMembers_ascending ms .nil⟩
  have hdict : dictOf members = dictOf members' := by
    refine Dict.ext_get? fun key => ?_
    show Dict.lookup key (canonicalMembers members []) = Dict.lookup key (canonicalMembers members' [])
    rw [lookup_canonicalMembers key members .nil, lookup_canonicalMembers key members' .nil, hsame]
  exact congrArg Dict.entries hdict

/-- Another order of members leaves the canonical value. -/
theorem FreeEdit.canonical_eq {v w : Json} (h : FreeEdit v w) : v.canonical = w.canonical := by
  induction h with
  | reorder hnodup hperm =>
    rw [canonical, canonical, canonicalMembers_perm hnodup hperm]
  | member _ ih =>
    rw [canonical, canonical, canonicalMembers_append, canonicalMembers_append, canonicalMembers,
      canonicalMembers, ih]
  | item _ ih =>
    rw [canonical, canonical, canonicalItems_eq_map, canonicalItems_eq_map, List.map_append,
      List.map_append, List.map_cons, List.map_cons, ih]

theorem keeps_canonical : Keeps FreeEdit fun v => some v.canonical := by
  intro v w a hedit hread
  exact (congrArg some hedit.canonical_eq.symm).trans hread

/-! ## Records -/

/-- Every one of these names is at most once among the keys of the members. -/
def Once (names : List String) (members : List (String × Json)) : Prop :=
  ∀ n ∈ names, (members.filter fun m => m.1 == n).length ≤ 1

theorem fields?_object_eq_some_iff {names : List String} {members : List (String × Json)}
    {values : List (Option Json)} :
    fields? names (.object members) = some values ↔
      Once names members ∧ values = names.map fun n => Dict.lookup n members := by
  have hall : (names.all fun n => (members.filter fun m => m.1 == n).length ≤ 1) = true ↔
      Once names members := by
    rw [List.all_eq_true]
    simp only [decide_eq_true_eq, Once]
  rw [fields?]
  by_cases honce : Once names members
  · rw [if_pos (hall.2 honce), Option.some.injEq, eq_comm]
    exact (and_iff_right honce).symm
  · rw [if_neg (mt hall.1 honce)]
    constructor
    · intro hnone
      cases hnone
    · intro hgiven
      exact absurd hgiven.1 honce

section Once

variable {n key : String} {v : Json} {before after members : List (String × Json)}

/-- A member whose key is there once is the only one with it. -/
theorem not_mem_of_once
    (h : ((before ++ (n, v) :: after).filter fun m => m.1 == n).length ≤ 1) :
    n ∉ before.map Prod.fst ∧ n ∉ after.map Prod.fst := by
  have hnone : ∀ {ms : List (String × Json)}, (ms.filter fun m => m.1 == n).length = 0 →
      n ∉ ms.map Prod.fst := by
    intro ms hms hmem
    obtain ⟨m, hm, rfl⟩ := List.mem_map.1 hmem
    have hin : m ∈ ms.filter fun m' => m'.1 == m.1 := List.mem_filter.2 ⟨hm, beq_self_eq_true _⟩
    rw [List.length_eq_zero_iff.1 hms] at hin
    exact absurd hin List.not_mem_nil
  simp only [List.filter_append, List.filter_cons, beq_self_eq_true, if_true, List.length_append,
    List.length_cons] at h
  exact ⟨hnone (by omega), hnone (by omega)⟩

theorem lookup_middle (hbefore : n ∉ before.map Prod.fst) :
    Dict.lookup n (before ++ (n, v) :: after) = some v := by
  rw [Dict.lookup_append, Dict.lookup_eq_none_iff.2 hbefore, Option.none_or, Dict.lookup,
    if_pos rfl]

theorem lookup_middle_of_ne (hkey : key ≠ n) :
    Dict.lookup n (before ++ (key, v) :: after) = Dict.lookup n (before ++ after) := by
  rw [Dict.lookup_append, Dict.lookup_append, Dict.lookup, if_neg hkey]

theorem filter_middle_of_ne (hkey : key ≠ n) :
    ((before ++ (key, v) :: after).filter fun m => m.1 == n) =
      (before ++ after).filter fun m => m.1 == n := by
  rw [List.filter_append, List.filter_append, List.filter_cons_of_neg (by simpa using hkey)]

/-- Under a key that is there at most once stands the member that has it. -/
theorem lookup_eq_some_iff_of_once (h : (members.filter fun m => m.1 == n).length ≤ 1) :
    Dict.lookup n members = some v ↔ (n, v) ∈ members := by
  refine ⟨Dict.mem_of_lookup, fun hmem => ?_⟩
  obtain ⟨before, after, rfl⟩ := List.append_of_mem hmem
  exact lookup_middle (not_mem_of_once h).1

end Once

/-- What a change of a record does to one of its fields. -/
inductive FieldEdit (rule : FieldRule) : Option Json → Option Json → Prop where
  | same {old new : Option Json} (h : new = old) : FieldEdit rule old new
  | leftOut {v : Json} (h : rule.optional v) : FieldEdit rule (some v) none
  | changed {v w : Json} (h : rule.edit v w) : FieldEdit rule (some v) (some w)

/-- A field that has a default is read as before. -/
theorem FieldEdit.orDefault {α : Type} {name : String} {default a : α} {read : Json → Option α}
    {edit : Json → Json → Prop} {old new : Option Json} (hkeeps : Keeps edit read)
    (h : FieldEdit (.withDefault name default read edit) old new)
    (hread : Json.orDefault default read old = some a) :
    Json.orDefault default read new = some a := by
  cases h with
  | same heq => exact heq ▸ hread
  | leftOut hoptional => exact hoptional.symm.trans hread
  | changed hedit => exact hkeeps _ _ a hedit hread

/-- A field that must be there is read as before. -/
theorem FieldEdit.required {α : Type} {name : String} {a : α} {read : Json → Option α}
    {edit : Json → Json → Prop} {old new : Option Json} (hkeeps : Keeps edit read)
    (h : FieldEdit (.mandatory name edit) old new)
    (hread : Json.required read old = some a) : Json.required read new = some a := by
  cases h with
  | same heq => exact heq ▸ hread
  | leftOut hoptional => exact hoptional.elim
  | changed hedit => exact hkeeps _ _ a hedit hread

namespace RecordEdit

variable {rules : List FieldRule} {v w : Json} {members members' : List (String × Json)}

theorem exists_object (h : RecordEdit rules v w) :
    ∃ members members', v = .object members ∧ w = .object members' := by
  cases h <;> exact ⟨_, _, rfl, rfl⟩

/-- A change of a record leaves its fields there at most once, and does to each what its rule
allows. -/
theorem fieldEdit (hrules : (rules.map FieldRule.name).Nodup)
    (h : RecordEdit rules (.object members) (.object members'))
    (honce : Once (rules.map FieldRule.name) members) :
    Once (rules.map FieldRule.name) members' ∧ ∀ rule ∈ rules,
      FieldEdit rule (Dict.lookup rule.name members) (Dict.lookup rule.name members') := by
  have hat : ∀ {rule : FieldRule}, rule ∈ rules → rule.name ∈ rules.map FieldRule.name :=
    fun hrule => List.mem_map_of_mem hrule
  have hsame : ∀ {rule rule' : FieldRule}, rule ∈ rules → rule' ∈ rules →
      rule.name = rule'.name → rule = rule' :=
    fun hrule hrule' hname => List.inj_on_of_nodup_map hrules hrule hrule' hname
  cases h with
  | reorder hperm =>
    have honce' : Once (rules.map FieldRule.name) members' := by
      intro n hn
      rw [← (hperm.filter _).length_eq]
      exact honce n hn
    refine ⟨honce', fun rule hrule => .same ?_⟩
    ext v
    rw [lookup_eq_some_iff_of_once (honce' _ (hat hrule)),
      lookup_eq_some_iff_of_once (honce _ (hat hrule)), hperm.mem_iff]
  | @leaveOut before after rule v hrule hoptional =>
    obtain ⟨hbefore, hafter⟩ := not_mem_of_once (honce _ (hat hrule))
    constructor
    · intro n hn
      by_cases hname : rule.name = n
      · subst hname
        have hsublist : (before ++ after).Sublist (before ++ (rule.name, v) :: after) :=
          (List.sublist_cons_self _ _).append_left before
        exact Nat.le_trans (hsublist.filter _).length_le (honce _ hn)
      · rw [← filter_middle_of_ne (v := v) hname]
        exact honce n hn
    · intro rule' hrule'
      by_cases hname : rule.name = rule'.name
      · cases hsame hrule hrule' hname
        have hnone : Dict.lookup rule.name (before ++ after) = none := by
          rw [Dict.lookup_eq_none_iff, List.map_append, List.mem_append, not_or]
          exact ⟨hbefore, hafter⟩
        rw [lookup_middle hbefore, hnone]
        exact .leftOut hoptional
      · exact .same (lookup_middle_of_ne hname).symm
  | @add before after name v hname =>
    have hne : ∀ {n : String}, n ∈ rules.map FieldRule.name → name ≠ n :=
      fun hn heq => hname (heq ▸ hn)
    constructor
    · intro n hn
      rw [filter_middle_of_ne (hne hn)]
      exact honce n hn
    · intro rule hrule
      exact .same (lookup_middle_of_ne (hne (hat hrule)))
  | @field before after rule v w hrule hedit =>
    obtain ⟨hbefore, hafter⟩ := not_mem_of_once (honce _ (hat hrule))
    constructor
    · intro n hn
      by_cases hname : rule.name = n
      · subst hname
        simpa [List.filter_append, List.filter_cons] using honce _ hn
      · rw [filter_middle_of_ne hname, ← filter_middle_of_ne (v := v) hname]
        exact honce n hn
    · intro rule' hrule'
      by_cases hname : rule.name = rule'.name
      · cases hsame hrule hrule' hname
        rw [lookup_middle hbefore, lookup_middle hbefore]
        exact .changed hedit
      · rw [lookup_middle_of_ne hname, lookup_middle_of_ne hname]
        exact .same rfl

end RecordEdit

end Json

end BuildAhead
