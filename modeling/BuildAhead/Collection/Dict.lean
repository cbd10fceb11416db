set_option autoImplicit false

/-!
# Collection: dictionaries and name sets

Dictionaries with text keys and sets of texts, both kept in ascending order. The order of texts is
the order of their code points, which is also the order of their UTF-8 bytes. Ascending order is
part of the types, so two dictionaries with the same entries are equal.
-/

namespace BuildAhead

/-- The order in which the entries of a dictionary stand. -/
def KeyBefore {α : Type} (a b : String × α) : Prop := a.1 < b.1

/-- A finite map from texts to values, in ascending order of its keys. -/
structure Dict (α : Type) where
  entries : List (String × α)
  ascending : entries.Pairwise KeyBefore
  deriving Repr

namespace Dict

variable {α β : Type}

instance [DecidableEq α] : DecidableEq (Dict α) := fun a b =>
  if h : a.entries = b.entries then
    .isTrue (by cases a; cases b; cases h; rfl)
  else .isFalse fun e => h (e ▸ rfl)

/-- The dictionary without entries. -/
def empty : Dict α := ⟨[], .nil⟩

instance : EmptyCollection (Dict α) := ⟨empty⟩
instance : Inhabited (Dict α) := ⟨empty⟩

@[ext] theorem ext {a b : Dict α} (h : a.entries = b.entries) : a = b := by
  cases a; cases b; cases h; rfl

/-- The value of the first entry with this key. -/
def lookup (key : String) : List (String × α) → Option α
  | [] => none
  | (k, v) :: rest => if k = key then some v else lookup key rest

/-- The value under a key. -/
def get? (d : Dict α) (key : String) : Option α := lookup key d.entries

/-- Whether the key has a value. -/
def contains (d : Dict α) (key : String) : Bool := (d.get? key).isSome

/-- Puts what `f` makes of the value that the key has so far. -/
def alterEntries (key : String) (f : Option α → α) : List (String × α) → List (String × α)
  | [] => [(key, f none)]
  | (k, v) :: rest =>
    if key < k then (key, f none) :: (k, v) :: rest
    else if key = k then (key, f (some v)) :: rest
    else (k, v) :: alterEntries key f rest

theorem mem_alterEntries {key : String} {f : Option α → α} {l : List (String × α)}
    {e : String × α} (h : e ∈ alterEntries key f l) : e.1 = key ∨ e ∈ l := by
  induction l with
  | nil => simp only [alterEntries, List.mem_singleton] at h; exact .inl (h ▸ rfl)
  | cons head rest ih =>
    obtain ⟨k, v⟩ := head
    simp only [alterEntries] at h
    split at h
    · rcases List.mem_cons.1 h with h | h
      · exact .inl (h ▸ rfl)
      · exact .inr h
    · split at h
      · rcases List.mem_cons.1 h with h | h
        · exact .inl (h ▸ rfl)
        · exact .inr (List.mem_cons_of_mem _ h)
      · rcases List.mem_cons.1 h with h | h
        · exact .inr (h ▸ List.mem_cons_self)
        · exact (ih h).imp_right (List.mem_cons_of_mem _)

theorem ascending_alterEntries {key : String} {f : Option α → α} {l : List (String × α)}
    (h : l.Pairwise KeyBefore) : (alterEntries key f l).Pairwise KeyBefore := by
  induction l with
  | nil => simp [alterEntries]
  | cons head rest ih =>
    obtain ⟨k, v⟩ := head
    obtain ⟨hk, hr⟩ := List.pairwise_cons.1 h
    simp only [alterEntries]
    split
    · next hlt =>
      refine List.pairwise_cons.2 ⟨fun e he => ?_, h⟩
      rcases List.mem_cons.1 he with rfl | he
      · exact hlt
      · exact String.lt_trans hlt (hk e he)
    · split
      · next heq => exact List.pairwise_cons.2 ⟨fun e he => heq ▸ hk e he, hr⟩
      · next hlt hne =>
        refine List.pairwise_cons.2 ⟨fun e he => ?_, ih hr⟩
        rcases mem_alterEntries he with he | he
        · have : k < key := by grind
          exact show k < e.1 from he ▸ this
        · exact hk e he

/-- The dictionary in which `f` has decided the value of the key from the value it had. -/
def alter (d : Dict α) (key : String) (f : Option α → α) : Dict α :=
  ⟨alterEntries key f d.entries, ascending_alterEntries d.ascending⟩

/-- The dictionary in which the key has this value. -/
def insert (d : Dict α) (key : String) (value : α) : Dict α := d.alter key fun _ => value

/-- The dictionary of these pairs; of two pairs with one key the later one counts. -/
def ofList (pairs : List (String × α)) : Dict α :=
  pairs.foldl (fun d p => d.insert p.1 p.2) empty

/-- The pairs of the dictionary, in ascending order of the keys. -/
def toList (d : Dict α) : List (String × α) := d.entries

/-- The keys, in ascending order. -/
def keys (d : Dict α) : List String := d.entries.map (·.1)

/-- The values, in ascending order of their keys. -/
def values (d : Dict α) : List α := d.entries.map (·.2)

/-- The number of entries. -/
def size (d : Dict α) : Nat := d.entries.length

/-- Whether there is no entry. -/
def isEmpty (d : Dict α) : Bool := d.entries.isEmpty

/-- A key that stands before all others has no value. -/
theorem lookup_eq_none_of_lt {key : String} {l : List (String × α)} (h : ∀ e ∈ l, key < e.1) :
    lookup key l = none := by
  induction l with
  | nil => rfl
  | cons e rest ih =>
    have he : key < e.1 := h e List.mem_cons_self
    have hne : ¬ e.1 = key := fun heq => String.lt_irrefl key (heq ▸ he)
    simp only [lookup, hne, if_false]
    exact ih fun e he => h e (List.mem_cons_of_mem _ he)

/-- A key that has a value does not stand before the first entry. -/
theorem not_lt_of_lookup {key k : String} {v w : α} {rest : List (String × α)}
    (hascending : ((k, v) :: rest).Pairwise KeyBefore)
    (h : lookup key ((k, v) :: rest) = some w) : ¬ key < k := by
  intro hlt
  have hnone : lookup key ((k, v) :: rest) = none := by
    refine lookup_eq_none_of_lt fun e he => ?_
    rcases List.mem_cons.1 he with rfl | he
    · exact hlt
    · exact String.lt_trans hlt ((List.pairwise_cons.1 hascending).1 e he)
  rw [hnone] at h
  cases h

theorem lookup_alterEntries {key k : String} {f : Option α → α} {l : List (String × α)}
    (h : l.Pairwise KeyBefore) :
    lookup k (alterEntries key f l) =
      if k = key then some (f (lookup key l)) else lookup k l := by
  induction l with
  | nil => simp only [alterEntries, lookup]; grind
  | cons head rest ih =>
    obtain ⟨k', v⟩ := head
    obtain ⟨hk, hr⟩ := List.pairwise_cons.1 h
    simp only [alterEntries]
    split
    · next hlt =>
      have hnone : lookup key ((k', v) :: rest) = none := by
        cases hlookup : lookup key ((k', v) :: rest) with
        | none => rfl
        | some w => exact absurd hlt (not_lt_of_lookup h hlookup)
      rw [hnone]
      simp only [lookup]
      grind
    · split
      · next heq => subst heq; simp only [lookup]; grind
      · next hlt hne => simp only [lookup, ih hr]; grind

/-- After an alteration the key has the altered value and every other key what it had. -/
theorem get?_alter (d : Dict α) (key k : String) (f : Option α → α) :
    (d.alter key f).get? k = if k = key then some (f (d.get? key)) else d.get? k :=
  lookup_alterEntries d.ascending

/-- After an insertion the key has the new value and every other key what it had. -/
theorem get?_insert (d : Dict α) (key k : String) (value : α) :
    (d.insert key value).get? k = if k = key then some value else d.get? k :=
  get?_alter d key k _

example : (ofList [("b", 1), ("a", 2), ("b", 3)]).toList = [("a", 2), ("b", 3)] := by
  decide +kernel

end Dict

/-- A finite set of texts, in ascending order. -/
structure NameSet where
  toList : List String
  ascending : toList.Pairwise (· < ·)
  deriving DecidableEq, Repr

namespace NameSet

/-- The set without members. -/
def empty : NameSet := ⟨[], .nil⟩

instance : EmptyCollection NameSet := ⟨empty⟩
instance : Inhabited NameSet := ⟨empty⟩

/-- Whether the text is a member. -/
def contains (s : NameSet) (name : String) : Bool := s.toList.contains name

/-- An ascending list with the name at its place. -/
def insertName (name : String) : List String → List String
  | [] => [name]
  | n :: rest =>
    if name < n then name :: n :: rest
    else if name = n then n :: rest
    else n :: insertName name rest

theorem mem_insertName {name n : String} {l : List String} :
    n ∈ insertName name l ↔ n = name ∨ n ∈ l := by
  induction l with
  | nil => simp [insertName]
  | cons head rest ih =>
    simp only [insertName]
    split
    · simp
    · split
      · next h => subst h; simp
      · simp only [List.mem_cons, ih]; grind

theorem ascending_insertName {name : String} {l : List String}
    (h : l.Pairwise (· < ·)) : (insertName name l).Pairwise (· < ·) := by
  induction l with
  | nil => simp [insertName]
  | cons head rest ih =>
    obtain ⟨hh, hr⟩ := List.pairwise_cons.1 h
    simp only [insertName]
    split
    · next hlt =>
      refine List.pairwise_cons.2 ⟨fun n hn => ?_, h⟩
      rcases List.mem_cons.1 hn with rfl | hn
      · exact hlt
      · exact String.lt_trans hlt (hh n hn)
    · split
      · exact h
      · next hlt hne =>
        refine List.pairwise_cons.2 ⟨fun n hn => ?_, ih hr⟩
        rcases mem_insertName.1 hn with rfl | hn
        · grind
        · exact hh n hn

/-- The set with one more member. -/
def insert (s : NameSet) (name : String) : NameSet :=
  ⟨insertName name s.toList, ascending_insertName s.ascending⟩

/-- The set of the texts of a list. -/
def ofList (names : List String) : NameSet := names.foldl insert empty

/-- The number of members. -/
def size (s : NameSet) : Nat := s.toList.length

/-- Whether there is no member. -/
def isEmpty (s : NameSet) : Bool := s.toList.isEmpty

theorem mem_insert (s : NameSet) (name n : String) :
    n ∈ (s.insert name).toList ↔ n = name ∨ n ∈ s.toList :=
  mem_insertName

/-- The members that satisfy a test. -/
def filter (s : NameSet) (p : String → Bool) : NameSet :=
  ⟨s.toList.filter p, s.ascending.filter p⟩

/-- The least member, and the set without it. -/
def popFirst? (s : NameSet) : Option (String × NameSet) :=
  match h : s.toList with
  | [] => none
  | name :: rest => some (name, ⟨rest, (List.pairwise_cons.1 (h ▸ s.ascending)).2⟩)

/-- The least member stands in front of the others. -/
theorem toList_of_popFirst? {s rest : NameSet} {name : String}
    (h : s.popFirst? = some (name, rest)) : s.toList = name :: rest.toList := by
  unfold popFirst? at h
  split at h
  · cases h
  · next heq =>
    cases h
    exact heq

theorem toList_of_popFirst?_eq_none {s : NameSet} (h : s.popFirst? = none) : s.toList = [] := by
  unfold popFirst? at h
  split at h
  · next heq => exact heq
  · cases h

theorem length_insertName_le (name : String) (l : List String) :
    (insertName name l).length ≤ l.length + 1 := by
  induction l with
  | nil => exact Nat.le_refl _
  | cons n rest ih =>
    simp only [insertName]
    split
    · exact Nat.le_refl _
    · split
      · exact Nat.le_succ _
      · exact Nat.succ_le_succ ih

example : (ofList ["b", "a", "b"]).toList = ["a", "b"] := by decide +kernel

end NameSet

/-- A list in ascending order, with the texts that occur twice kept twice. -/
def sortedNames (names : List String) : List String :=
  names.mergeSort fun a b => decide (a ≤ b)

end BuildAhead
