import BuildAhead.Collection.Dict
import Mathlib.Data.List.Nodup

set_option autoImplicit false

/-!
# Collection: dictionaries and name sets as finite maps and sets

Everything a proof needs of a dictionary follows from what it answers: its entries are the pairs
that `get?` finds, its keys stand in strictly ascending order, and two dictionaries with the same
answers are equal. A name set is likewise determined by its members.
-/

namespace BuildAhead

/-! ## Strictly ascending lists -/

theorem nodup_of_ascending {names : List String} (h : names.Pairwise (· < ·)) : names.Nodup := by
  refine List.Pairwise.imp ?_ h
  intro a b hlt heq
  subst heq
  exact String.lt_irrefl a hlt

/-- A strictly ascending list is determined by its members. -/
theorem eq_of_ascending_of_mem_iff {a b : List String}
    (ha : a.Pairwise (· < ·)) (hb : b.Pairwise (· < ·)) (h : ∀ n, n ∈ a ↔ n ∈ b) : a = b := by
  have hperm : a.Perm b :=
    (List.perm_ext_iff_of_nodup (nodup_of_ascending ha) (nodup_of_ascending hb)).2 h
  refine hperm.eq_of_pairwise ?_ ha hb
  intro x y _ _ hxy hyx
  exact absurd (String.lt_trans hxy hyx) (String.lt_irrefl x)

namespace Dict

variable {α β : Type}

/-! ## Lookup in an entry list -/

theorem mem_of_lookup {key : String} {v : α} {l : List (String × α)}
    (h : lookup key l = some v) : (key, v) ∈ l := by
  induction l with
  | nil => simp [lookup] at h
  | cons head rest ih =>
    obtain ⟨k, w⟩ := head
    simp only [lookup] at h
    split at h
    · next heq =>
      subst heq
      have hwv : w = v := Option.some.inj h
      exact hwv ▸ List.mem_cons_self
    · exact List.mem_cons_of_mem _ (ih h)

theorem lookup_of_mem {key : String} {v : α} {l : List (String × α)}
    (hl : l.Pairwise KeyBefore) (h : (key, v) ∈ l) : lookup key l = some v := by
  induction l with
  | nil => simp at h
  | cons head rest ih =>
    obtain ⟨k, w⟩ := head
    obtain ⟨hk, hr⟩ := List.pairwise_cons.1 hl
    rcases List.mem_cons.1 h with heq | hmem
    · obtain ⟨rfl, rfl⟩ := Prod.mk.inj heq
      simp [lookup]
    · have hne : ¬ k = key := by
        have hlt : k < key := hk _ hmem
        exact fun heq => String.lt_irrefl key (heq ▸ hlt)
      simp only [lookup, hne, if_false]
      exact ih hr hmem

theorem lookup_append (key : String) (first second : List (String × α)) :
    lookup key (first ++ second) = (lookup key first).or (lookup key second) := by
  induction first with
  | nil => rfl
  | cons e rest ih =>
    simp only [List.cons_append, lookup]
    split
    · rfl
    · exact ih

theorem isSome_lookup {key : String} {l : List (String × α)} :
    (lookup key l).isSome = true ↔ key ∈ l.map Prod.fst := by
  induction l with
  | nil => simp [lookup]
  | cons e rest ih =>
    obtain ⟨k, v⟩ := e
    rw [List.map_cons, List.mem_cons, ← ih]
    by_cases hk : k = key
    · simp [lookup, hk]
    · simp [lookup, hk, Ne.symm hk]

theorem lookup_eq_none_iff {key : String} {l : List (String × α)} :
    lookup key l = none ↔ key ∉ l.map Prod.fst := by
  rw [← isSome_lookup, Bool.not_eq_true, Option.isSome_eq_false_iff, Option.isNone_iff_eq_none]

theorem lookup_of_mem_of_nodup {key : String} {v : α} {l : List (String × α)}
    (hl : (l.map Prod.fst).Nodup) (h : (key, v) ∈ l) : lookup key l = some v := by
  have hsome : (lookup key l).isSome = true := isSome_lookup.2 (List.mem_map.2 ⟨_, h, rfl⟩)
  obtain ⟨w, hw⟩ := Option.isSome_iff_exists.1 hsome
  have hsame : (key, w) = (key, v) := List.inj_on_of_nodup_map hl (mem_of_lookup hw) h rfl
  rw [hw, (Prod.mk.inj hsame).2]

/-! ## Entries, keys and values -/

theorem mem_toList {d : Dict α} {key : String} {v : α} :
    (key, v) ∈ d.toList ↔ d.get? key = some v :=
  ⟨lookup_of_mem d.ascending, mem_of_lookup⟩

theorem mem_keys {d : Dict α} {key : String} : key ∈ d.keys ↔ ∃ v, d.get? key = some v := by
  unfold keys
  rw [List.mem_map]
  constructor
  · intro hgiven
    obtain ⟨⟨k, v⟩, hmem, rfl⟩ := hgiven
    exact ⟨v, mem_toList.1 hmem⟩
  · intro hgiven
    obtain ⟨v, hv⟩ := hgiven
    exact ⟨(key, v), mem_toList.2 hv, rfl⟩

theorem mem_values {d : Dict α} {v : α} : v ∈ d.values ↔ ∃ key, d.get? key = some v := by
  unfold values
  rw [List.mem_map]
  constructor
  · intro hgiven
    obtain ⟨⟨k, w⟩, hmem, rfl⟩ := hgiven
    exact ⟨k, mem_toList.1 hmem⟩
  · intro hgiven
    obtain ⟨key, hv⟩ := hgiven
    exact ⟨(key, v), mem_toList.2 hv, rfl⟩

theorem contains_iff {d : Dict α} {key : String} :
    d.contains key = true ↔ ∃ v, d.get? key = some v := by
  unfold contains
  exact Option.isSome_iff_exists

/-- The keys stand in strictly ascending order. -/
theorem keys_ascending (d : Dict α) : d.keys.Pairwise (· < ·) := by
  unfold keys
  exact List.pairwise_map.2 d.ascending

theorem keys_nodup (d : Dict α) : d.keys.Nodup := nodup_of_ascending d.keys_ascending

theorem entries_nodup (d : Dict α) : d.entries.Nodup := List.Nodup.of_map _ d.keys_nodup

/-- A dictionary is determined by its answers. -/
theorem ext_get? {a b : Dict α} (h : ∀ key, a.get? key = b.get? key) : a = b := by
  apply Dict.ext
  have hperm : a.entries.Perm b.entries := by
    refine (List.perm_ext_iff_of_nodup a.entries_nodup b.entries_nodup).2 ?_
    intro hgiven
    obtain ⟨key, v⟩ := hgiven
    have hv : a.get? key = some v ↔ b.get? key = some v := by rw [h key]
    exact mem_toList.trans (hv.trans mem_toList.symm)
  refine hperm.eq_of_pairwise ?_ a.ascending b.ascending
  intro x y _ _ hxy hyx
  exact absurd (String.lt_trans hxy hyx) (String.lt_irrefl x.1)

@[simp] theorem get?_empty (key : String) : (∅ : Dict α).get? key = none := rfl

/-! ## Dictionaries of pairs -/

theorem get?_foldl_insert (d : Dict α) (pairs : List (String × α)) (key : String) :
    (pairs.foldl (fun d p => d.insert p.1 p.2) d).get? key =
      (lookup key pairs.reverse).or (d.get? key) := by
  induction pairs generalizing d with
  | nil => rfl
  | cons p rest ih =>
    rw [List.foldl_cons, ih, List.reverse_cons, lookup_append, get?_insert, Option.or_assoc]
    by_cases hkey : key = p.1
    · simp [lookup, hkey]
    · simp [lookup, hkey, Ne.symm hkey]

/-- A dictionary of pairs answers with the last pair of a key. -/
theorem get?_ofList_eq_lookup (pairs : List (String × α)) (key : String) :
    (ofList pairs).get? key = lookup key pairs.reverse :=
  (get?_foldl_insert empty pairs key).trans Option.or_none

theorem mem_of_get?_ofList {pairs : List (String × α)} {key : String} {v : α}
    (h : (ofList pairs).get? key = some v) : (key, v) ∈ pairs := by
  rw [get?_ofList_eq_lookup] at h
  exact List.mem_reverse.1 (mem_of_lookup h)

/-- If all pairs of a key have one value, the dictionary answers with it. -/
theorem get?_ofList_of_forall {pairs : List (String × α)} {key : String} {v : α}
    (hmem : (key, v) ∈ pairs) (hall : ∀ w, (key, w) ∈ pairs → w = v) :
    (ofList pairs).get? key = some v := by
  have hsome : (lookup key pairs.reverse).isSome = true :=
    isSome_lookup.2 (List.mem_map.2 ⟨(key, v), List.mem_reverse.2 hmem, rfl⟩)
  obtain ⟨w, hw⟩ := Option.isSome_iff_exists.1 hsome
  rw [get?_ofList_eq_lookup, hw, hall w (List.mem_reverse.1 (mem_of_lookup hw))]

/-- Pairs with distinct keys are found again in the dictionary that is made of them. -/
theorem get?_ofList {pairs : List (String × α)} (hnodup : (pairs.map (·.1)).Nodup)
    {key : String} {v : α} : (ofList pairs).get? key = some v ↔ (key, v) ∈ pairs := by
  refine ⟨mem_of_get?_ofList, fun hmem => get?_ofList_of_forall hmem fun w hw => ?_⟩
  exact (Prod.mk.inj (List.inj_on_of_nodup_map hnodup hw hmem rfl)).2

theorem alterEntries_nil (key : String) (f : Option α → α) :
    alterEntries key f [] = [(key, f none)] := rfl

/-- A key is entered in front of a greater one. -/
theorem alterEntries_cons_of_lt {key k : String} (h : key < k) (f : Option α → α) (v : α)
    (rest : List (String × α)) :
    alterEntries key f ((k, v) :: rest) = (key, f none) :: (k, v) :: rest := by
  rw [alterEntries, if_pos h]

/-- A key is entered behind a smaller one. -/
theorem alterEntries_cons_of_gt {key k : String} (h : k < key) (f : Option α → α) (v : α)
    (rest : List (String × α)) :
    alterEntries key f ((k, v) :: rest) = (k, v) :: alterEntries key f rest := by
  have hnot : ¬ key < k := fun hlt => String.lt_irrefl k (String.lt_trans h hlt)
  have hne : ¬ key = k := fun heq => String.lt_irrefl k (heq ▸ h)
  rw [alterEntries, if_neg hnot, if_neg hne]

/-- A dictionary is made again of its own entries. -/
theorem ofList_toList (d : Dict α) : ofList d.toList = d := by
  apply ext_get?
  intro key
  ext v
  exact (get?_ofList d.keys_nodup).trans mem_toList

end Dict

namespace NameSet

theorem contains_iff {s : NameSet} {name : String} : s.contains name = true ↔ name ∈ s.toList := by
  unfold contains
  exact List.contains_iff_mem

/-- What is in a set after further names were entered. -/
theorem mem_foldl_insert {s : NameSet} {names : List String} {n : String} :
    n ∈ (names.foldl insert s).toList ↔ n ∈ names ∨ n ∈ s.toList := by
  induction names generalizing s with
  | nil => simp
  | cons name rest ih =>
    rw [List.foldl_cons, ih, mem_insert, List.mem_cons, ← or_assoc, or_comm (a := n ∈ rest)]

theorem mem_ofList {names : List String} {n : String} : n ∈ (ofList names).toList ↔ n ∈ names := by
  unfold ofList
  rw [mem_foldl_insert]
  exact or_iff_left List.not_mem_nil

/-- An ascending list is the set of its texts. -/
theorem toList_ofList {names : List String} (h : names.Pairwise (· < ·)) :
    (ofList names).toList = names :=
  eq_of_ascending_of_mem_iff (ofList names).ascending h fun _ => mem_ofList

theorem ext {s t : NameSet} (h : s.toList = t.toList) : s = t := by
  cases s
  cases t
  cases h
  rfl

/-- A member that is put in again changes nothing. -/
theorem insert_of_mem {s : NameSet} {name : String} (h : name ∈ s.toList) : s.insert name = s := by
  refine ext (eq_of_ascending_of_mem_iff (s.insert name).ascending s.ascending fun n => ?_)
  rw [mem_insert]
  constructor
  · rintro (rfl | hn)
    · exact h
    · exact hn
  · exact .inr

end NameSet

end BuildAhead
