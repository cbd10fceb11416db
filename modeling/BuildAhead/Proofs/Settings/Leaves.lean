import BuildAhead.Proofs.Settings.Puts
import Mathlib.Data.List.Induction

set_option autoImplicit false

/-!
# Settings: what a row of puts leaves at a path

A value stands at a path of a tree if it is a text or a list there. A put decides what stands at its
own path, takes away what stands above it, and what stands below it if it gives a value; everywhere
else it changes nothing. So at a path with no put above or below it stands what the last put there
gave.
-/

namespace BuildAhead

namespace ConfigTree

/-! ## Paths in a tree -/

/-- What the names of a path lead to. -/
def node? : List String → ConfigTree → Option ConfigTree
  | [], tree => some tree
  | name :: path, tree => (Dict.lookup name tree.entriesOf).bind (node? path)

/-- A text or a list. -/
def leaf? : ConfigTree → Option ConfigTree
  | .scalar text => some (.scalar text)
  | .list items => some (.list items)
  | _ => none

/-- The text or the list at a path. -/
def leafAt (path : List String) (tree : ConfigTree) : Option ConfigTree :=
  (node? path tree).bind leaf?

theorem lookup_alter (key name : String) (f : Option ConfigTree → ConfigTree)
    (entries : List (String × ConfigTree)) :
    Dict.lookup name (alter key f entries) =
      if name = key then some (f (Dict.lookup key entries)) else Dict.lookup name entries := by
  induction entries with
  | nil =>
    by_cases hname : name = key
    · simp [alter, Dict.lookup, hname]
    · simp [alter, Dict.lookup, hname, Ne.symm hname]
  | cons entry rest ih =>
    obtain ⟨k, v⟩ := entry
    by_cases hk : k = key
    · by_cases hname : name = key
      · simp [alter, Dict.lookup, hk, hname]
      · simp [alter, Dict.lookup, hk, hname, Ne.symm hname]
    · by_cases hname : name = key
      · subst hname
        simp [alter, Dict.lookup, hk, ih]
      · simp [alter, Dict.lookup, hk, ih, hname]

/-- A first name leads on from the entries of the tree. -/
theorem bind_node?_cons (name : String) (path : List String) (old : Option ConfigTree) :
    old.bind (node? (name :: path)) =
      (Dict.lookup name (old.getD .absent).entriesOf).bind (node? path) := by
  cases old with
  | none => rfl
  | some tree => rfl

theorem node?_write_cons (f : Option ConfigTree → ConfigTree) (name other : String)
    (path rest : List String) (old : Option ConfigTree) :
    node? (other :: rest) (write f (name :: path) old) =
      if other = name then
        node? rest (write f path (Dict.lookup name (old.getD .absent).entriesOf))
      else old.bind (node? (other :: rest)) := by
  rw [bind_node?_cons]
  simp only [write, node?, entriesOf, lookup_alter]
  by_cases hname : other = name
  · simp [hname]
  · simp [hname]

theorem bind_node?_append (path rest : List String) (old : Option ConfigTree) :
    old.bind (node? (path ++ rest)) = (old.bind (node? path)).bind (node? rest) := by
  induction path generalizing old with
  | nil => cases old <;> rfl
  | cons name path ih => rw [List.cons_append, bind_node?_cons, bind_node?_cons, ih]

/-- What has no entries leads nowhere. -/
theorem node?_of_entriesOf_eq_nil {tree : ConfigTree} (htree : tree.entriesOf = [])
    {path : List String} (hpath : path ≠ []) : node? path tree = none := by
  cases path with
  | nil => exact absurd rfl hpath
  | cons name path =>
    rw [node?, htree]
    rfl

/-- At a path and below it one finds what was decided there. -/
theorem node?_write_append (f : Option ConfigTree → ConfigTree) (path rest : List String)
    (old : Option ConfigTree) :
    node? (path ++ rest) (write f path old) = node? rest (f (old.bind (node? path))) := by
  induction path generalizing old with
  | nil =>
    have hhere : old.bind (node? []) = old := by cases old <;> rfl
    rw [hhere]
    rfl
  | cons name path ih => rw [List.cons_append, node?_write_cons, if_pos rfl, ih, bind_node?_cons]

/-- Above the path of a decision one finds tables. -/
theorem leafAt_write_of_above (f : Option ConfigTree → ConfigTree) (above : List String)
    {below : List String} (hbelow : below ≠ []) (old : Option ConfigTree) :
    leafAt above (write f (above ++ below) old) = none := by
  induction above generalizing old with
  | nil =>
    cases below with
    | nil => exact absurd rfl hbelow
    | cons name below => rfl
  | cons name above ih =>
    rw [leafAt, List.cons_append, node?_write_cons, if_pos rfl]
    exact ih _

/-- Apart from the path of a decision one finds what was there. -/
theorem node?_write_of_apart (f : Option ConfigTree → ConfigTree) {path other : List String}
    (habove : ¬ other <+: path) (hbelow : ¬ path <+: other) (old : Option ConfigTree) :
    node? other (write f path old) = old.bind (node? other) := by
  induction path generalizing other old with
  | nil => exact absurd List.nil_prefix hbelow
  | cons name path ih =>
    cases other with
    | nil => exact absurd List.nil_prefix habove
    | cons first other =>
      rw [node?_write_cons]
      by_cases hname : first = name
      · subst hname
        rw [List.cons_prefix_cons] at habove hbelow
        have hother : ¬ other <+: path := fun h => habove ⟨rfl, h⟩
        have hpath : ¬ path <+: other := fun h => hbelow ⟨rfl, h⟩
        rw [if_pos rfl, ih hother hpath, bind_node?_cons]
      · rw [if_neg hname]

end ConfigTree

namespace Change

open ConfigTree

variable {c : Change} {old : Option ConfigTree}

/-- Every change but one leaves no entries. -/
theorem entriesOf_result (hc : c ≠ .table) : (c.result old).entriesOf = [] := by
  cases c with
  | table => exact absurd rfl hc
  | clear => rfl
  | scalar text => rfl
  | list items => rfl
  | item index steps value => rfl

theorem fills_of_leaf?_result {leaf : ConfigTree} (hc : c ≠ .table)
    (hleaf : leaf? (c.result old) = some leaf) : c.fills = true := by
  cases c with
  | table => exact absurd rfl hc
  | clear => cases hleaf
  | scalar text => rfl
  | list items => rfl
  | item index steps value => rfl

theorem leaf?_result_of_given? {leaf : ConfigTree} (hleaf : c.given? = some leaf) :
    leaf? (c.result old) = some leaf := by
  cases c with
  | scalar text => exact hleaf
  | list items => exact hleaf
  | table => cases hleaf
  | clear => cases hleaf
  | item index steps value => cases hleaf

end Change

/-! ## One put -/

namespace Put

open ConfigTree

variable {p : Put} {path : List String} {old : Option ConfigTree}

theorem leafAt_apply_append (rest : List String) :
    leafAt (p.path ++ rest) (p.apply old) =
      (node? rest (p.change.result (old.bind (node? p.path)))).bind leaf? := by
  rw [leafAt, apply, node?_write_append]

theorem leafAt_apply_path :
    leafAt p.path (p.apply old) = leaf? (p.change.result (old.bind (node? p.path))) := by
  have hhere : leafAt (p.path ++ []) (p.apply old) = _ := leafAt_apply_append []
  rw [List.append_nil] at hhere
  exact hhere

/-- Above its path, a put leaves a table. -/
theorem leafAt_apply_of_above (habove : path <+: p.path) (hne : path ≠ p.path) :
    leafAt path (p.apply old) = none := by
  obtain ⟨below, hbelow⟩ := habove
  have hnonempty : below ≠ [] := by
    rintro rfl
    exact hne (by simpa using hbelow)
  rw [apply, ← hbelow]
  exact leafAt_write_of_above _ _ hnonempty _

/-- A put that does not just make sure of a table leaves nothing below its path. -/
theorem leafAt_apply_of_below (hchange : p.change ≠ .table) (hbelow : p.path <+: path)
    (hne : p.path ≠ path) : leafAt path (p.apply old) = none := by
  obtain ⟨rest, rfl⟩ := hbelow
  have hrest : rest ≠ [] := by
    rintro rfl
    exact hne (List.append_nil _).symm
  rw [leafAt_apply_append, node?_of_entriesOf_eq_nil (Change.entriesOf_result hchange) hrest]
  rfl

/-- A put that makes sure of a table changes no value at its path or below it. -/
theorem leafAt_apply_of_table (hchange : p.change = .table) (hbelow : p.path <+: path) :
    leafAt path (p.apply old) = old.bind (leafAt path) := by
  obtain ⟨rest, rfl⟩ := hbelow
  have hold : old.bind (leafAt (p.path ++ rest)) =
      ((old.bind (node? p.path)).bind (node? rest)).bind leaf? := by
    rw [← bind_node?_append, Option.bind_assoc]
    rfl
  rw [leafAt_apply_append, hchange, hold]
  cases old.bind (node? p.path) with
  | none => cases rest <;> rfl
  | some tree => rfl

/-- Apart from its path, a put changes nothing. -/
theorem leafAt_apply_of_apart (habove : ¬ path <+: p.path) (hbelow : ¬ p.path <+: path) :
    leafAt path (p.apply old) = old.bind (leafAt path) := by
  rw [leafAt, apply, node?_write_of_apart _ habove hbelow, Option.bind_assoc]
  rfl

/-- What stands at a path after a put was given there, or stood there before. -/
theorem fills_or_of_leafAt_apply {leaf : ConfigTree}
    (hleaf : leafAt path (p.apply old) = some leaf) :
    (p.path = path ∧ p.change.fills = true) ∨ old.bind (leafAt path) = some leaf := by
  by_cases hbelow : p.path <+: path
  · by_cases hchange : p.change = .table
    · rw [leafAt_apply_of_table hchange hbelow] at hleaf
      exact .inr hleaf
    · by_cases hpath : p.path = path
      · subst hpath
        rw [leafAt_apply_path] at hleaf
        exact .inl ⟨rfl, Change.fills_of_leaf?_result hchange hleaf⟩
      · rw [leafAt_apply_of_below hchange hbelow hpath] at hleaf
        cases hleaf
  · by_cases habove : path <+: p.path
    · have hne : path ≠ p.path := fun h => hbelow (h ▸ List.prefix_rfl)
      rw [leafAt_apply_of_above habove hne] at hleaf
      cases hleaf
    · rw [leafAt_apply_of_apart habove hbelow] at hleaf
      exact .inr hleaf

/-! ## Rows of puts -/

theorem applyAll_concat (puts : List Put) (p : Put) (old : Option ConfigTree) :
    applyAll (puts ++ [p]) old = some (p.apply (applyAll puts old)) := by
  rw [applyAll_append]
  rfl

/-- The tree that a row of puts makes of an empty table. -/
def tree? (puts : List Put) : Option ConfigTree := applyAll puts (some (.table []))

theorem leafAt_tree?_nil (path : List String) : (tree? []).bind (leafAt path) = none := by
  cases path <;> rfl

/-- What stands at a path at the end was given there by one of the puts. -/
theorem exists_fills_of_leafAt {puts : List Put} {leaf : ConfigTree}
    (hleaf : (tree? puts).bind (leafAt path) = some leaf) :
    ∃ p ∈ puts, p.path = path ∧ p.change.fills = true := by
  induction puts using List.reverseRecOn with
  | nil =>
    rw [leafAt_tree?_nil] at hleaf
    cases hleaf
  | append_singleton puts p ih =>
    rw [tree?, applyAll_concat] at hleaf
    rcases fills_or_of_leafAt_apply hleaf with hhere | hbefore
    · exact ⟨p, List.mem_concat_self, hhere⟩
    · obtain ⟨q, hq, hfills⟩ := ih hbefore
      exact ⟨q, List.mem_append_left _ hq, hfills⟩

/-! ## The last value -/

section Last

variable (chosen : Put → Prop) [DecidablePred chosen]

/-- The last value that the chosen puts give. -/
def lastGiven? (puts : List Put) : Option ConfigTree :=
  puts.reverse.findSome? fun p => if chosen p then p.change.given? else none

theorem lastGiven?_append (first second : List Put) :
    lastGiven? chosen (first ++ second) =
      (lastGiven? chosen second).or (lastGiven? chosen first) := by
  rw [lastGiven?, List.reverse_append, List.findSome?_append]
  rfl

theorem lastGiven?_concat (puts : List Put) (p : Put) :
    lastGiven? chosen (puts ++ [p]) =
      (if chosen p then p.change.given? else none).or (lastGiven? chosen puts) := by
  rw [lastGiven?_append, lastGiven?, List.reverse_singleton, List.findSome?_singleton]

/-- The last value of rows that stand one after the other is that of the last row that has one. -/
theorem lastGiven?_flatten (rows : List (List Put)) :
    lastGiven? chosen rows.flatten = rows.reverse.findSome? (lastGiven? chosen) := by
  induction rows with
  | nil => rfl
  | cons row rows ih =>
    rw [List.flatten_cons, lastGiven?_append, ih, List.reverse_cons, List.findSome?_append,
      List.findSome?_singleton]

variable {chosen}

theorem exists_given_of_lastGiven? {puts : List Put} {leaf : ConfigTree}
    (hleaf : lastGiven? chosen puts = some leaf) :
    ∃ p ∈ puts, chosen p ∧ p.change.given? = some leaf := by
  obtain ⟨p, hp, hgiven⟩ := List.exists_of_findSome?_eq_some hleaf
  split at hgiven
  · next hchosen => exact ⟨p, List.mem_reverse.1 hp, hchosen, hgiven⟩
  · cases hgiven

theorem isSome_lastGiven? {puts : List Put} {p : Put} (hp : p ∈ puts) (hchosen : chosen p)
    (hgiven : p.change.given?.isSome = true) : (lastGiven? chosen puts).isSome = true := by
  rw [lastGiven?, List.findSome?_isSome_iff]
  refine ⟨p, List.mem_reverse.2 hp, ?_⟩
  rw [if_pos hchosen]
  exact hgiven

end Last

/-! ## What stands at a path -/

/-- No put is in the way at a path: above it there are only tables, below it nothing is put, and
what is put there is a whole value. -/
structure Alone (path : List String) (puts : List Put) : Prop where
  above : ∀ p ∈ puts, p.path <+: path → p.path ≠ path → p.change = .table
  below : ∀ p ∈ puts, path <+: p.path → p.path = path
  whole : ∀ p ∈ puts, p.path = path → p.change = .table ∨ p.change.given?.isSome = true

theorem Alone.init {puts : List Put} {p : Put} (h : Alone path (puts ++ [p])) :
    Alone path puts where
  above q hq := h.above q (List.mem_append_left _ hq)
  below q hq := h.below q (List.mem_append_left _ hq)
  whole q hq := h.whole q (List.mem_append_left _ hq)

/-- At a path with no put in the way stands what the last put there gave. -/
theorem leafAt_tree?_eq_lastGiven? {puts : List Put} (h : Alone path puts) :
    (tree? puts).bind (leafAt path) = lastGiven? (fun p => p.path = path) puts := by
  -- from the last put backwards: it decides alone, or leaves the path to those before it
  induction puts using List.reverseRecOn with
  | nil => exact leafAt_tree?_nil path
  | append_singleton puts p ih =>
    have hbefore := ih h.init
    have hp : p ∈ puts ++ [p] := List.mem_concat_self
    rw [tree?, applyAll_concat, lastGiven?_concat, Option.bind_some, ← hbefore]
    by_cases hpath : p.path = path
    · subst hpath
      rw [if_pos rfl]
      rcases h.whole p hp rfl with htable | hgiven
      · rw [leafAt_apply_of_table htable List.prefix_rfl, htable]
        rfl
      · obtain ⟨leaf, hleaf⟩ := Option.isSome_iff_exists.1 hgiven
        rw [leafAt_apply_path, Change.leaf?_result_of_given? hleaf, hleaf]
        rfl
    · rw [if_neg hpath, Option.none_or]
      have habove : ¬ path <+: p.path := fun hpre => hpath (h.below p hp hpre)
      by_cases hbelow : p.path <+: path
      · exact leafAt_apply_of_table (h.above p hp hbelow hpath) hbelow
      · exact leafAt_apply_of_apart habove hbelow

end Put

end BuildAhead
