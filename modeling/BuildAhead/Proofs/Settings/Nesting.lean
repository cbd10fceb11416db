import BuildAhead.Proofs.Settings.Ordering
import BuildAhead.Proofs.Text.Pieces

set_option autoImplicit false

/-!
# Settings: nesting

A dotted key can be written in a tree of tables in as many ways as there are to cut it at its dots,
from one table for each of its names to a single name with all the dots in it. Flattening gives back
the settings whichever way is taken, and does not see entries without a value. It fails only for a
list that holds something else than texts.
-/

namespace BuildAhead

namespace ConfigTree

variable {text : TextReader}

/-! ## Entries without a value -/

/-- There is neither a text nor a list in the tree: it is nothing, or a table of such trees. -/
inductive Void : ConfigTree → Prop where
  | absent : Void .absent
  | table {entries : List (String × ConfigTree)} (h : ∀ e ∈ entries, Void e.2) :
    Void (.table entries)

/-- One of the tables of the tree has got a further entry, in which there is no value. -/
inductive Pads : ConfigTree → ConfigTree → Prop where
  | here {before after : List (String × ConfigTree)} {name : String} {void : ConfigTree}
    (h : Void void) : Pads (.table (before ++ after)) (.table (before ++ (name, void) :: after))
  | inside {before after : List (String × ConfigTree)} {name : String} {tree tree' : ConfigTree}
    (h : Pads tree tree') :
    Pads (.table (before ++ (name, tree) :: after)) (.table (before ++ (name, tree') :: after))

theorem flattenEntries_eq_nil {entries : List (String × ConfigTree)}
    (h : ∀ e ∈ entries, ∀ key, flatten text key e.2 = .ok []) (base : String) :
    flattenEntries text base entries = .ok [] := by
  induction entries with
  | nil => rfl
  | cons entry rest ih =>
    rw [List.forall_mem_cons] at h
    exact flattenEntries_cons_of_eq_ok (h.1 _) (ih h.2)

theorem flatten_of_void {tree : ConfigTree} (h : Void tree) (key : String) :
    flatten text key tree = .ok [] := by
  induction h generalizing key with
  | absent => rfl
  | table _ ih => exact flattenEntries_eq_nil ih _

/-- An entry that is flattened to the same values as another can stand in its place. -/
theorem flattenEntries_congr {base name : String} {tree tree' : ConfigTree}
    (h : flatten text (base ++ name) tree' = flatten text (base ++ name) tree)
    (before after : List (String × ConfigTree)) :
    flattenEntries text base (before ++ (name, tree') :: after) =
      flattenEntries text base (before ++ (name, tree) :: after) := by
  rw [flattenEntries_append, flattenEntries_append, flattenEntries, flattenEntries, h]

theorem flattenEntries_void (base name : String) {void : ConfigTree} (h : Void void)
    (before after : List (String × ConfigTree)) :
    flattenEntries text base (before ++ (name, void) :: after) =
      flattenEntries text base (before ++ after) := by
  have hafter : flattenEntries text base ((name, void) :: after) =
      flattenEntries text base after := by
    rw [flattenEntries, flatten_of_void h]
    cases flattenEntries text base after with
    | error e => rfl
    | ok values => rfl
  rw [flattenEntries_append, flattenEntries_append, hafter]

theorem Pads.flatten_eq {tree tree' : ConfigTree} (h : Pads tree tree') (key : String) :
    flatten text key tree' = flatten text key tree := by
  induction h generalizing key with
  | here hvoid => exact flattenEntries_void _ _ hvoid _ _
  | inside _ ih => exact flattenEntries_congr (ih _) _ _

theorem Pads.settings_eq {tree tree' : ConfigTree} (h : Pads tree tree') :
    tree'.settings text = tree.settings text := by
  cases h with
  | here hvoid => rw [settings, settings, entriesOf, entriesOf, flattenEntries_void _ _ hvoid]
  | inside hinside =>
    rw [settings, settings, entriesOf, entriesOf, flattenEntries_congr (hinside.flatten_eq _)]

/-- Entries without a value add nothing to the settings. -/
theorem settings_eq_of_pads {tree tree' : ConfigTree} (h : Relation.ReflTransGen Pads tree tree') :
    tree'.settings text = tree.settings text := by
  induction h with
  | refl => rfl
  | tail _ hlast ih => exact hlast.settings_eq.trans ih

/-! ## Lists that cannot be flattened -/

/-- A tree that is part of another one, or the tree itself. -/
inductive Within (sub : ConfigTree) : ConfigTree → Prop where
  | refl : Within sub sub
  | entry {name : String} {tree : ConfigTree} {entries : List (String × ConfigTree)}
    (hentry : (name, tree) ∈ entries) (h : Within sub tree) : Within sub (.table entries)
  | item {tree : ConfigTree} {items : List ConfigTree} (hitem : tree ∈ items)
    (h : Within sub tree) : Within sub (.list items)

/-- What a list must not hold. -/
inductive Misfit : ConfigTree → Prop where
  | absent : Misfit .absent
  | list (items : List ConfigTree) : Misfit (.list items)
  | table (entries : List (String × ConfigTree)) : Misfit (.table entries)

/-- Some list of the tree holds nothing at one of its positions, or a list or a table. -/
def HoldsMisfit (tree : ConfigTree) : Prop :=
  ∃ items item, Within (.list items) tree ∧ item ∈ items ∧ Misfit item

theorem Within.misfit {items : List ConfigTree} {tree : ConfigTree} (h : Within (.list items) tree) :
    Misfit tree := by
  cases h with
  | refl => exact .list items
  | entry _ _ => exact .table _
  | item _ _ => exact .list _

theorem holdsMisfit_table_iff {entries : List (String × ConfigTree)} :
    HoldsMisfit (.table entries) ↔ ∃ e ∈ entries, HoldsMisfit e.2 := by
  constructor
  · rintro ⟨items, item, hwithin, hitem, hmisfit⟩
    cases hwithin with
    | entry hentry hbelow => exact ⟨_, hentry, items, item, hbelow, hitem, hmisfit⟩
  · rintro ⟨e, he, items, item, hwithin, hitem, hmisfit⟩
    exact ⟨items, item, .entry he hwithin, hitem, hmisfit⟩

/-- A list inside a list is a misfit of the outer one. -/
theorem holdsMisfit_list_iff {items : List ConfigTree} :
    HoldsMisfit (.list items) ↔ ∃ item ∈ items, Misfit item := by
  constructor
  · rintro ⟨inner, item, hwithin, hitem, hmisfit⟩
    cases hwithin with
    | refl => exact ⟨item, hitem, hmisfit⟩
    | item houter hbelow => exact ⟨_, houter, hbelow.misfit⟩
  · rintro ⟨item, hitem, hmisfit⟩
    exact ⟨items, item, .refl, hitem, hmisfit⟩

theorem exists_textOf_iff (htext : ReadsScalars text) {item : ConfigTree} :
    (∃ value, textOf text item = .ok value) ↔ ¬ Misfit item := by
  simp only [htext.textOf_eq_ok_iff]
  cases item with
  | absent => exact iff_of_false nofun (not_not.2 .absent)
  | scalar s => exact iff_of_true ⟨s, rfl⟩ nofun
  | list items => exact iff_of_false nofun (not_not.2 (.list items))
  | table entries => exact iff_of_false nofun (not_not.2 (.table entries))

mutual

/-- A tree can be flattened if none of its lists holds a misfit, and only then. -/
theorem exists_flatten_iff (htext : ReadsScalars text) : ∀ (tree : ConfigTree) (key : String),
    (∃ values, flatten text key tree = .ok values) ↔ ¬ HoldsMisfit tree
  | .absent, _ => by
    refine iff_of_true ⟨[], rfl⟩ ?_
    rintro ⟨items, item, hwithin, -, -⟩
    nomatch hwithin
  | .scalar s, key => by
    have hvalue : textOf text (.scalar s) = .ok s := htext.textOf_eq_ok_iff.2 rfl
    refine iff_of_true ⟨[(key, .scalar s)], by rw [flatten, hvalue]; rfl⟩ ?_
    rintro ⟨items, item, hwithin, -, -⟩
    nomatch hwithin
  | .list items, key => by
    have hlist : (∃ values, flatten text key (.list items) = .ok values) ↔
        ∃ values, items.mapM (textOf text) = .ok values := by
      rw [flatten]
      cases items.mapM (textOf text) with
      | error e => exact iff_of_false nofun nofun
      | ok values => exact iff_of_true ⟨_, rfl⟩ ⟨_, rfl⟩
    rw [hlist, exists_mapM_eq_ok_iff, holdsMisfit_list_iff]
    simp only [exists_textOf_iff htext, not_exists, not_and]
  | .table entries, key => by
    rw [flatten, exists_flattenEntries_iff htext entries, holdsMisfit_table_iff]
    simp only [not_exists, not_and]

theorem exists_flattenEntries_iff (htext : ReadsScalars text) :
    ∀ (entries : List (String × ConfigTree)) (base : String),
    (∃ values, flattenEntries text base entries = .ok values) ↔ ∀ e ∈ entries, ¬ HoldsMisfit e.2
  | [], _ => iff_of_true ⟨[], rfl⟩ fun _ he => absurd he List.not_mem_nil
  | (name, tree) :: rest, base => by
    rw [List.forall_mem_cons, ← exists_flatten_iff htext tree (base ++ name),
      ← exists_flattenEntries_iff htext rest base]
    constructor
    · rintro ⟨values, hvalues⟩
      obtain ⟨first, others, hfirst, hothers, -⟩ := flattenEntries_cons_eq_ok hvalues
      exact ⟨⟨first, hfirst⟩, others, hothers⟩
    · rintro ⟨⟨first, hfirst⟩, others, hothers⟩
      exact ⟨_, flattenEntries_cons_of_eq_ok hfirst hothers⟩

end

/-- There are no settings of a table exactly when one of its lists holds a misfit. -/
theorem isOk_settings_eq_false_iff (htext : ReadsScalars text)
    {entries : List (String × ConfigTree)} :
    ((ConfigTree.table entries).settings text).isOk = false ↔ HoldsMisfit (.table entries) := by
  have hsome : ((ConfigTree.table entries).settings text).isOk = true ↔
      ∃ values, flattenEntries text "" entries = .ok values := by
    rw [settings, entriesOf]
    cases flattenEntries text "" entries with
    | error e =>
      refine iff_of_false Bool.false_ne_true ?_
      rintro ⟨values, hvalues⟩
      cases hvalues
    | ok values => exact iff_of_true rfl ⟨values, rfl⟩
  rw [← Bool.not_eq_true, hsome, exists_flattenEntries_iff htext, holdsMisfit_table_iff]
  simp only [not_forall, not_not, exists_prop]

/-! ## Trees that write a dictionary -/

/-- The text or the list of texts of a value. -/
def ofValue : SettingValue → ConfigTree
  | .scalar text => .scalar text
  | .list texts => .list (texts.map .scalar)

/-- The values of the tree are those of the dictionary, each under a path whose names make up its key
with dots between them. How a key is cut at its dots is left open, and so is what else there is in
the tree that is no value. -/
structure Writes (tree : ConfigTree) (d : Dict SettingValue) : Prop where
  tidy : Tidy tree
  written : ∀ key v, d.get? key = some v →
    ∃ path, dottedKey path = key ∧ leafAt path tree = some (ofValue v)
  only : ∀ path leaf, leafAt path tree = some leaf →
    ∃ v, leaf = ofValue v ∧ d.get? (dottedKey path) = some v

theorem leaf?_ofValue (v : SettingValue) : leaf? (ofValue v) = some (ofValue v) := by
  cases v with
  | scalar text => rfl
  | list texts => rfl

theorem entriesOf_ofValue (v : SettingValue) : (ofValue v).entriesOf = [] := by
  cases v with
  | scalar text => rfl
  | list texts => rfl

theorem mapM_textOf_map_scalar (htext : ReadsScalars text) (values : List String) :
    (values.map ConfigTree.scalar).mapM (textOf text) = .ok values := by
  rw [mapM_eq_ok_iff, List.forall₂_map_left_iff, List.forall₂_same]
  exact fun _ _ => htext.textOf_eq_ok_iff.2 rfl

theorem setting?_ofValue (htext : ReadsScalars text) (v : SettingValue) :
    setting? text (ofValue v) = some v := by
  cases v with
  | scalar s =>
    rw [ofValue, setting?, htext.textOf_eq_ok_iff.2 rfl]
    rfl
  | list values =>
    rw [ofValue, setting?, mapM_textOf_map_scalar htext]
    rfl

theorem not_holdsMisfit_ofValue (v : SettingValue) : ¬ HoldsMisfit (ofValue v) := by
  rw [← exists_flatten_iff readsScalars_standard _ ""]
  cases v with
  | scalar s => exact ⟨_, rfl⟩
  | list values =>
    rw [ofValue, flatten, mapM_textOf_map_scalar readsScalars_standard]
    exact ⟨_, rfl⟩

/-- A list with a misfit stands at a path, or is inside one that does. -/
theorem Tidy.exists_leafAt_of_holdsMisfit {tree : ConfigTree} (htidy : Tidy tree)
    (h : HoldsMisfit tree) : ∃ path leaf, leafAt path tree = some leaf ∧ HoldsMisfit leaf := by
  obtain ⟨items, item, hwithin, hitem, hmisfit⟩ := h
  induction hwithin with
  | refl => exact ⟨[], .list items, rfl, items, item, .refl, hitem, hmisfit⟩
  | @entry name sub entries hentry _ ih =>
    obtain ⟨path, leaf, hleaf, hholds⟩ := ih (htidy.entries _ hentry)
    refine ⟨name :: path, leaf, ?_, hholds⟩
    obtain ⟨hnames, -⟩ := htidy
    rw [leafAt_cons, Dict.lookup_of_mem_of_nodup hnames hentry]
    exact hleaf
  | @item sub outer houter hbelow _ =>
    exact ⟨[], .list outer, rfl, outer, sub, .refl, houter, hbelow.misfit⟩

section Writes

variable {entries : List (String × ConfigTree)} {d : Dict SettingValue}
  {values : List (String × SettingValue)}

theorem Writes.exists_flattenEntries (h : Writes (.table entries) d) (htext : ReadsScalars text) :
    ∃ values, flattenEntries text "" entries = .ok values := by
  rw [exists_flattenEntries_iff htext]
  intro e he hholds
  obtain ⟨path, leaf, hleaf, hmisfit⟩ :=
    h.tidy.exists_leafAt_of_holdsMisfit (holdsMisfit_table_iff.2 ⟨e, he, hholds⟩)
  obtain ⟨v, rfl, -⟩ := h.only path leaf hleaf
  exact not_holdsMisfit_ofValue v hmisfit

theorem Writes.mem_values_iff (h : Writes (.table entries) d) (htext : ReadsScalars text)
    (hvalues : flattenEntries text "" entries = .ok values) {key : String} {v : SettingValue} :
    (key, v) ∈ values ↔ d.get? key = some v := by
  rw [ConfigTree.mem_values_iff h.tidy hvalues]
  constructor
  · rintro ⟨path, rfl, leaf, hleaf, hv⟩
    obtain ⟨w, rfl, hget⟩ := h.only path leaf hleaf
    rw [setting?_ofValue htext] at hv
    cases hv
    exact hget
  · intro hget
    obtain ⟨path, hpath, hleaf⟩ := h.written key v hget
    exact ⟨path, hpath, ofValue v, hleaf, setting?_ofValue htext v⟩

theorem Writes.ofList_values (h : Writes (.table entries) d) (htext : ReadsScalars text)
    (hvalues : flattenEntries text "" entries = .ok values) : Dict.ofList values = d := by
  apply Dict.ext_get?
  intro key
  ext v
  constructor
  · intro hget
    exact (h.mem_values_iff htext hvalues).1 (Dict.mem_of_get?_ofList hget)
  · intro hget
    refine Dict.get?_ofList_of_forall ((h.mem_values_iff htext hvalues).2 hget) fun w hw => ?_
    have hsame : some w = some v := ((h.mem_values_iff htext hvalues).1 hw).symm.trans hget
    exact Option.some.inj hsame

end Writes

end ConfigTree

/-! ## Keys in their form -/

namespace Settings

/-- The key is in the form in which keys are kept: no blanks at its ends and no capital ASCII
letter. -/
def IsNormal (key : String) : Prop :=
  Text.IsTrimmed key ∧ ∀ c ∈ key.toList, ¬ ('A' ≤ c ∧ c ≤ 'Z')

-- decided from the characters that the key has, not for every character there is
instance (key : String) : Decidable (IsNormal key) :=
  decidable_of_iff
    ((key.toList.head?.all fun c => !Text.isBlank c) = true ∧
      (key.toList.getLast?.all fun c => !Text.isBlank c) = true ∧
      (key.toList.all fun c => !decide ('A' ≤ c ∧ c ≤ 'Z')) = true)
    (by simp only [IsNormal, Text.IsTrimmed, Option.all_eq_true, List.all_eq_true,
      Bool.not_eq_true', decide_eq_false_iff_not, and_assoc, Option.mem_def])

theorem IsNormal.normalKey_eq {key : String} (h : IsNormal key) : normalKey key = key := by
  have hchars : key.toList.map Text.asciiLowerChar = key.toList.map id :=
    List.map_congr_left fun c hc => by rw [Text.asciiLowerChar, if_neg (h.2 c hc), id_eq]
  rw [normalKey, h.1.trim_eq, Text.asciiLower, hchars, List.map_id, String.ofList_toList]

/-- Settings are made of values under keys that are in their form. -/
theorem ofValues_toList {d : Dict SettingValue} (hd : ∀ key ∈ d.keys, IsNormal key) :
    ofValues d.toList = ⟨d⟩ := by
  have hvalues : ofValues d.toList =
      ⟨.ofList (d.toList.map fun e => (normalKey e.1, e.2))⟩ := rfl
  have hpairs : d.toList.map (fun e => (normalKey e.1, e.2)) = d.toList.map id := by
    refine List.map_congr_left fun e he => ?_
    have hkey := hd e.1 (List.mem_map_of_mem he)
    exact Prod.ext hkey.normalKey_eq rfl
  rw [hvalues, hpairs, List.map_id, Dict.ofList_toList]

end Settings

namespace ConfigTree

/-- A tree that writes a dictionary has the settings of the dictionary. -/
theorem Writes.settings_eq {text : TextReader} (htext : ReadsScalars text)
    {entries : List (String × ConfigTree)} {d : Dict SettingValue} (h : Writes (.table entries) d)
    (hd : ∀ key ∈ d.keys, Settings.IsNormal key) :
    (ConfigTree.table entries).settings text = .ok ⟨d⟩ := by
  obtain ⟨values, hvalues⟩ := h.exists_flattenEntries htext
  have hsettings : (ConfigTree.table entries).settings text = .ok (Settings.ofFlat values) :=
    settings_of_flattenEntries hvalues
  rw [hsettings, Settings.ofFlat, h.ofList_values htext hvalues, Settings.ofValues_toList hd]

/-! ## A tree for every way of cutting -/

/-- The key begins with the names of the other one and goes on behind a dot. -/
def Continues (key other : String) : Prop := other.toList ++ ['.'] <+: key.toList

instance (key other : String) : Decidable (Continues key other) :=
  inferInstanceAs (Decidable (_ <+: _))

/-- The tree that has each value at its path. -/
def ofPaths (pairs : List (List String × SettingValue)) : ConfigTree :=
  pairs.foldl (fun tree e => write (fun _ => ofValue e.2) e.1 (some tree)) (.table [])

theorem ofPaths_concat (pairs : List (List String × SettingValue))
    (e : List String × SettingValue) :
    ofPaths (pairs ++ [e]) = write (fun _ => ofValue e.2) e.1 (some (ofPaths pairs)) := by
  rw [ofPaths, List.foldl_append]
  rfl

theorem tidy_ofPaths (pairs : List (List String × SettingValue)) : Tidy (ofPaths pairs) := by
  induction pairs using List.reverseRecOn with
  | nil => exact .of_entriesOf_eq_nil rfl
  | append_singleton pairs e ih =>
    rw [ofPaths_concat]
    refine tidy_write (fun _ _ => .of_entriesOf_eq_nil (entriesOf_ofValue e.2)) e.1 ?_
    rintro tree ⟨⟩
    exact ih

theorem exists_ofPaths_eq_table {pairs : List (List String × SettingValue)}
    (hpaths : ∀ e ∈ pairs, e.1 ≠ []) : ∃ entries, ofPaths pairs = .table entries := by
  induction pairs using List.reverseRecOn with
  | nil => exact ⟨[], rfl⟩
  | append_singleton pairs e _ =>
    rw [ofPaths_concat]
    cases hpath : e.1 with
    | nil => exact absurd hpath (hpaths e List.mem_concat_self)
    | cons name path => exact ⟨_, rfl⟩

/-- Neither path leads on from the other. -/
def Apart (path other : List String) : Prop := ¬ path <+: other ∧ ¬ other <+: path

/-- A value that is written stands at its path, and what is apart from it stays. -/
theorem leafAt_write_ofValue_eq_some_iff {v : SettingValue} {path other : List String}
    {old : Option ConfigTree} {leaf : ConfigTree} :
    leafAt other (write (fun _ => ofValue v) path old) = some leaf ↔
      other = path ∧ leaf = ofValue v ∨ Apart other path ∧ old.bind (leafAt other) = some leaf := by
  by_cases hbelow : path <+: other
  · have hapart : ¬ Apart other path := fun h => h.2 hbelow
    obtain ⟨rest, rfl⟩ := hbelow
    rw [leafAt, node?_write_append]
    by_cases hrest : rest = []
    · subst hrest
      rw [List.append_nil] at hapart ⊢
      simp [node?, leaf?_ofValue, hapart, eq_comm]
    · simp [node?_of_entriesOf_eq_nil (entriesOf_ofValue v) hrest, hrest, hapart]
  · by_cases habove : other <+: path
    · have hapart : ¬ Apart other path := fun h => h.1 habove
      have hne : other ≠ path := fun heq => hbelow (heq ▸ List.prefix_rfl)
      obtain ⟨below, rfl⟩ := habove
      have hnonempty : below ≠ [] := by
        rintro rfl
        exact hne (List.append_nil other).symm
      simp [leafAt_write_of_above _ _ hnonempty, hne, hapart]
    · have hne : other ≠ path := fun heq => hbelow (heq ▸ List.prefix_rfl)
      have hapart : Apart other path := ⟨habove, hbelow⟩
      rw [leafAt, node?_write_of_apart _ habove hbelow, Option.bind_assoc]
      simp only [hne, hapart, false_and, true_and, false_or]
      rfl

theorem leafAt_ofPaths_eq_some_iff {pairs : List (List String × SettingValue)}
    (hpairs : pairs.Pairwise fun a b => Apart a.1 b.1) {path : List String} {leaf : ConfigTree} :
    leafAt path (ofPaths pairs) = some leaf ↔ ∃ e ∈ pairs, e.1 = path ∧ leaf = ofValue e.2 := by
  induction pairs using List.reverseRecOn with
  | nil =>
    have hnone : leafAt path (.table []) = none := by cases path <;> rfl
    rw [ofPaths, List.foldl_nil, hnone]
    exact iff_of_false nofun fun ⟨_, he, _⟩ => absurd he List.not_mem_nil
  | append_singleton pairs e ih =>
    obtain ⟨hpairs, -, hlast⟩ := List.pairwise_append.1 hpairs
    rw [ofPaths_concat, leafAt_write_ofValue_eq_some_iff, Option.bind_some, ih hpairs]
    constructor
    · rintro (⟨rfl, rfl⟩ | ⟨-, e', he', hleaf⟩)
      · exact ⟨e, List.mem_concat_self, rfl, rfl⟩
      · exact ⟨e', List.mem_append_left _ he', hleaf⟩
    · rintro ⟨e', he', rfl, rfl⟩
      rcases List.mem_append.1 he' with hmem | hmem
      · exact .inr ⟨hlast e' hmem e List.mem_cons_self, e', hmem, rfl, rfl⟩
      · rw [List.mem_singleton.1 hmem]
        exact .inl ⟨rfl, rfl⟩

theorem dottedKey_append {path rest : List String} (hpath : path ≠ []) (hrest : rest ≠ []) :
    dottedKey (path ++ rest) = dottedKey path ++ "." ++ dottedKey rest := by
  unfold dottedKey
  induction path with
  | nil => exact absurd rfl hpath
  | cons name path ih =>
    by_cases hnil : path = []
    · subst hnil
      rw [List.singleton_append, Text.joined_cons_of_ne_nil _ _ hrest, Text.joined]
    · have happend : path ++ rest ≠ [] := fun h => hnil (List.append_eq_nil_iff.1 h).1
      rw [List.cons_append, Text.joined_cons_of_ne_nil _ _ happend, ih hnil,
        Text.joined_cons_of_ne_nil _ _ hnil]
      simp only [String.append_assoc]

/-- The key that a path has is that of a path that leads on from it, or the latter continues it. -/
theorem eq_or_continues_of_prefix {path other : List String} (hpath : path ≠ [])
    (hpre : path <+: other) :
    dottedKey other = dottedKey path ∨ Continues (dottedKey other) (dottedKey path) := by
  obtain ⟨rest, rfl⟩ := hpre
  by_cases hrest : rest = []
  · subst hrest
    exact .inl (by rw [List.append_nil])
  · refine .inr ?_
    have hchars : (dottedKey (path ++ rest)).toList =
        (dottedKey path).toList ++ ['.'] ++ (dottedKey rest).toList := by
      rw [dottedKey_append hpath hrest, String.toList_append, String.toList_append]
      rfl
    rw [Continues, hchars]
    exact List.prefix_append _ _

/-- The names are a way to write the key: it is cut at some of its dots. -/
structure IsCut (key : String) (path : List String) : Prop where
  nonempty : path ≠ []
  names : dottedKey path = key

/-- The values of a dictionary under their keys, as they are cut. -/
def cutPairs (cut : String → List String) (d : Dict SettingValue) :
    List (List String × SettingValue) := d.toList.map fun e => (cut e.1, e.2)

section Cut

variable {d : Dict SettingValue} {cut : String → List String}
  (hd : ∀ key ∈ d.keys, ∀ other ∈ d.keys, ¬ Continues key other)
  (hcut : ∀ key ∈ d.keys, IsCut key (cut key))

include hd hcut

/-- Keys that do not continue each other lead apart, however they are cut. -/
theorem not_prefix_of_isCut {key other : String} (hkey : key ∈ d.keys) (hother : other ∈ d.keys)
    (hne : key ≠ other) : ¬ cut key <+: cut other := by
  intro hpre
  have hnames := (hcut key hkey).names
  have hnames' := (hcut other hother).names
  rcases eq_or_continues_of_prefix (hcut key hkey).nonempty hpre with heq | hcontinues
  · rw [hnames, hnames'] at heq
    exact hne heq.symm
  · rw [hnames, hnames'] at hcontinues
    exact hd other hother key hkey hcontinues

theorem pairwise_apart_cutPairs : (cutPairs cut d).Pairwise fun a b => Apart a.1 b.1 := by
  have hascending : d.toList.Pairwise KeyBefore := d.ascending
  refine List.pairwise_map.2 (hascending.imp_of_mem fun {a b} ha hb hlt => ?_)
  have hlt : a.1 < b.1 := hlt
  have hne : a.1 ≠ b.1 := fun heq => String.lt_irrefl b.1 (heq ▸ hlt)
  have ha : a.1 ∈ d.keys := List.mem_map_of_mem ha
  have hb : b.1 ∈ d.keys := List.mem_map_of_mem hb
  exact ⟨not_prefix_of_isCut hd hcut ha hb hne, not_prefix_of_isCut hd hcut hb ha hne.symm⟩

theorem leafAt_cutPairs_iff {path : List String} {leaf : ConfigTree} :
    leafAt path (ofPaths (cutPairs cut d)) = some leaf ↔
      ∃ key v, d.get? key = some v ∧ cut key = path ∧ leaf = ofValue v := by
  rw [leafAt_ofPaths_eq_some_iff (pairwise_apart_cutPairs hd hcut)]
  constructor
  · rintro ⟨e, he, rfl, rfl⟩
    obtain ⟨⟨key, v⟩, hmem, rfl⟩ := List.mem_map.1 he
    exact ⟨key, v, Dict.mem_toList.1 hmem, rfl, rfl⟩
  · rintro ⟨key, v, hget, rfl, rfl⟩
    exact ⟨(cut key, v), List.mem_map.2 ⟨(key, v), Dict.mem_toList.2 hget, rfl⟩, rfl, rfl⟩

/-- Keys of which none continues another can each be cut in any way: some tree writes all of them as
they are cut. -/
theorem exists_writes_of_isCut :
    ∃ entries, Writes (.table entries) d ∧ ∀ key v, d.get? key = some v →
      leafAt (cut key) (.table entries) = some (ofValue v) := by
  have hpaths : ∀ e ∈ cutPairs cut d, e.1 ≠ [] := by
    intro e he
    obtain ⟨e', he', rfl⟩ := List.mem_map.1 he
    exact (hcut e'.1 (List.mem_map_of_mem he')).nonempty
  have hnames : ∀ {key v}, d.get? key = some v → dottedKey (cut key) = key :=
    fun hget => (hcut _ (Dict.mem_keys.2 ⟨_, hget⟩)).names
  have hleaf : ∀ key v, d.get? key = some v →
      leafAt (cut key) (ofPaths (cutPairs cut d)) = some (ofValue v) :=
    fun key v hget => (leafAt_cutPairs_iff hd hcut).2 ⟨key, v, hget, rfl, rfl⟩
  obtain ⟨entries, hentries⟩ := exists_ofPaths_eq_table hpaths
  refine ⟨entries, hentries ▸ ⟨tidy_ofPaths _, ?_, ?_⟩, hentries ▸ hleaf⟩
  · exact fun key v hget => ⟨cut key, hnames hget, hleaf key v hget⟩
  · intro path leaf hleaf'
    obtain ⟨key, v, hget, rfl, rfl⟩ := (leafAt_cutPairs_iff hd hcut).1 hleaf'
    exact ⟨v, rfl, (hnames hget).symm ▸ hget⟩

end Cut

/-- What flattening makes of trees. -/
structure FlattensBack (text : TextReader) (d : Dict SettingValue) : Prop where
  /-- A tree that writes the dictionary gives it back, with nothing added and nothing missing. -/
  gives : ∀ entries, Writes (.table entries) d → (ConfigTree.table entries).settings text = .ok ⟨d⟩
  /-- If no key continues another, there is such a tree for every way of cutting the keys. -/
  cuts : (∀ key ∈ d.keys, ∀ other ∈ d.keys, ¬ Continues key other) →
    ∀ cut : String → List String, (∀ key ∈ d.keys, IsCut key (cut key)) →
      ∃ entries, Writes (.table entries) d ∧ ∀ key v, d.get? key = some v →
        leafAt (cut key) (.table entries) = some (ofValue v)
  /-- Nothing and empty tables, wherever they are put into the tables of a tree, change nothing. -/
  padded : ∀ tree tree', Relation.ReflTransGen Pads tree tree' →
    tree'.settings text = tree.settings text
  /-- There are no settings of a table exactly when one of its lists, at any depth, holds nothing, a
  list or a table at one of its positions. -/
  fails : ∀ entries, ((ConfigTree.table entries).settings text).isOk = false ↔
    HoldsMisfit (.table entries)

/-- Flattening gives back every dictionary whose keys are in their form, however it is written as a
tree. -/
theorem settings_flattensBack {text : TextReader} (htext : ReadsScalars text)
    {d : Dict SettingValue} (hd : ∀ key ∈ d.keys, Settings.IsNormal key) : FlattensBack text d where
  gives _ hwrites := hwrites.settings_eq htext hd
  cuts hapart _ hcut := exists_writes_of_isCut hapart hcut
  padded _ _ hpads := settings_eq_of_pads hpads
  fails _ := isOk_settings_eq_false_iff htext

/-- Values of which two have keys with a name in common. -/
def sharedNames : Dict SettingValue :=
  .ofList [("a.b.c", .scalar "1"), ("a.b.d", .list ["x", "y"]), ("e", .scalar "")]

/-- Two ways of cutting beside each other. -/
def sharedCut (key : String) : List String :=
  if key = "a.b.c" then ["a", "b.c"] else Text.pieces (· == '.') key

theorem settings_flattensBack_sharedNames :
    ReadsScalars SettingsLibrary.standard.text ∧
      (∀ key ∈ sharedNames.keys, Settings.IsNormal key) ∧
      FlattensBack SettingsLibrary.standard.text sharedNames ∧
      ∃ entries, Writes (.table entries) sharedNames ∧
        leafAt ["a", "b.c"] (.table entries) = some (.scalar "1") ∧
        leafAt ["a", "b", "d"] (.table entries) = some (.list [.scalar "x", .scalar "y"]) ∧
        (ConfigTree.table entries).settings SettingsLibrary.standard.text = .ok ⟨sharedNames⟩ := by
  have hkeys : sharedNames.keys = ["a.b.c", "a.b.d", "e"] := by decide +kernel
  have hnormal : ∀ key ∈ sharedNames.keys, Settings.IsNormal key := by
    rw [hkeys]
    decide +kernel
  have hapart : ∀ key ∈ sharedNames.keys, ∀ other ∈ sharedNames.keys, ¬ Continues key other := by
    rw [hkeys]
    decide +kernel
  have hcut : ∀ key ∈ sharedNames.keys, IsCut key (sharedCut key) := by
    have hboth : ∀ key ∈ ["a.b.c", "a.b.d", "e"],
        sharedCut key ≠ [] ∧ dottedKey (sharedCut key) = key := by
      decide +kernel
    rw [hkeys]
    exact fun key hkey => ⟨(hboth key hkey).1, (hboth key hkey).2⟩
  have hback : FlattensBack SettingsLibrary.standard.text sharedNames :=
    settings_flattensBack readsScalars_standard hnormal
  obtain ⟨entries, hwrites, hleaf⟩ := hback.cuts hapart sharedCut hcut
  refine ⟨readsScalars_standard, hnormal, hback, entries, hwrites, ?_, ?_,
    hback.gives entries hwrites⟩
  · exact hleaf "a.b.c" (.scalar "1") (by decide +kernel)
  · exact hleaf "a.b.d" (.list ["x", "y"]) (by decide +kernel)

end ConfigTree

end BuildAhead
