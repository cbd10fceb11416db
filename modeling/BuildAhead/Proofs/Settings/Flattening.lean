import BuildAhead.Proofs.Collection.Dict
import BuildAhead.Proofs.Collection.Steps
import BuildAhead.Proofs.Settings.Leaves
import BuildAhead.Proofs.Text.Trimming

set_option autoImplicit false

/-!
# Settings: flattening

The values of a flattened tree are its texts and lists, each under the names of its path with dots
between them. Of the dotted keys with one form the settings keep the greatest, which is the last in
the order of a dictionary.
-/

namespace BuildAhead

namespace ConfigTree

/-- The names of every table of the tree are distinct. -/
inductive Tidy : ConfigTree → Prop where
  | mk {tree : ConfigTree} (names : (tree.entriesOf.map Prod.fst).Nodup)
      (below : ∀ e ∈ tree.entriesOf, Tidy e.2) : Tidy tree

theorem Tidy.of_entriesOf_eq_nil {tree : ConfigTree} (htree : tree.entriesOf = []) : Tidy tree := by
  refine ⟨?_, ?_⟩
  · rw [htree]
    exact .nil
  · rw [htree]
    exact fun e he => absurd he List.not_mem_nil

theorem Tidy.entries {tree : ConfigTree} (h : Tidy tree) : ∀ e ∈ tree.entriesOf, Tidy e.2 := by
  obtain ⟨_, hbelow⟩ := h
  exact hbelow

theorem Tidy.lookup {tree sub : ConfigTree} {name : String} (h : Tidy tree)
    (hsub : Dict.lookup name tree.entriesOf = some sub) : Tidy sub :=
  h.entries _ (Dict.mem_of_lookup hsub)

/-! ## Writing keeps names distinct -/

section Alter

variable {key : String} {f : Option ConfigTree → ConfigTree} {entries : List (String × ConfigTree)}

theorem mem_names_alter {name : String} :
    name ∈ (alter key f entries).map Prod.fst ↔ name = key ∨ name ∈ entries.map Prod.fst := by
  rw [← Dict.isSome_lookup, ← Dict.isSome_lookup, lookup_alter]
  by_cases hname : name = key
  · simp [hname]
  · simp [hname]

theorem nodup_names_alter (hentries : (entries.map Prod.fst).Nodup) :
    ((alter key f entries).map Prod.fst).Nodup := by
  induction entries with
  | nil => exact List.nodup_singleton key
  | cons entry rest ih =>
    obtain ⟨k, v⟩ := entry
    rw [List.map_cons, List.nodup_cons] at hentries
    by_cases hk : k = key
    · rw [alter, if_pos hk, List.map_cons, List.nodup_cons]
      exact hentries
    · rw [alter, if_neg hk, List.map_cons, List.nodup_cons, mem_names_alter]
      exact ⟨fun h => h.elim hk hentries.1, ih hentries.2⟩

theorem mem_alter {e : String × ConfigTree} (he : e ∈ alter key f entries) :
    e ∈ entries ∨ e.2 = f (Dict.lookup key entries) := by
  induction entries with
  | nil =>
    rw [alter, List.mem_singleton] at he
    exact .inr (he ▸ rfl)
  | cons entry rest ih =>
    obtain ⟨k, v⟩ := entry
    by_cases hk : k = key
    · rw [alter, if_pos hk, List.mem_cons] at he
      rw [Dict.lookup, if_pos hk]
      rcases he with rfl | he
      · exact .inr rfl
      · exact .inl (List.mem_cons_of_mem _ he)
    · rw [alter, if_neg hk, List.mem_cons] at he
      rw [Dict.lookup, if_neg hk]
      rcases he with rfl | he
      · exact .inl List.mem_cons_self
      · exact (ih he).imp_left (List.mem_cons_of_mem _)

end Alter

theorem tidy_write {f : Option ConfigTree → ConfigTree}
    (hf : ∀ old : Option ConfigTree, (∀ tree ∈ old, Tidy tree) → Tidy (f old))
    (path : List String) {old : Option ConfigTree} (hold : ∀ tree ∈ old, Tidy tree) :
    Tidy (write f path old) := by
  induction path generalizing old with
  | nil => exact hf old hold
  | cons name path ih =>
    have htree : Tidy (old.getD .absent) := by
      cases old with
      | none => exact .of_entriesOf_eq_nil rfl
      | some tree => exact hold tree rfl
    obtain ⟨hnames, hbelow⟩ := id htree
    refine ⟨nodup_names_alter hnames, fun e he => ?_⟩
    rcases mem_alter he with hentry | hentry
    · exact hbelow e hentry
    · exact hentry ▸ ih fun sub hsub => htree.lookup hsub

end ConfigTree

open ConfigTree

/-- Every table of the tree that a row of puts makes has distinct names. -/
theorem Put.tidy_tree? (puts : List Put) : ∀ tree ∈ tree? puts, Tidy tree := by
  induction puts using List.reverseRecOn with
  | nil =>
    rintro tree ⟨⟩
    exact .of_entriesOf_eq_nil rfl
  | append_singleton puts p ih =>
    rw [tree?, applyAll_concat]
    rintro tree ⟨⟩
    refine tidy_write (fun old hold => ?_) _ ih
    by_cases hchange : p.change = .table
    · rw [hchange]
      cases old with
      | none => exact .of_entriesOf_eq_nil rfl
      | some tree => exact hold tree rfl
    · exact .of_entriesOf_eq_nil (Change.entriesOf_result hchange)

namespace ConfigTree

/-! ## The values of a flattened tree -/

variable {text : TextReader}

/-- A scalar has its own text, and nothing else has one. -/
def ReadsScalars (text : TextReader) : Prop :=
  ∀ tree value, text tree = .ok value ↔ tree = .scalar value

theorem ReadsScalars.textOf_eq_ok_iff (htext : ReadsScalars text) {tree : ConfigTree}
    {value : String} : textOf text tree = .ok value ↔ tree = .scalar value := by
  rw [← htext tree value, textOf]
  cases text tree with
  | error reason => exact iff_of_false nofun nofun
  | ok value' => rw [Except.mapError, Except.ok.injEq, Except.ok.injEq]

theorem readsScalars_standard : ReadsScalars SettingsLibrary.standard.text := by
  intro tree value
  cases tree with
  | scalar s =>
    have htext : SettingsLibrary.standard.text (.scalar s) = .ok s := rfl
    rw [htext, Except.ok.injEq, ConfigTree.scalar.injEq]
  | absent => exact iff_of_false nofun nofun
  | list items => exact iff_of_false nofun nofun
  | table entries => exact iff_of_false nofun nofun

/-- The value that a scalar or a list has in the settings. -/
def setting? (text : TextReader) : ConfigTree → Option SettingValue
  | .scalar s => (textOf text (.scalar s)).toOption.map .scalar
  | .list items => (items.mapM (textOf text)).toOption.map .list
  | _ => none

/-- The dotted key of a path. -/
def dottedKey (path : List String) : String := Text.joined "." path

theorem dottedKey_cons_cons (first name : String) (path : List String) :
    dottedKey (first :: name :: path) = dottedKey ((first ++ "." ++ name) :: path) := by
  cases path with
  | nil => rfl
  | cons second path => simp only [dottedKey, Text.joined, String.append_assoc]

theorem flatten_leaf_eq_ok {key : String} {tree leaf : ConfigTree}
    {values : List (String × SettingValue)} (hleaf : leaf? tree = some leaf)
    (h : flatten text key tree = .ok values) :
    ∃ v, setting? text leaf = some v ∧ values = [(key, v)] := by
  cases tree with
  | absent => cases hleaf
  | table entries => cases hleaf
  | scalar s =>
    cases hleaf
    obtain ⟨value, hvalue, rfl⟩ := map_eq_ok h
    refine ⟨.scalar value, ?_, rfl⟩
    rw [setting?, hvalue]
    rfl
  | list items =>
    cases hleaf
    obtain ⟨values, hvalues, rfl⟩ := map_eq_ok h
    refine ⟨.list values, ?_, rfl⟩
    rw [setting?, hvalues]
    rfl

theorem flattenEntries_cons_eq_ok {base name : String} {sub : ConfigTree}
    {rest : List (String × ConfigTree)} {values : List (String × SettingValue)}
    (h : flattenEntries text base ((name, sub) :: rest) = .ok values) :
    ∃ first others, flatten text (base ++ name) sub = .ok first ∧
      flattenEntries text base rest = .ok others ∧ values = first ++ others := by
  rw [flattenEntries] at h
  obtain ⟨first, hfirst, h⟩ := bind_eq_ok h
  obtain ⟨others, hothers, h⟩ := bind_eq_ok h
  exact ⟨first, others, hfirst, hothers, (Except.ok.inj h).symm⟩

theorem flattenEntries_cons_of_eq_ok {base name : String} {sub : ConfigTree}
    {rest : List (String × ConfigTree)} {first others : List (String × SettingValue)}
    (hfirst : flatten text (base ++ name) sub = .ok first)
    (hothers : flattenEntries text base rest = .ok others) :
    flattenEntries text base ((name, sub) :: rest) = .ok (first ++ others) := by
  rw [flattenEntries, hfirst, hothers]
  rfl

theorem flattenEntries_append (base : String) (first second : List (String × ConfigTree)) :
    flattenEntries text base (first ++ second) = (do
      let values ← flattenEntries text base first
      return values ++ (← flattenEntries text base second)) := by
  induction first with
  | nil =>
    rw [List.nil_append, flattenEntries]
    cases flattenEntries text base second with
    | error e => rfl
    | ok values => rfl
  | cons entry rest ih =>
    obtain ⟨name, tree⟩ := entry
    rw [List.cons_append, flattenEntries, flattenEntries, ih]
    cases flatten text (base ++ name) tree with
    | error e => rfl
    | ok values =>
      cases flattenEntries text base rest with
      | error e => rfl
      | ok others =>
        cases flattenEntries text base second with
        | error e => rfl
        | ok behind => exact congrArg Except.ok (List.append_assoc values others behind).symm

/-- The value that stands at a path of the tree is the value of the key. -/
def Gives (text : TextReader) (tree : ConfigTree) (path : List String)
    (value : SettingValue) : Prop :=
  ∃ leaf, leafAt path tree = some leaf ∧ setting? text leaf = some value

theorem leafAt_of_entriesOf_eq_nil {tree leaf : ConfigTree} {path : List String}
    (htree : tree.entriesOf = []) (hleaf : leafAt path tree = some leaf) :
    path = [] ∧ leaf? tree = some leaf := by
  by_cases hpath : path = []
  · subst hpath
    exact ⟨rfl, hleaf⟩
  · rw [leafAt, node?_of_entriesOf_eq_nil htree hpath] at hleaf
    cases hleaf

theorem leafAt_cons (name : String) (path : List String) (tree : ConfigTree) :
    leafAt (name :: path) tree = (Dict.lookup name tree.entriesOf).bind (leafAt path) := by
  rw [leafAt, node?, Option.bind_assoc]
  rfl

/-- What an entry gives, the tree gives below the name of the entry. -/
theorem Tidy.gives_of_entry {tree sub : ConfigTree} {name : String} {path : List String}
    {v : SettingValue} (htidy : Tidy tree) (hsub : (name, sub) ∈ tree.entriesOf)
    (hgives : Gives text sub path v) : Gives text tree (name :: path) v := by
  obtain ⟨hnames, _⟩ := htidy
  obtain ⟨leaf, hleaf, hv⟩ := hgives
  refine ⟨leaf, ?_, hv⟩
  rw [leafAt_cons, Dict.lookup_of_mem_of_nodup hnames hsub]
  exact hleaf

mutual

/-- Every value of a flattened tree stands at a path of it. -/
theorem exists_gives_of_mem_flatten : ∀ (tree : ConfigTree), Tidy tree →
    ∀ {key k : String} {v : SettingValue} {values : List (String × SettingValue)},
      flatten text key tree = .ok values → (k, v) ∈ values →
        ∃ path, k = dottedKey (key :: path) ∧ Gives text tree path v
  | .absent, _, _, _, _, _, hflat, hmem => by
    cases hflat
    cases hmem
  | .scalar s, _, _, _, _, _, hflat, hmem => by
    obtain ⟨w, hw, rfl⟩ := flatten_leaf_eq_ok rfl hflat
    cases List.mem_singleton.1 hmem
    exact ⟨[], rfl, .scalar s, rfl, hw⟩
  | .list items, _, _, _, _, _, hflat, hmem => by
    obtain ⟨w, hw, rfl⟩ := flatten_leaf_eq_ok rfl hflat
    cases List.mem_singleton.1 hmem
    exact ⟨[], rfl, .list items, rfl, hw⟩
  | .table entries, htidy, _, _, _, _, hflat, hmem => by
    obtain ⟨name, sub, path, hsub, hk, hgives⟩ :=
      exists_gives_of_mem_flattenEntries entries htidy.entries hflat hmem
    rw [← dottedKey_cons_cons] at hk
    exact ⟨name :: path, hk, htidy.gives_of_entry hsub hgives⟩

/-- Every value of flattened entries stands at a path of one of them. -/
theorem exists_gives_of_mem_flattenEntries : ∀ (entries : List (String × ConfigTree)),
    (∀ e ∈ entries, Tidy e.2) →
    ∀ {base k : String} {v : SettingValue} {values : List (String × SettingValue)},
      flattenEntries text base entries = .ok values → (k, v) ∈ values →
        ∃ name sub path, (name, sub) ∈ entries ∧ k = dottedKey ((base ++ name) :: path) ∧
          Gives text sub path v
  | [], _, _, _, _, _, hflat, hmem => by
    cases hflat
    cases hmem
  | (name, sub) :: rest, htidy, base, _, _, _, hflat, hmem => by
    obtain ⟨first, others, hfirst, hothers, rfl⟩ := flattenEntries_cons_eq_ok hflat
    rcases List.mem_append.1 hmem with hmem | hmem
    · obtain ⟨path, hk, hgives⟩ :=
        exists_gives_of_mem_flatten sub (htidy _ List.mem_cons_self) hfirst hmem
      exact ⟨name, sub, path, List.mem_cons_self, hk, hgives⟩
    · obtain ⟨name', sub', path, hsub, hrest⟩ := exists_gives_of_mem_flattenEntries rest
        (fun e he => htidy e (List.mem_cons_of_mem _ he)) hothers hmem
      exact ⟨name', sub', path, List.mem_cons_of_mem _ hsub, hrest⟩

end

mutual

/-- What stands at a path of a flattened tree is one of its values. -/
theorem exists_mem_flatten_of_leafAt : ∀ (tree : ConfigTree) {key : String} {path : List String}
    {leaf : ConfigTree} {values : List (String × SettingValue)},
      flatten text key tree = .ok values → leafAt path tree = some leaf →
        ∃ v, setting? text leaf = some v ∧ (dottedKey (key :: path), v) ∈ values
  | .absent, _, _, _, _, _, hleaf => nomatch (leafAt_of_entriesOf_eq_nil rfl hleaf).2
  | .scalar s, _, _, _, _, hflat, hleaf => by
    obtain ⟨rfl, hscalar⟩ := leafAt_of_entriesOf_eq_nil rfl hleaf
    obtain ⟨v, hv, rfl⟩ := flatten_leaf_eq_ok hscalar hflat
    exact ⟨v, hv, List.mem_singleton.2 rfl⟩
  | .list items, _, _, _, _, hflat, hleaf => by
    obtain ⟨rfl, hlist⟩ := leafAt_of_entriesOf_eq_nil rfl hleaf
    obtain ⟨v, hv, rfl⟩ := flatten_leaf_eq_ok hlist hflat
    exact ⟨v, hv, List.mem_singleton.2 rfl⟩
  | .table _, _, [], _, _, _, hleaf => nomatch hleaf
  | .table entries, _, name :: path, _, _, hflat, hleaf => by
    rw [leafAt_cons] at hleaf
    rw [dottedKey_cons_cons]
    exact exists_mem_flattenEntries_of_leafAt entries hflat hleaf

/-- What stands at a path of flattened entries is one of their values. -/
theorem exists_mem_flattenEntries_of_leafAt : ∀ (entries : List (String × ConfigTree))
    {base name : String} {path : List String} {leaf : ConfigTree}
    {values : List (String × SettingValue)},
      flattenEntries text base entries = .ok values →
        (Dict.lookup name entries).bind (leafAt path) = some leaf →
          ∃ v, setting? text leaf = some v ∧ (dottedKey ((base ++ name) :: path), v) ∈ values
  | [], _, _, _, _, _, _, hleaf => nomatch hleaf
  | (first, sub) :: rest, _, name, _, _, _, hflat, hleaf => by
    obtain ⟨here, others, hhere, hothers, rfl⟩ := flattenEntries_cons_eq_ok hflat
    rw [Dict.lookup] at hleaf
    by_cases hname : first = name
    · rw [if_pos hname] at hleaf
      obtain ⟨v, hv, hmem⟩ := exists_mem_flatten_of_leafAt sub hhere hleaf
      exact ⟨v, hv, List.mem_append_left _ (hname ▸ hmem)⟩
    · rw [if_neg hname] at hleaf
      obtain ⟨v, hv, hmem⟩ := exists_mem_flattenEntries_of_leafAt rest hothers hleaf
      exact ⟨v, hv, List.mem_append_right _ hmem⟩

end

end ConfigTree

/-! ## Settings of values -/

namespace Settings

variable {d : Dict SettingValue} {k : String}

theorem normalKey_normalKey (key : String) : normalKey (normalKey key) = normalKey key := by
  rw [normalKey, normalKey, Text.trim_asciiLower, Text.trim_trim, Text.asciiLower_asciiLower]

theorem raw?_ofValues_eq_none
    (hforms : ∀ other v, d.get? other = some v → normalKey other ≠ normalKey k) :
    (ofValues d.toList).raw? k = none := by
  rw [raw?, ofValues, Dict.get?_ofList_eq_lookup, Dict.lookup_eq_none_iff, List.map_reverse,
    List.mem_reverse, List.map_map]
  intro hmem
  obtain ⟨⟨other, v⟩, hentry, hform⟩ := List.mem_map.1 hmem
  exact hforms other v (Dict.mem_toList.1 hentry) hform

/-- Of the keys with one form, the settings keep the value of the greatest. -/
theorem raw?_ofValues_of_greatest {spelling : String} {v : SettingValue}
    (hv : d.get? spelling = some v) (hform : normalKey spelling = normalKey k)
    (hgreatest : ∀ other w, d.get? other = some w → normalKey other = normalKey k →
      other ≤ spelling) :
    (ofValues d.toList).raw? k = some v := by
  obtain ⟨before, after, hsplit⟩ := List.append_of_mem (Dict.mem_toList.2 hv)
  have hafter : Dict.lookup (normalKey k)
      (after.map fun e => (normalKey e.1, e.2)).reverse = none := by
    rw [Dict.lookup_eq_none_iff, List.map_reverse, List.mem_reverse, List.map_map]
    intro hmem
    obtain ⟨⟨other, w⟩, hentry, hother⟩ := List.mem_map.1 hmem
    have hentries : d.toList.Pairwise KeyBefore := d.ascending
    have hascending : ((spelling, v) :: after).Pairwise KeyBefore :=
      (List.pairwise_append.1 (hsplit ▸ hentries)).2.1
    have hlt : spelling < other := (List.pairwise_cons.1 hascending).1 _ hentry
    have hin : (other, w) ∈ d.toList :=
      hsplit ▸ List.mem_append_right _ (List.mem_cons_of_mem _ hentry)
    exact absurd hlt (String.not_lt.2 (hgreatest other w (Dict.mem_toList.1 hin) hother))
  rw [raw?, ofValues, Dict.get?_ofList_eq_lookup, hsplit, List.map_append, List.map_cons,
    List.reverse_append, List.reverse_cons, Dict.lookup_append, Dict.lookup_append]
  simp only [hafter, Option.none_or, Dict.lookup, hform, if_true, Option.some_or]

end Settings

/-! ## Settings of a tree -/

namespace ConfigTree

open Settings (normalKey)

variable {text : TextReader} {tree : ConfigTree} {s : Settings}

theorem exists_values_of_settings (hsettings : tree.settings text = .ok s) :
    ∃ values, flattenEntries text "" tree.entriesOf = .ok values ∧
      s = .ofValues (Dict.ofList values).toList := by
  rw [settings] at hsettings
  cases hvalues : flattenEntries text "" tree.entriesOf with
  | error e =>
    rw [hvalues] at hsettings
    cases hsettings
  | ok values =>
    rw [hvalues] at hsettings
    exact ⟨values, rfl, (Except.ok.inj hsettings).symm⟩

theorem exists_gives_of_mem_values (htidy : Tidy tree) {key : String} {v : SettingValue}
    {values : List (String × SettingValue)}
    (hvalues : flattenEntries text "" tree.entriesOf = .ok values) (hmem : (key, v) ∈ values) :
    ∃ path, key = dottedKey path ∧ Gives text tree path v := by
  obtain ⟨name, sub, path, hsub, hkey, hgives⟩ :=
    exists_gives_of_mem_flattenEntries _ htidy.entries hvalues hmem
  rw [String.empty_append] at hkey
  exact ⟨name :: path, hkey, htidy.gives_of_entry hsub hgives⟩

/-- A key whose form no path of the tree has is not set. -/
theorem raw?_eq_none_of_settings (htidy : Tidy tree) (hsettings : tree.settings text = .ok s)
    {k : String} (hforms : ∀ path, (leafAt path tree).isSome = true →
      normalKey (dottedKey path) ≠ normalKey k) :
    s.raw? k = none := by
  obtain ⟨values, hvalues, rfl⟩ := exists_values_of_settings hsettings
  refine Settings.raw?_ofValues_eq_none fun other v hv => ?_
  obtain ⟨path, rfl, leaf, hleaf, _⟩ :=
    exists_gives_of_mem_values htidy hvalues (Dict.mem_of_get?_ofList hv)
  exact hforms path (Option.isSome_of_eq_some hleaf)

/-- Where several paths of the tree have the form of a key, the key has the value of the path that
is the greatest as a text. -/
theorem raw?_of_settings_of_greatest (htidy : Tidy tree) (hsettings : tree.settings text = .ok s)
    {k : String} {path : List String} {leaf : ConfigTree} (hpath : path ≠ [])
    (hleaf : leafAt path tree = some leaf) (hform : normalKey (dottedKey path) = normalKey k)
    (hgreatest : ∀ other, (leafAt other tree).isSome = true →
      normalKey (dottedKey other) = normalKey k →
        dottedKey other ≤ dottedKey path ∧ (dottedKey other = dottedKey path → other = path)) :
    ∃ v, setting? text leaf = some v ∧ s.raw? k = some v := by
  obtain ⟨values, hvalues, rfl⟩ := exists_values_of_settings hsettings
  have hmem : ∃ v, setting? text leaf = some v ∧ (dottedKey path, v) ∈ values := by
    cases path with
    | nil => exact absurd rfl hpath
    | cons name path =>
      rw [leafAt_cons] at hleaf
      rw [← String.empty_append (s := name)]
      exact exists_mem_flattenEntries_of_leafAt _ hvalues hleaf
  obtain ⟨v, hv, hmem⟩ := hmem
  refine ⟨v, hv, Settings.raw?_ofValues_of_greatest ?_ hform ?_⟩
  · -- what else has this text as its key is from the same path, so it is the same value
    refine Dict.get?_ofList_of_forall hmem fun w hw => ?_
    obtain ⟨other, hsame, leaf', hleaf', hw'⟩ := exists_gives_of_mem_values htidy hvalues hw
    have hother : normalKey (dottedKey other) = normalKey k := hsame ▸ hform
    have heq : other = path :=
      (hgreatest other (Option.isSome_of_eq_some hleaf') hother).2 hsame.symm
    rw [heq, hleaf] at hleaf'
    rw [← Option.some.inj hleaf', hv] at hw'
    exact (Option.some.inj hw').symm
  · intro other w hw hother
    obtain ⟨path', rfl, leaf', hleaf', _⟩ :=
      exists_gives_of_mem_values htidy hvalues (Dict.mem_of_get?_ofList hw)
    exact (hgreatest path' (Option.isSome_of_eq_some hleaf') hother).1

end ConfigTree

end BuildAhead
