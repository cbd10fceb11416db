import BuildAhead.Proofs.Settings.Flattening
import Mathlib.Data.Finset.Max
import Mathlib.Data.List.Perm.Basic
import Mathlib.Data.String.Basic
import Mathlib.Logic.Relation

set_option autoImplicit false

/-!
# Settings: the order of tables

The entries of a table have no order of their own, and flattening goes through them in whatever order
they come. An order decides what a key is set to only where several paths of the tree have one dotted
key, as a name with dots inside a table has. There, a path can be brought behind all others by moving
its entries to the ends of their tables, and the last path gives the value.
-/

namespace BuildAhead

namespace ConfigTree

/-! ## Orders -/

/-- The entries of one table of a tree, or the entries of a table inside a list, are put into another
order. -/
inductive Moves : ConfigTree → ConfigTree → Prop where
  | entries {entries entries' : List (String × ConfigTree)} (h : entries.Perm entries') :
    Moves (.table entries) (.table entries')
  | entry {before after : List (String × ConfigTree)} {name : String} {tree tree' : ConfigTree}
    (h : Moves tree tree') :
    Moves (.table (before ++ (name, tree) :: after)) (.table (before ++ (name, tree') :: after))
  | item {before after : List ConfigTree} {tree tree' : ConfigTree} (h : Moves tree tree') :
    Moves (.list (before ++ tree :: after)) (.list (before ++ tree' :: after))

/-- The entries of the tables of a tree are put into another order. -/
def Reorders : ConfigTree → ConfigTree → Prop := Relation.ReflTransGen Moves

theorem Moves.symm {tree tree' : ConfigTree} (h : Moves tree tree') : Moves tree' tree := by
  induction h with
  | entries hperm => exact .entries hperm.symm
  | entry _ ih => exact .entry ih
  | item _ ih => exact .item ih

instance : Std.Symm Moves := ⟨fun _ _ => Moves.symm⟩

theorem Reorders.symm {tree tree' : ConfigTree} (h : Reorders tree tree') : Reorders tree' tree :=
  Relation.ReflTransGen.stdSymm.symm _ _ h

/-! ## Flattening in another order -/

variable {text : TextReader}

section Entries

variable {base : String} {entries entries' first second : List (String × ConfigTree)}
  {values : List (String × SettingValue)}

theorem flattenEntries_append_eq_ok_iff :
    flattenEntries text base (first ++ second) = .ok values ↔ ∃ here there,
      flattenEntries text base first = .ok here ∧ flattenEntries text base second = .ok there ∧
        values = here ++ there := by
  rw [flattenEntries_append]
  constructor
  · intro hflat
    obtain ⟨here, hhere, hflat⟩ := bind_eq_ok hflat
    obtain ⟨there, hthere, hflat⟩ := bind_eq_ok hflat
    exact ⟨here, there, hhere, hthere, (Except.ok.inj hflat).symm⟩
  · rintro ⟨here, there, hhere, hthere, rfl⟩
    rw [hhere, hthere]
    rfl

/-- Entries in another order have the same values in another order. -/
theorem exists_flattenEntries_of_perm (hperm : entries.Perm entries')
    (hflat : flattenEntries text base entries = .ok values) :
    ∃ values', flattenEntries text base entries' = .ok values' ∧ values.Perm values' := by
  induction hperm generalizing values with
  | nil => exact ⟨values, hflat, .refl values⟩
  | cons e _ ih =>
    obtain ⟨own, others, hown, hothers, rfl⟩ := flattenEntries_cons_eq_ok hflat
    obtain ⟨others', hothers', hperm⟩ := ih hothers
    exact ⟨own ++ others', flattenEntries_cons_of_eq_ok hown hothers', hperm.append_left own⟩
  | swap e e' rest =>
    obtain ⟨own', behind, hown', hbehind, rfl⟩ := flattenEntries_cons_eq_ok hflat
    obtain ⟨own, others, hown, hothers, rfl⟩ := flattenEntries_cons_eq_ok hbehind
    refine ⟨_, flattenEntries_cons_of_eq_ok hown (flattenEntries_cons_of_eq_ok hown' hothers), ?_⟩
    rw [← List.append_assoc, ← List.append_assoc]
    exact List.perm_append_comm.append_right others
  | trans _ _ ih ih' =>
    obtain ⟨values', hflat', hperm⟩ := ih hflat
    obtain ⟨values'', hflat'', hperm'⟩ := ih' hflat'
    exact ⟨values'', hflat'', hperm.trans hperm'⟩

end Entries

/-- What has tables is no scalar. -/
theorem Moves.ne_scalar {tree tree' : ConfigTree} (h : Moves tree tree') (value : String) :
    tree ≠ .scalar value := by
  cases h <;> exact nofun

/-- Entries of which one has other values, in another order, have other values in another order. -/
theorem exists_flattenEntries_of_entry {tree tree' : ConfigTree}
    (htree : ∀ {key : String} {values : List (String × SettingValue)},
      flatten text key tree = .ok values →
        ∃ values', flatten text key tree' = .ok values' ∧ values.Perm values')
    {base name : String} {before after : List (String × ConfigTree)}
    {values : List (String × SettingValue)}
    (hflat : flattenEntries text base (before ++ (name, tree) :: after) = .ok values) :
    ∃ values', flattenEntries text base (before ++ (name, tree') :: after) = .ok values' ∧
      values.Perm values' := by
  obtain ⟨front, back, hfront, hback, rfl⟩ := flattenEntries_append_eq_ok_iff.1 hflat
  obtain ⟨own, others, hown, hothers, rfl⟩ := flattenEntries_cons_eq_ok hback
  obtain ⟨own', hown', hperm⟩ := htree hown
  refine ⟨front ++ (own' ++ others), flattenEntries_append_eq_ok_iff.2
    ⟨front, _, hfront, flattenEntries_cons_of_eq_ok hown' hothers, rfl⟩, ?_⟩
  exact (hperm.append_right others).append_left front

/-- A tree in another order has the same values in another order. -/
theorem Moves.exists_flatten {tree tree' : ConfigTree} (h : Moves tree tree')
    (htext : ReadsScalars text) {key : String}
    {values : List (String × SettingValue)} (hflat : flatten text key tree = .ok values) :
    ∃ values', flatten text key tree' = .ok values' ∧ values.Perm values' := by
  induction h generalizing key values with
  | entries hperm => exact exists_flattenEntries_of_perm hperm hflat
  | entry _ ih => exact exists_flattenEntries_of_entry ih hflat
  | @item before after tree _ hmoves _ =>
    obtain ⟨values, hvalues, -⟩ := map_eq_ok hflat
    have hmem : tree ∈ before ++ tree :: after := List.mem_append_right _ List.mem_cons_self
    obtain ⟨value, hvalue⟩ := exists_mapM_eq_ok_iff.1 ⟨values, hvalues⟩ tree hmem
    exact absurd (htext.textOf_eq_ok_iff.1 hvalue) (hmoves.ne_scalar value)

/-- The values of the entries of a tree, in another order. -/
theorem Moves.exists_flattenEntries {tree tree' : ConfigTree} (h : Moves tree tree')
    (htext : ReadsScalars text) {base : String}
    {values : List (String × SettingValue)}
    (hflat : flattenEntries text base tree.entriesOf = .ok values) :
    ∃ values', flattenEntries text base tree'.entriesOf = .ok values' ∧ values.Perm values' := by
  cases h with
  | entries hperm => exact exists_flattenEntries_of_perm hperm hflat
  | entry hmoves => exact exists_flattenEntries_of_entry (hmoves.exists_flatten htext) hflat
  | item _ => exact ⟨values, hflat, .refl values⟩

theorem Reorders.exists_flattenEntries {tree tree' : ConfigTree} (h : Reorders tree tree')
    (htext : ReadsScalars text) {base : String} {values : List (String × SettingValue)}
    (hflat : flattenEntries text base tree.entriesOf = .ok values) :
    ∃ values', flattenEntries text base tree'.entriesOf = .ok values' ∧ values.Perm values' := by
  induction h with
  | refl => exact ⟨values, hflat, .refl values⟩
  | tail _ hmoves ih =>
    obtain ⟨values', hflat', hperm⟩ := ih
    obtain ⟨values'', hflat'', hperm'⟩ := hmoves.exists_flattenEntries htext hflat'
    exact ⟨values'', hflat'', hperm.trans hperm'⟩

/-! ## An order in which a path comes last -/

theorem Reorders.entry {before after : List (String × ConfigTree)} {name : String}
    {tree tree' : ConfigTree} (h : Reorders tree tree') :
    Reorders (.table (before ++ (name, tree) :: after))
      (.table (before ++ (name, tree') :: after)) := by
  induction h with
  | refl => exact .refl
  | tail _ hmoves ih => exact ih.tail (.entry hmoves)

/-- An entry of which a value can come last can be moved behind the others. -/
theorem exists_reorders_of_entry {base name k : String} {entries : List (String × ConfigTree)}
    {values : List (String × SettingValue)} {sub : ConfigTree} {v : SettingValue}
    (hflat : flattenEntries text base entries = .ok values) (hsub : (name, sub) ∈ entries)
    (hlast : ∀ own, flatten text (base ++ name) sub = .ok own → ∃ sub' others,
      Reorders sub sub' ∧ flatten text (base ++ name) sub' = .ok (others ++ [(k, v)])) :
    ∃ entries' others, Reorders (.table entries) (.table entries') ∧
      flattenEntries text base entries' = .ok (others ++ [(k, v)]) := by
  obtain ⟨before, after, rfl⟩ := List.append_of_mem hsub
  obtain ⟨front, back, hfront, hback, rfl⟩ := flattenEntries_append_eq_ok_iff.1 hflat
  obtain ⟨own, behind, hown, hbehind, rfl⟩ := flattenEntries_cons_eq_ok hback
  obtain ⟨sub', others, hreorders, hsub'⟩ := hlast own hown
  refine ⟨before ++ after ++ [(name, sub')], front ++ behind ++ others, ?_, ?_⟩
  · exact hreorders.entry.tail
      (.entries (List.perm_middle.trans (List.perm_append_singleton _ _).symm))
  · have hothers : flattenEntries text base (before ++ after) = .ok (front ++ behind) :=
      flattenEntries_append_eq_ok_iff.2 ⟨front, behind, hfront, hbehind, rfl⟩
    have hend : flattenEntries text base [(name, sub')] = .ok (others ++ [(k, v)] ++ []) :=
      flattenEntries_cons_of_eq_ok hsub' rfl
    refine flattenEntries_append_eq_ok_iff.2 ⟨_, _, hothers, hend, ?_⟩
    rw [List.append_nil, List.append_assoc]

theorem gives_nil_iff {tree : ConfigTree} {v : SettingValue} :
    Gives text tree [] v ↔ ∃ leaf, leaf? tree = some leaf ∧ setting? text leaf = some v := Iff.rfl

/-- What a tree gives below a name, the entry of the name gives. -/
theorem exists_of_gives_cons {tree : ConfigTree} {name : String} {path : List String}
    {v : SettingValue} (h : Gives text tree (name :: path) v) :
    ∃ sub, (name, sub) ∈ tree.entriesOf ∧ Gives text sub path v := by
  obtain ⟨leaf, hleaf, hv⟩ := h
  rw [leafAt_cons, Option.bind_eq_some_iff] at hleaf
  obtain ⟨sub, hsub, hleaf⟩ := hleaf
  exact ⟨sub, Dict.mem_of_lookup hsub, leaf, hleaf, hv⟩

/-- The entries of a tree can be moved so that what stands at a path comes last. -/
theorem exists_reorders_flatten {path : List String} {tree : ConfigTree} {v : SettingValue}
    {key : String} {values : List (String × SettingValue)} (hgives : Gives text tree path v)
    (hflat : flatten text key tree = .ok values) :
    ∃ tree' others, Reorders tree tree' ∧
      flatten text key tree' = .ok (others ++ [(dottedKey (key :: path), v)]) := by
  induction path generalizing tree key values with
  | nil =>
    refine ⟨tree, [], .refl, ?_⟩
    obtain ⟨leaf, hleaf, hv⟩ := gives_nil_iff.1 hgives
    cases tree with
    | absent => cases hleaf
    | table entries => cases hleaf
    | _ =>
      obtain ⟨w, hw, rfl⟩ := flatten_leaf_eq_ok hleaf hflat
      rw [hv] at hw
      rw [hflat, Option.some.inj hw]
      rfl
  | cons name path ih =>
    obtain ⟨sub, hsub, hbelow⟩ := exists_of_gives_cons hgives
    cases tree with
    | table entries =>
      obtain ⟨entries', others, hreorders, hlast⟩ :=
        exists_reorders_of_entry hflat hsub fun _ hown => ih hbelow hown
      refine ⟨.table entries', others, hreorders, ?_⟩
      rw [dottedKey_cons_cons]
      exact hlast
    | _ => exact absurd hsub List.not_mem_nil

/-- In some order, what stands at a path is the last of all values. -/
theorem exists_reorders_last {path : List String} {tree : ConfigTree} {v : SettingValue}
    {values : List (String × SettingValue)} (hpath : path ≠ []) (hgives : Gives text tree path v)
    (hflat : flattenEntries text "" tree.entriesOf = .ok values) :
    ∃ tree' others, Reorders tree tree' ∧
      flattenEntries text "" tree'.entriesOf = .ok (others ++ [(dottedKey path, v)]) := by
  cases path with
  | nil => exact absurd rfl hpath
  | cons name path =>
    obtain ⟨sub, hsub, hbelow⟩ := exists_of_gives_cons hgives
    cases tree with
    | table entries =>
      obtain ⟨entries', others, hreorders, hlast⟩ :=
        exists_reorders_of_entry hflat hsub fun _ hown => exists_reorders_flatten hbelow hown
      rw [String.empty_append] at hlast
      exact ⟨.table entries', others, hreorders, hlast⟩
    | _ => exact absurd hsub List.not_mem_nil

end ConfigTree

/-! ## The settings of values -/

namespace Settings

variable {values values' : List (String × SettingValue)} {k key : String}

/-- The settings of flattened values. -/
def ofFlat (values : List (String × SettingValue)) : Settings := ofValues (Dict.ofList values).toList

/-- Of the keys with the form of `k`, this one is the greatest as a text. -/
structure IsGreatest (values : List (String × SettingValue)) (k key : String) : Prop where
  mem : key ∈ values.map Prod.fst
  form : normalKey key = normalKey k
  le : ∀ e ∈ values, normalKey e.1 = normalKey k → e.1 ≤ key

theorem IsGreatest.perm (h : IsGreatest values k key) (hperm : values.Perm values') :
    IsGreatest values' k key :=
  ⟨(hperm.map Prod.fst).mem_iff.1 h.mem, h.form, fun e he => h.le e (hperm.mem_iff.2 he)⟩

theorem exists_isGreatest {e : String × SettingValue} (he : e ∈ values)
    (hform : normalKey e.1 = normalKey k) : ∃ key, IsGreatest values k key := by
  let same := (values.filter fun e' => normalKey e'.1 = normalKey k).toFinset
  have hmem : ∀ {e'}, e' ∈ same ↔ e' ∈ values ∧ normalKey e'.1 = normalKey k := by
    intro e'
    rw [List.mem_toFinset, List.mem_filter, decide_eq_true_iff]
  obtain ⟨e', he', hgreatest⟩ := same.exists_max_image Prod.fst ⟨e, hmem.2 ⟨he, hform⟩⟩
  obtain ⟨hmem', hform'⟩ := hmem.1 he'
  exact ⟨e'.1, List.mem_map_of_mem hmem', hform',
    fun other hother hsame => hgreatest other (hmem.2 ⟨hother, hsame⟩)⟩

/-- The settings have the value that comes last under the greatest key. -/
theorem raw?_ofFlat_of_isGreatest (h : IsGreatest values k key) :
    ∃ v, Dict.lookup key values.reverse = some v ∧ (ofFlat values).raw? k = some v := by
  have hlast : (Dict.lookup key values.reverse).isSome = true := by
    rw [Dict.isSome_lookup, List.map_reverse, List.mem_reverse]
    exact h.mem
  obtain ⟨v, hv⟩ := Option.isSome_iff_exists.1 hlast
  refine ⟨v, hv, raw?_ofValues_of_greatest ?_ h.form fun other w hw hform => ?_⟩
  · rw [Dict.get?_ofList_eq_lookup, hv]
  · exact h.le (other, w) (Dict.mem_of_get?_ofList hw) hform

/-- A key is set when some value is under a key of its form. -/
theorem isSome_raw?_ofFlat :
    ((ofFlat values).raw? k).isSome = true ↔ ∃ e ∈ values, normalKey e.1 = normalKey k := by
  constructor
  · intro hsome
    by_contra hnone
    have hunset : (ofFlat values).raw? k = none := by
      refine raw?_ofValues_eq_none fun other v hv hform => hnone ?_
      exact ⟨(other, v), Dict.mem_of_get?_ofList hv, hform⟩
    rw [hunset] at hsome
    cases hsome
  · rintro ⟨e, he, hform⟩
    obtain ⟨key, hgreatest⟩ := exists_isGreatest he hform
    obtain ⟨v, -, hv⟩ := raw?_ofFlat_of_isGreatest hgreatest
    rw [hv]
    rfl

/-- Settings keep their keys in the form in which keys are compared. -/
theorem normalKey_of_get?_ofFlat {v : SettingValue}
    (hv : (ofFlat values).values.get? key = some v) : normalKey key = key := by
  have hlist : (ofFlat values).values =
      Dict.ofList ((Dict.ofList values).toList.map fun e => (normalKey e.1, e.2)) := rfl
  rw [hlist] at hv
  obtain ⟨e, -, heq⟩ := List.mem_map.1 (Dict.mem_of_get?_ofList hv)
  rw [← (Prod.mk.inj heq).1, normalKey_normalKey]

/-- Settings in which every key has the same value are the same. -/
theorem eq_of_raw?_ofFlat (h : ∀ k, (ofFlat values).raw? k = (ofFlat values').raw? k) :
    ofFlat values = ofFlat values' := by
  have hsame : ∀ key, normalKey key = key →
      (ofFlat values).values.get? key = (ofFlat values').values.get? key := by
    intro key hkey
    have hraw := h key
    rwa [raw?, raw?, hkey] at hraw
  have hvalues : (ofFlat values).values = (ofFlat values').values := by
    refine Dict.ext_get? fun key => ?_
    ext v
    constructor
    · intro hv
      rw [← hsame key (normalKey_of_get?_ofFlat hv)]
      exact hv
    · intro hv
      rw [hsame key (normalKey_of_get?_ofFlat hv)]
      exact hv
  generalize ofFlat values = s at hvalues ⊢
  generalize ofFlat values' = s' at hvalues ⊢
  cases s
  cases s'
  exact congrArg Settings.mk hvalues

/-- The order of the values plays no part where all values of the greatest key are one. -/
theorem raw?_ofFlat_eq_of_perm (hperm : values.Perm values')
    (hone : ∀ key, IsGreatest values k key →
      ∀ v v', (key, v) ∈ values → (key, v') ∈ values → v = v') :
    (ofFlat values').raw? k = (ofFlat values).raw? k := by
  by_cases hform : ∃ e ∈ values, normalKey e.1 = normalKey k
  · obtain ⟨e, he, hform⟩ := hform
    obtain ⟨key, hgreatest⟩ := exists_isGreatest he hform
    obtain ⟨v, hlast, hv⟩ := raw?_ofFlat_of_isGreatest hgreatest
    obtain ⟨v', hlast', hv'⟩ := raw?_ofFlat_of_isGreatest (hgreatest.perm hperm)
    have hmem : (key, v) ∈ values := List.mem_reverse.1 (Dict.mem_of_lookup hlast)
    have hmem' : (key, v') ∈ values' := List.mem_reverse.1 (Dict.mem_of_lookup hlast')
    rw [hv, hv', hone key hgreatest v v' hmem (hperm.mem_iff.2 hmem')]
  · have hunset : ∀ {values : List (String × SettingValue)},
        (¬ ∃ e ∈ values, normalKey e.1 = normalKey k) → (ofFlat values).raw? k = none := by
      intro values hnone
      rw [← Option.not_isSome_iff_eq_none, isSome_raw?_ofFlat]
      exact hnone
    rw [hunset hform, hunset]
    rintro ⟨e, he, hsame⟩
    exact hform ⟨e, hperm.mem_iff.2 he, hsame⟩

/-- The last value is that of its key, if the key is the greatest. -/
theorem raw?_ofFlat_concat {v : SettingValue} (h : IsGreatest (values ++ [(key, v)]) k key) :
    (ofFlat (values ++ [(key, v)])).raw? k = some v := by
  obtain ⟨w, hlast, hw⟩ := raw?_ofFlat_of_isGreatest h
  rw [List.reverse_append, List.reverse_singleton, List.singleton_append, Dict.lookup, if_pos rfl]
    at hlast
  rw [hw, hlast]

end Settings

/-! ## What an order decides -/

namespace ConfigTree

open Settings (normalKey)

/-- Of the paths of the tree with the form of a key, this one is the greatest as a text. -/
structure Leads (text : TextReader) (tree : ConfigTree) (k : String) (path : List String) :
    Prop where
  form : normalKey (dottedKey path) = normalKey k
  le : ∀ other v, Gives text tree other v → normalKey (dottedKey other) = normalKey k →
    dottedKey other ≤ dottedKey path

/-- All paths that lead to a key by the greatest text give it one value. -/
def DecidedAt (text : TextReader) (tree : ConfigTree) (k : String) : Prop :=
  ∀ path path' v v', Leads text tree k path → Gives text tree path v → Gives text tree path' v' →
    dottedKey path' = dottedKey path → v = v'

/-- What the orders of the tables of a tree decide. -/
structure FollowsOrder (text : TextReader) (tree : ConfigTree) : Prop where
  /-- a tree that cannot be flattened in one order cannot be flattened in any -/
  fails : ∀ tree', Reorders tree tree' → (tree'.settings text).isOk = (tree.settings text).isOk
  /-- the same keys are set in all orders -/
  keys : ∀ tree' s s', Reorders tree tree' → tree.settings text = .ok s →
    tree'.settings text = .ok s' → ∀ k, (s'.raw? k).isSome = (s.raw? k).isSome
  /-- a key has one value in all orders exactly when the paths that lead to it give one -/
  value : ∀ s, tree.settings text = .ok s → ∀ k,
    (∀ tree' s', Reorders tree tree' → tree'.settings text = .ok s' → s'.raw? k = s.raw? k) ↔
      DecidedAt text tree k
  /-- the settings are the same in all orders exactly when this holds of every key -/
  same : ∀ s, tree.settings text = .ok s →
    ((∀ tree', Reorders tree tree' → tree'.settings text = .ok s) ↔ ∀ k, DecidedAt text tree k)
  /-- in particular when no two paths have one dotted key -/
  apart : ∀ s, tree.settings text = .ok s →
    (∀ path path' v v', Gives text tree path v → Gives text tree path' v' →
      dottedKey path' = dottedKey path → path' = path) →
        ∀ tree', Reorders tree tree' → tree'.settings text = .ok s

section Table

variable {text : TextReader} {entries : List (String × ConfigTree)}
  {values : List (String × SettingValue)} {k : String}

/-- The values of a table are what its paths give. -/
theorem mem_values_iff (htidy : Tidy (.table entries))
    (hvalues : flattenEntries text "" entries = .ok values) {key : String} {v : SettingValue} :
    (key, v) ∈ values ↔ ∃ path, dottedKey path = key ∧ Gives text (.table entries) path v := by
  constructor
  · intro hmem
    obtain ⟨path, hkey, hgives⟩ := exists_gives_of_mem_values htidy hvalues hmem
    exact ⟨path, hkey.symm, hgives⟩
  · rintro ⟨path, rfl, leaf, hleaf, hv⟩
    cases path with
    | nil => cases hleaf
    | cons name path =>
      rw [leafAt_cons] at hleaf
      obtain ⟨w, hw, hmem⟩ := exists_mem_flattenEntries_of_leafAt entries hvalues hleaf
      rw [hv] at hw
      rw [← Option.some.inj hw, String.empty_append] at hmem
      exact hmem

theorem isGreatest_iff_leads (htidy : Tidy (.table entries))
    (hvalues : flattenEntries text "" entries = .ok values) {path : List String} {v : SettingValue}
    (hgives : Gives text (.table entries) path v) :
    Settings.IsGreatest values k (dottedKey path) ↔ Leads text (.table entries) k path := by
  constructor
  · intro h
    refine ⟨h.form, fun other w hw hform => ?_⟩
    exact h.le (dottedKey other, w) ((mem_values_iff htidy hvalues).2 ⟨other, rfl, hw⟩) hform
  · intro h
    have hmem : (dottedKey path, v) ∈ values := (mem_values_iff htidy hvalues).2 ⟨path, rfl, hgives⟩
    refine ⟨List.mem_map_of_mem hmem, h.form, fun e he hform => ?_⟩
    obtain ⟨other, hother, hgives'⟩ := (mem_values_iff htidy hvalues).1 he
    rw [← hother] at hform ⊢
    exact h.le other e.2 hgives' hform

theorem settings_of_flattenEntries {tree : ConfigTree}
    (hvalues : flattenEntries text "" tree.entriesOf = .ok values) :
    tree.settings text = .ok (Settings.ofFlat values) := by
  rw [settings, hvalues]
  rfl

/-- In another order the settings are those of the same values in another order. -/
theorem Reorders.exists_settings {tree tree' : ConfigTree} (h : Reorders tree tree')
    (htext : ReadsScalars text)
    (hvalues : flattenEntries text "" tree.entriesOf = .ok values) :
    ∃ values', values.Perm values' ∧ tree'.settings text = .ok (Settings.ofFlat values') := by
  obtain ⟨values', hvalues', hperm⟩ := h.exists_flattenEntries htext hvalues
  exact ⟨values', hperm, settings_of_flattenEntries hvalues'⟩

/-- Where there are settings in one order, there are in another. -/
theorem Reorders.isOk_settings {tree tree' : ConfigTree} (h : Reorders tree tree')
    (htext : ReadsScalars text) (hok : (tree.settings text).isOk = true) :
    (tree'.settings text).isOk = true := by
  cases hs : tree.settings text with
  | error e =>
    rw [hs] at hok
    cases hok
  | ok s =>
    obtain ⟨values, hvalues, -⟩ := exists_values_of_settings hs
    obtain ⟨values', -, hs'⟩ := h.exists_settings htext hvalues
    rw [hs']
    rfl

/-- Paths that are decided give the same value in every order. -/
theorem raw?_eq_of_decidedAt (htidy : Tidy (.table entries))
    (hvalues : flattenEntries text "" entries = .ok values) (h : DecidedAt text (.table entries) k)
    {values' : List (String × SettingValue)} (hperm : values.Perm values') :
    (Settings.ofFlat values').raw? k = (Settings.ofFlat values).raw? k := by
  refine Settings.raw?_ofFlat_eq_of_perm hperm fun key hgreatest v v' hv hv' => ?_
  obtain ⟨path, rfl, hgives⟩ := (mem_values_iff htidy hvalues).1 hv
  obtain ⟨path', hsame, hgives'⟩ := (mem_values_iff htidy hvalues).1 hv'
  exact h path path' v v' ((isGreatest_iff_leads htidy hvalues hgives).1 hgreatest) hgives hgives'
    hsame

/-- A path that leads to a key gives its value in some order. -/
theorem exists_reorders_raw? (htext : ReadsScalars text) (htidy : Tidy (.table entries))
    (hvalues : flattenEntries text "" entries = .ok values) {path : List String} {v : SettingValue}
    (hleads : Leads text (.table entries) k path) (hgives : Gives text (.table entries) path v) :
    ∃ tree' s', Reorders (.table entries) tree' ∧ tree'.settings text = .ok s' ∧
      s'.raw? k = some v := by
  have hpath : path ≠ [] := by
    rintro rfl
    obtain ⟨leaf, hleaf, -⟩ := hgives
    cases hleaf
  obtain ⟨tree', others, hreorders, hlast⟩ := exists_reorders_last hpath hgives hvalues
  obtain ⟨values', hvalues', hperm⟩ := hreorders.exists_flattenEntries htext hvalues
  rw [hlast] at hvalues'
  cases hvalues'
  refine ⟨tree', _, hreorders, settings_of_flattenEntries hlast, ?_⟩
  refine Settings.raw?_ofFlat_concat ?_
  exact ((isGreatest_iff_leads htidy hvalues hgives).2 hleads).perm hperm

/-- A key has one value in all orders exactly when it is decided. -/
theorem raw?_eq_in_every_order_iff (htext : ReadsScalars text) (htidy : Tidy (.table entries))
    (hvalues : flattenEntries text "" entries = .ok values) :
    (∀ tree' s', Reorders (.table entries) tree' → tree'.settings text = .ok s' →
      s'.raw? k = (Settings.ofFlat values).raw? k) ↔ DecidedAt text (.table entries) k := by
  constructor
  · intro hsame path path' v v' hleads hgives hgives' hkey
    have hleads' : Leads text (.table entries) k path' := ⟨hkey ▸ hleads.form, hkey ▸ hleads.le⟩
    obtain ⟨tree₁, s₁, hreorders₁, hs₁, hv₁⟩ :=
      exists_reorders_raw? htext htidy hvalues hleads hgives
    obtain ⟨tree₂, s₂, hreorders₂, hs₂, hv₂⟩ :=
      exists_reorders_raw? htext htidy hvalues hleads' hgives'
    have heq : some v = some v' :=
      calc some v = s₁.raw? k := hv₁.symm
        _ = (Settings.ofFlat values).raw? k := hsame tree₁ s₁ hreorders₁ hs₁
        _ = s₂.raw? k := (hsame tree₂ s₂ hreorders₂ hs₂).symm
        _ = some v' := hv₂
    exact Option.some.inj heq
  · intro hdecided tree' s' hreorders hs'
    obtain ⟨values', hperm, hsettings'⟩ := hreorders.exists_settings htext hvalues
    rw [hs'] at hsettings'
    cases hsettings'
    exact raw?_eq_of_decidedAt htidy hvalues hdecided hperm

end Table

/-- The settings of a table whose names are distinct at every depth follow its order only where paths
with one dotted key give different values. -/
theorem followsOrder_table {text : TextReader} (htext : ReadsScalars text)
    {entries : List (String × ConfigTree)} (htidy : Tidy (.table entries)) :
    FollowsOrder text (.table entries) := by
  have hparts : ∀ {s : Settings}, (ConfigTree.table entries).settings text = .ok s →
      ∃ values, flattenEntries text "" entries = .ok values ∧ s = Settings.ofFlat values :=
    fun hs => exists_values_of_settings hs
  have hvalue : ∀ s, (ConfigTree.table entries).settings text = .ok s → ∀ k,
      (∀ tree' s', Reorders (.table entries) tree' → tree'.settings text = .ok s' →
        s'.raw? k = s.raw? k) ↔ DecidedAt text (.table entries) k := by
    intro s hs k
    obtain ⟨values, hvalues, rfl⟩ := hparts hs
    exact raw?_eq_in_every_order_iff htext htidy hvalues
  have hsame : ∀ s, (ConfigTree.table entries).settings text = .ok s →
      ((∀ tree', Reorders (.table entries) tree' → tree'.settings text = .ok s) ↔
        ∀ k, DecidedAt text (.table entries) k) := by
    intro s hs
    constructor
    · intro hall k
      refine (hvalue s hs k).1 fun tree' s' hreorders hs' => ?_
      rw [hall tree' hreorders] at hs'
      cases hs'
      rfl
    · intro hdecided tree' hreorders
      obtain ⟨values, hvalues, rfl⟩ := hparts hs
      obtain ⟨values', hperm, hs'⟩ := hreorders.exists_settings htext hvalues
      rw [hs', Settings.eq_of_raw?_ofFlat fun k =>
        raw?_eq_of_decidedAt htidy hvalues (hdecided k) hperm]
  refine ⟨fun tree' hreorders => ?_, fun tree' s s' hreorders hs hs' k => ?_, hvalue, hsame, ?_⟩
  · exact Bool.eq_iff_iff.2 ⟨hreorders.symm.isOk_settings htext, hreorders.isOk_settings htext⟩
  · obtain ⟨values, hvalues, rfl⟩ := hparts hs
    obtain ⟨values', hperm, hsettings'⟩ := hreorders.exists_settings htext hvalues
    rw [hs'] at hsettings'
    cases hsettings'
    rw [Bool.eq_iff_iff, Settings.isSome_raw?_ofFlat, Settings.isSome_raw?_ofFlat]
    exact exists_congr fun e => and_congr_left fun _ => hperm.mem_iff.symm
  · intro s hs hapart
    refine (hsame s hs).2 fun k path path' v v' _ hgives hgives' hkey => ?_
    obtain ⟨leaf, hleaf, hv⟩ := hgives
    obtain ⟨leaf', hleaf', hv'⟩ := hgives'
    rw [hapart path path' v v' ⟨leaf, hleaf, hv⟩ ⟨leaf', hleaf', hv'⟩ hkey, hleaf] at hleaf'
    cases hleaf'
    rw [hv] at hv'
    exact Option.some.inj hv'

/-- A name with a dot beside a table: both lead to `x.a.b`. -/
def dottedName : ConfigTree :=
  .table [("x", .table [("a.b", .scalar "1"), ("a", .table [("b", .scalar "2")])])]

/-- The same with the table first. -/
def dottedNameLast : ConfigTree :=
  .table [("x", .table [("a", .table [("b", .scalar "2")]), ("a.b", .scalar "1")])]

theorem tidy_dottedName : Tidy dottedName := by
  have hleaf : ∀ text, Tidy (.scalar text) := fun _ => .of_entriesOf_eq_nil rfl
  have hinner : Tidy (.table [("b", .scalar "2")]) := by
    refine ⟨by simp [entriesOf], ?_⟩
    simpa [entriesOf] using hleaf "2"
  have houter : Tidy (.table [("a.b", .scalar "1"), ("a", .table [("b", .scalar "2")])]) := by
    refine ⟨by simp [entriesOf], ?_⟩
    simpa [entriesOf] using ⟨hleaf "1", hinner⟩
  refine ⟨by simp [dottedName, entriesOf], ?_⟩
  simpa [dottedName, entriesOf] using houter

theorem followsOrder_dottedName :
    ReadsScalars SettingsLibrary.standard.text ∧ Tidy dottedName ∧
      FollowsOrder SettingsLibrary.standard.text dottedName :=
  ⟨readsScalars_standard, tidy_dottedName,
    followsOrder_table readsScalars_standard tidy_dottedName⟩

/-- One tree, two orders, two values of one key. -/
theorem settings_dottedName_ne :
    Tidy dottedName ∧ Reorders dottedName dottedNameLast ∧
      (dottedName.settings SettingsLibrary.standard.text).toOption.bind (·.raw? "x.a.b") =
        some (.scalar "2") ∧
      (dottedNameLast.settings SettingsLibrary.standard.text).toOption.bind (·.raw? "x.a.b") =
        some (.scalar "1") ∧
      (dottedNameLast.settings SettingsLibrary.standard.text).toOption ≠
        (dottedName.settings SettingsLibrary.standard.text).toOption := by
  refine ⟨tidy_dottedName, ?_, by decide +kernel, by decide +kernel, by decide +kernel⟩
  have hmoves : Moves (.table [("a.b", .scalar "1"), ("a", .table [("b", .scalar "2")])])
      (.table [("a", .table [("b", .scalar "2")]), ("a.b", .scalar "1")]) :=
    .entries (.swap _ _ [])
  exact .single (@Moves.entry [] [] "x" _ _ hmoves)

end ConfigTree

end BuildAhead
