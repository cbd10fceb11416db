import BuildAhead.Proofs.Settings.Flattening

set_option autoImplicit false

/-!
# Settings: what merging does

A library merges layers deeply if at every path of the result stands what the layers put there, and
at a path with no put in the way what the highest layer with a value there gives. Which of several
values of one layer that is stays open, since the entries of a layer have no order. The standard
library merges in this way: it carries out the puts of its layers in a row, so the last one has the
say.
-/

namespace BuildAhead

open ConfigTree

namespace Put

/-- The puts of layers. -/
def ofLayers (c : KeyComparison) (layers : List (List (String × ConfigTree))) : List (List Put) :=
  layers.map (ofLayer c)

/-- A chosen put of some layer gives this value, and those of the layers above it give none. -/
def Wins (chosen : Put → Prop) (layers : List (List Put)) (leaf : ConfigTree) : Prop :=
  ∃ below layer above, layers = below ++ layer :: above ∧
    (∃ p ∈ layer, chosen p ∧ p.change.given? = some leaf) ∧
      ∀ p ∈ above.flatten, chosen p → p.change.given? = none

end Put

namespace SettingsLibrary

/-- The library merges layers deeply, path by path, where paths are compared in this way. -/
structure DeepMerges (l : SettingsLibrary) (c : KeyComparison) : Prop where
  /-- no table of the result has two entries of one name -/
  tidy : ∀ layers, Tidy (.table (l.merge layers))
  /-- what stands at a path was put there by a layer -/
  put : ∀ layers path leaf, leafAt path (.table (l.merge layers)) = some leaf →
    ∃ p ∈ (Put.ofLayers c layers).flatten, p.path = path ∧ p.change.fills = true
  /-- at a path with no put in the way stands what the highest layer with a value there gives -/
  highest : ∀ layers path, Put.Alone path (Put.ofLayers c layers).flatten →
    (∃ p ∈ (Put.ofLayers c layers).flatten, p.path = path ∧ p.change.fills = true) →
      ∃ leaf, Put.Wins (fun p => p.path = path) (Put.ofLayers c layers) leaf ∧
        leafAt path (.table (l.merge layers)) = some leaf

end SettingsLibrary

/-! ## Winning -/

namespace Put

variable {chosen : Put → Prop} {layers : List (List Put)} {leaf : ConfigTree}

/-- It only matters how puts are chosen that give a value. -/
theorem Wins.congr {other : Put → Prop} (h : Wins chosen layers leaf)
    (hsame : ∀ p ∈ layers.flatten, p.change.given?.isSome = true → (chosen p ↔ other p)) :
    Wins other layers leaf := by
  obtain ⟨below, layer, above, rfl, ⟨p, hp, hchosen, hgiven⟩, habove⟩ := h
  rw [List.flatten_append, List.flatten_cons] at hsame
  refine ⟨below, layer, above, rfl, ⟨p, hp, ?_, hgiven⟩, fun q hq hother => ?_⟩
  · have hmem : p ∈ below.flatten ++ (layer ++ above.flatten) :=
      List.mem_append_right _ (List.mem_append_left _ hp)
    exact (hsame p hmem (Option.isSome_of_eq_some hgiven)).1 hchosen
  · have hmem : q ∈ below.flatten ++ (layer ++ above.flatten) :=
      List.mem_append_right _ (List.mem_append_right _ hq)
    by_contra hgives
    exact hgives (habove q hq ((hsame q hmem (Option.ne_none_iff_isSome.1 hgives)).2 hother))

variable [DecidablePred chosen]

theorem lastGiven?_eq_none_iff {puts : List Put} :
    lastGiven? chosen puts = none ↔ ∀ p ∈ puts, chosen p → p.change.given? = none := by
  simp only [lastGiven?, List.findSome?_eq_none_iff, List.mem_reverse, ite_eq_right_iff]

/-- The last value of all is one with which the highest layer wins. -/
theorem wins_of_lastGiven? (h : lastGiven? chosen layers.flatten = some leaf) :
    Wins chosen layers leaf := by
  rw [lastGiven?_flatten, List.findSome?_eq_some_iff] at h
  obtain ⟨above, layer, below, hlayers, hlast, habove⟩ := h
  refine ⟨below.reverse, layer, above.reverse, ?_, exists_given_of_lastGiven? hlast, ?_⟩
  · rw [← List.reverse_reverse layers, hlayers, List.reverse_append, List.reverse_cons,
      List.append_assoc, List.singleton_append]
  · intro p hp
    obtain ⟨row, hrow, hmem⟩ := List.mem_flatten.1 hp
    exact lastGiven?_eq_none_iff.1 (habove row (List.mem_reverse.1 hrow)) p hmem

/-- Where the puts of a layer that give a value to one choice give one value, the highest layer
wins with its last. -/
theorem Wins.findSome?_eq (h : Wins chosen layers leaf)
    (hone : ∀ layer ∈ layers, ∀ p ∈ layer, ∀ q ∈ layer, chosen p → chosen q →
      p.change.given?.isSome = true → q.change.given?.isSome = true → p = q) :
    layers.reverse.findSome? (lastGiven? chosen) = some leaf := by
  obtain ⟨below, layer, above, rfl, ⟨p, hp, hchosen, hgiven⟩, habove⟩ := h
  have hlast : lastGiven? chosen layer = some leaf := by
    have hsome := isSome_lastGiven? hp hchosen (Option.isSome_of_eq_some hgiven)
    obtain ⟨leaf', hleaf'⟩ := Option.isSome_iff_exists.1 hsome
    obtain ⟨q, hq, hchosen', hgiven'⟩ := exists_given_of_lastGiven? hleaf'
    have hlayer : layer ∈ below ++ layer :: above := List.mem_append_right _ List.mem_cons_self
    have heq : p = q := hone layer hlayer p hp q hq hchosen hchosen'
      (Option.isSome_of_eq_some hgiven) (Option.isSome_of_eq_some hgiven')
    rw [hleaf', ← hgiven', ← heq, hgiven]
  have hnone : above.reverse.findSome? (lastGiven? chosen) = none := by
    rw [← lastGiven?_flatten, lastGiven?_eq_none_iff]
    exact habove
  rw [List.reverse_append, List.reverse_cons, List.findSome?_append, List.findSome?_append, hnone,
    Option.none_or, List.findSome?_singleton, hlast, Option.some_or]

end Put

/-! ## The standard library -/

namespace SettingsLibrary

theorem exists_addSource_eq_table (source entries : List (String × ConfigTree)) :
    ∃ entries', (ConfigTree.table entries).addSource source = .table entries' := by
  induction source generalizing entries with
  | nil => exact ⟨entries, rfl⟩
  | cons entry rest ih => exact ih _

theorem tree?_ofLayers (layers : List (List (String × ConfigTree))) :
    Put.tree? (Put.ofLayers .standard layers).flatten =
      some (.table (SettingsLibrary.standard.merge layers)) := by
  obtain ⟨entries, hentries⟩ := exists_addSource_eq_table layers.flatten []
  have hmerge : SettingsLibrary.standard.merge layers = entries :=
    congrArg ConfigTree.entriesOf hentries
  rw [hmerge, ← hentries, ← Put.applyAll_ofLayer, Put.ofLayer_flatten]
  rfl

theorem deepMerges_standard : SettingsLibrary.standard.DeepMerges .standard where
  tidy layers := Put.tidy_tree? _ _ (tree?_ofLayers layers)
  put layers path leaf hleaf := by
    have hin : (Put.tree? (Put.ofLayers .standard layers).flatten).bind (leafAt path) =
        some leaf := by
      rw [tree?_ofLayers]
      exact hleaf
    exact Put.exists_fills_of_leafAt hin
  highest layers path halone hput := by
    obtain ⟨p, hp, hpath, hfills⟩ := hput
    have hgiven : p.change.given?.isSome = true := by
      rcases halone.whole p hp hpath with htable | hgiven
      · rw [htable] at hfills
        cases hfills
      · exact hgiven
    have hsome : (Put.lastGiven? (fun p => p.path = path)
        (Put.ofLayers .standard layers).flatten).isSome = true :=
      Put.isSome_lastGiven? hp hpath hgiven
    obtain ⟨leaf, hlast⟩ := Option.isSome_iff_exists.1 hsome
    refine ⟨leaf, Put.wins_of_lastGiven? hlast, ?_⟩
    rw [← hlast, ← Put.leafAt_tree?_eq_lastGiven? halone, tree?_ofLayers]
    rfl

end SettingsLibrary

end BuildAhead
