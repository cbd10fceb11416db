import BuildAhead.Proofs.Settings.Merging
import BuildAhead.Proofs.Text.Pieces
import BuildAhead.Proofs.Text.Trimming

set_option autoImplicit false

/-!
# Settings: layers

Which layer of a load has the say about a key. Layers are merged by the paths of their keys, and
only afterwards keys of one form become one. So the higher layer wins as long as the layers write
the key in a way that leads to one path; where they do not, the greatest path wins, whichever layer
it is from. This holds for every library that merges layers deeply, by whatever comparison of keys.
-/

namespace BuildAhead

open ConfigTree

namespace Put

open Settings (normalKey)

/-- The dotted key, as it is kept. -/
def spelling (p : Put) : String := dottedKey p.path

/-- The put gives a value, or a part of it, to a key that is this one but for the blanks around it
and the case of ASCII letters. -/
def Defines (k : String) (p : Put) : Prop :=
  p.change.fills = true ∧ normalKey p.key = normalKey k

end Put

namespace Settings

/-- The value of a key in the highest layer that gives it one. -/
def topValue? (layers : List (List Put)) (k : String) : Option ConfigTree :=
  layers.reverse.findSome? (Put.lastGiven? fun p => normalKey p.key = normalKey k)

/-- A scalar or a list of a tree is read as this value. -/
def Reads (text : TextReader) (leaf : ConfigTree) (v : SettingValue) : Prop :=
  setting? text leaf = some v

/-- This is a value that the chosen puts of the highest layer give, which has any. -/
def FromHighest (text : TextReader) (chosen : Put → Prop) (layers : List (List Put))
    (value : Option SettingValue) : Prop :=
  ∃ leaf v, Put.Wins chosen layers leaf ∧ Reads text leaf v ∧ value = some v

/-- All puts that define a key lead to one path, where nothing is in their way, and the form of the
key is the same whether it is taken from the key as it is written or as it is kept. -/
structure Unambiguous (puts : List Put) (k : String) : Prop where
  alike : ∀ p ∈ puts, p.change.fills = true →
    (normalKey p.spelling = normalKey k ↔ normalKey p.key = normalKey k)
  once : ∀ p ∈ puts, ∀ q ∈ puts, p.Defines k → q.Defines k → p.path = q.path
  alone : ∀ p ∈ puts, p.Defines k → Put.Alone p.path puts

/-- Every key is kept under the path that its form has when it is cut at its dots; there are only
whole values, nothing is put below one, and no layer writes one key twice. -/
structure Regular (layers : List (List Put)) : Prop where
  cut : ∀ p ∈ layers.flatten, p.change.fills = true →
    p.path = Text.pieces (· == '.') (normalKey p.key)
  whole : ∀ p ∈ layers.flatten, p.change = .table ∨ p.change.given?.isSome = true
  apart : ∀ p ∈ layers.flatten, ∀ q ∈ layers.flatten, p.change.fills = true →
    p.path <+: q.path → q.path = p.path
  once : ∀ layer ∈ layers,
    ((layer.filter fun p => p.change.fills).map fun p => normalKey p.key).Nodup

/-- How the settings of a load come from its layers. -/
structure Layered (text : TextReader) (layers : List (List Put)) (s : Settings) : Prop where
  /-- A key that no layer defines is not set. -/
  unset : ∀ k, (∀ p ∈ layers.flatten, p.change.fills = true → normalKey p.spelling ≠ normalKey k) →
    s.raw? k = none
  /-- Of the paths with the form of a key, the one that is the greatest as a text has the say, and
  at it the highest layer. -/
  greatest : ∀ k, ∀ p ∈ layers.flatten, p.change.fills = true →
    normalKey p.spelling = normalKey k → Put.Alone p.path layers.flatten →
    (∀ q ∈ layers.flatten, q.change.fills = true → normalKey q.spelling = normalKey k →
      q.spelling ≤ p.spelling ∧ (q.spelling = p.spelling → q.path = p.path)) →
    FromHighest text (fun q => q.path = p.path) layers (s.raw? k)
  /-- A key that is not ambiguous has a value of the highest layer that defines it, and none if no
  layer does. -/
  highest : ∀ k, Unambiguous layers.flatten k →
    ((∃ p ∈ layers.flatten, p.Defines k) ∧
        FromHighest text (fun p => normalKey p.key = normalKey k) layers (s.raw? k)) ∨
      (¬ ∃ p ∈ layers.flatten, p.Defines k) ∧ s.raw? k = none
  /-- In regular layers every key has the value of the highest layer. -/
  regular : Regular layers → ∀ k, Option.Rel (Reads text) (topValue? layers k) (s.raw? k)

/-! ## Regular layers -/

section Regular

variable {layers : List (List Put)}

theorem Regular.spelling_eq (h : Regular layers) {p : Put} (hp : p ∈ layers.flatten)
    (hfills : p.change.fills = true) : p.spelling = normalKey p.key := by
  rw [Put.spelling, h.cut p hp hfills]
  exact Text.joined_pieces rfl _

theorem Regular.unambiguous (h : Regular layers) (k : String) :
    Unambiguous layers.flatten k where
  alike p hp hfills := by rw [h.spelling_eq hp hfills, normalKey_normalKey]
  once p hp q hq hpk hqk := by rw [h.cut p hp hpk.1, h.cut q hq hqk.1, hpk.2, hqk.2]
  alone p hp hpk := {
    above := fun q hq hpre hne => by
      rcases h.whole q hq with htable | hgiven
      · exact htable
      · exact absurd (h.apart q hq p hp (Change.fills_of_given? hgiven) hpre).symm hne
    below := fun q hq hpre => h.apart p hp q hq hpk.1 hpre
    whole := fun q hq _ => h.whole q hq }

/-- The value with which a layer wins is the only one that it has for the key. -/
theorem Regular.topValue?_eq (h : Regular layers) {k : String} {leaf : ConfigTree}
    (hwins : Put.Wins (fun p => normalKey p.key = normalKey k) layers leaf) :
    topValue? layers k = some leaf := by
  refine hwins.findSome?_eq fun layer hlayer p hp q hq hpk hqk hpgiven hqgiven => ?_
  have hp : p ∈ layer.filter fun p => p.change.fills :=
    List.mem_filter.2 ⟨hp, Change.fills_of_given? hpgiven⟩
  have hq : q ∈ layer.filter fun p => p.change.fills :=
    List.mem_filter.2 ⟨hq, Change.fills_of_given? hqgiven⟩
  exact List.inj_on_of_nodup_map (h.once layer hlayer) hp hq (hpk.trans hqk.symm)

theorem topValue?_eq_none {k : String} (h : ¬ ∃ p ∈ layers.flatten, p.Defines k) :
    topValue? layers k = none := by
  rw [topValue?, ← Put.lastGiven?_flatten, Put.lastGiven?_eq_none_iff]
  intro p hp hkey
  by_contra hgives
  exact h ⟨p, hp, Change.fills_of_given? (Option.ne_none_iff_isSome.1 hgives), hkey⟩

end Regular

/-! ## The settings of a merged tree -/

section Merged

variable {l : SettingsLibrary} {c : KeyComparison} (hl : l.DeepMerges c)
  {layers : List (List (String × ConfigTree))} {s : Settings} {k : String}
  (hsettings : (ConfigTree.table (l.merge layers)).settings l.text = .ok s)

include hl hsettings

theorem raw?_eq_none_of_forms
    (hforms : ∀ p ∈ (Put.ofLayers c layers).flatten, p.change.fills = true →
      normalKey p.spelling ≠ normalKey k) : s.raw? k = none := by
  refine raw?_eq_none_of_settings (hl.tidy layers) hsettings fun path hsome => ?_
  obtain ⟨leaf, hleaf⟩ := Option.isSome_iff_exists.1 hsome
  obtain ⟨p, hp, rfl, hfills⟩ := hl.put layers path leaf hleaf
  exact hforms p hp hfills

theorem fromHighest_of_greatest {p : Put} (hp : p ∈ (Put.ofLayers c layers).flatten)
    (hfills : p.change.fills = true) (hform : normalKey p.spelling = normalKey k)
    (halone : Put.Alone p.path (Put.ofLayers c layers).flatten)
    (hgreatest : ∀ q ∈ (Put.ofLayers c layers).flatten, q.change.fills = true →
      normalKey q.spelling = normalKey k →
        q.spelling ≤ p.spelling ∧ (q.spelling = p.spelling → q.path = p.path)) :
    FromHighest l.text (fun q => q.path = p.path) (Put.ofLayers c layers) (s.raw? k) := by
  obtain ⟨leaf, hwins, hleaf⟩ := hl.highest layers p.path halone ⟨p, hp, rfl, hfills⟩
  -- the root is a table, so the value stands below a name
  have hpath : p.path ≠ [] := by
    intro hnil
    rw [hnil] at hleaf
    cases hleaf
  obtain ⟨v, hv, hraw⟩ := raw?_of_settings_of_greatest (hl.tidy layers) hsettings hpath hleaf hform
    fun other hsome hother => by
      obtain ⟨leaf', hleaf'⟩ := Option.isSome_iff_exists.1 hsome
      obtain ⟨q, hq, rfl, hqfills⟩ := hl.put layers other leaf' hleaf'
      exact hgreatest q hq hqfills hother
  exact ⟨leaf, v, hwins, hv, hraw⟩

/-- Where a key is not ambiguous, it does not matter whether its puts are told by their keys or by
their paths. -/
theorem fromHighest_of_unambiguous (h : Unambiguous (Put.ofLayers c layers).flatten k) {p : Put}
    (hp : p ∈ (Put.ofLayers c layers).flatten) (hpk : p.Defines k) :
    FromHighest l.text (fun q => normalKey q.key = normalKey k) (Put.ofLayers c layers)
      (s.raw? k) := by
  have hform := (h.alike p hp hpk.1).2 hpk.2
  have hbypath := fromHighest_of_greatest hl hsettings hp hpk.1 hform (h.alone p hp hpk)
    fun q hq hfills hform => by
      have hpath := h.once q hq p hp ⟨hfills, (h.alike q hq hfills).1 hform⟩ hpk
      have hspelling : q.spelling = p.spelling := congrArg dottedKey hpath
      exact ⟨hspelling ▸ String.le_refl _, fun _ => hpath⟩
  obtain ⟨leaf, v, hwins, hv⟩ := hbypath
  refine ⟨leaf, v, hwins.congr fun q hq hgiven => ?_, hv⟩
  have hfills := Change.fills_of_given? hgiven
  constructor
  · intro hpath
    have hspelling : q.spelling = p.spelling := congrArg dottedKey hpath
    exact (h.alike q hq hfills).1 (hspelling ▸ hform)
  · exact fun hkey => h.once q hq p hp ⟨hfills, hkey⟩ hpk

theorem fromHighest_or_of_unambiguous (h : Unambiguous (Put.ofLayers c layers).flatten k) :
    ((∃ p ∈ (Put.ofLayers c layers).flatten, p.Defines k) ∧
        FromHighest l.text (fun p => normalKey p.key = normalKey k) (Put.ofLayers c layers)
          (s.raw? k)) ∨
      (¬ ∃ p ∈ (Put.ofLayers c layers).flatten, p.Defines k) ∧ s.raw? k = none := by
  by_cases hdefined : ∃ p ∈ (Put.ofLayers c layers).flatten, p.Defines k
  · obtain ⟨p, hp, hpk⟩ := hdefined
    exact .inl ⟨⟨p, hp, hpk⟩, fromHighest_of_unambiguous hl hsettings h hp hpk⟩
  · refine .inr ⟨hdefined, raw?_eq_none_of_forms hl hsettings fun p hp hfills hform => ?_⟩
    exact hdefined ⟨p, hp, hfills, (h.alike p hp hfills).1 hform⟩

theorem rel_topValue?_of_regular (h : Regular (Put.ofLayers c layers)) :
    Option.Rel (Reads l.text) (topValue? (Put.ofLayers c layers) k) (s.raw? k) := by
  rcases fromHighest_or_of_unambiguous hl hsettings (h.unambiguous k) with
    ⟨-, leaf, v, hwins, hv, hraw⟩ | ⟨hundefined, hraw⟩
  · rw [h.topValue?_eq hwins, hraw]
    exact .some hv
  · rw [topValue?_eq_none hundefined, hraw]
    exact .none

end Merged

/-- The settings of every load come from its layers: the greatest path of a key has the say, and
where the layers agree on the path, the highest of them. -/
theorem load_layered {l : SettingsLibrary} {c : KeyComparison} (hl : l.DeepMerges c)
    {files : Files.Tree} {file : Option Files.Path} {env : Environment}
    {explicit : List (String × String)} {s : Settings}
    (hload : loadWith l files file env explicit = .ok s) :
    ∃ layers, layersOf l files file env explicit = .ok layers ∧
      Layered l.text (Put.ofLayers c layers) s := by
  obtain ⟨layers, hlayers, hsettings⟩ := bind_eq_ok hload
  refine ⟨layers, hlayers, ?_⟩
  constructor
  case unset => exact fun k => raw?_eq_none_of_forms hl hsettings
  case greatest =>
    intro k p hp hfills hform halone hgreatest
    exact fromHighest_of_greatest hl hsettings hp hfills hform halone hgreatest
  case highest => exact fun k => fromHighest_or_of_unambiguous hl hsettings
  case regular => exact fun hregular k => rel_topValue?_of_regular hl hsettings hregular

/-- A file whose values are in part replaced by the layers above it. -/
def replacedFile : Files.Tree :=
  ⟨[(["p.json"],
    .file "\x7b\"Runtime\": \"aot\", \"a\": \x7b\"b\": 1, \"c\": [\"x\"]\x7d\x7d")], []⟩

/-- What the layers of a load of that file put. -/
def replacedLayers : List (List Put) :=
  Put.ofLayers .standard ((layersOf .standard replacedFile (some "p.json")
    [("PREBAKE__A__B", "2")] [("runtime", "native")]).toOption.getD [])

theorem load_layered_replacedFile :
    SettingsLibrary.standard.DeepMerges .standard ∧
    ∃ s, loadWith .standard replacedFile (some "p.json") [("PREBAKE__A__B", "2")]
        [("runtime", "native")] = .ok s ∧
      Regular replacedLayers ∧
      (∀ k, Option.Rel (Reads SettingsLibrary.standard.text) (topValue? replacedLayers k)
        (s.raw? k)) ∧
      s.raw? "runtime" = some (.scalar "native") ∧ s.raw? "a.b" = some (.scalar "2") ∧
      s.raw? "a.c" = some (.list ["x"]) ∧ s.raw? "a" = none := by
  have hload : loadWith .standard replacedFile (some "p.json") [("PREBAKE__A__B", "2")]
      [("runtime", "native")] = .ok (.ofValues
        [("a.b", .scalar "2"), ("a.c", .list ["x"]), ("runtime", .scalar "native")]) := by
    decide +kernel
  have hregular : Regular replacedLayers := by
    constructor
    case cut => decide +kernel
    case whole => decide +kernel
    case apart => decide +kernel
    case once => decide +kernel
  obtain ⟨layers, hlayers, hlayered⟩ := load_layered SettingsLibrary.deepMerges_standard hload
  have heq : Put.ofLayers .standard layers = replacedLayers := by
    rw [replacedLayers, hlayers]
    rfl
  rw [heq] at hlayered
  exact ⟨SettingsLibrary.deepMerges_standard, _, hload, hregular, hlayered.regular hregular,
    by decide +kernel⟩

/-- A file with a blank in front of a key that has a default. -/
def blankBeforeKey : Files.Tree :=
  ⟨[(["p.json"], .file "\x7b\" runtime\": \"native\"\x7d")], []⟩

/-- What the layers of a load of that file put. -/
def blankLayers : List (List Put) :=
  Put.ofLayers .standard
    ((layersOf .standard blankBeforeKey (some "p.json") [] []).toOption.getD [])

/-- A default can win over a file, with whole values only, no key below another and each key once in
each layer: the path with the blank is the smaller text. -/
theorem default_wins_over_blankBeforeKey :
    ∃ s, loadWith .standard blankBeforeKey (some "p.json") [] [] = .ok s ∧
      (∀ p ∈ blankLayers.flatten, p.change.given?.isSome = true) ∧
      (∀ p ∈ blankLayers.flatten, ∀ q ∈ blankLayers.flatten,
        Text.startsWith (normalKey q.key) (normalKey p.key ++ ".") = false) ∧
      (∀ layer ∈ blankLayers, layer.length ≤ 1) ∧
      (topValue? blankLayers "runtime").bind (setting? SettingsLibrary.standard.text) =
        some (.scalar "native") ∧
      s.raw? "runtime" = some (.scalar "jit") := by
  have hload : loadWith .standard blankBeforeKey (some "p.json") [] [] =
      .ok (.ofValues [(" runtime", .scalar "native"), ("runtime", .scalar "jit")]) := by
    decide +kernel
  exact ⟨_, hload, by decide +kernel⟩

end Settings

end BuildAhead
