import BuildAhead.Proofs.Text.Pieces
import BuildAhead.Proofs.Text.Trimming
import BuildAhead.Settings.Basic

set_option autoImplicit false

/-!
# Settings: values read as lists

A list of entries can be given as it is or be written as one text, with a comma or a semicolon
between two entries. Read as a list, both give the entries without the blanks around them, and
without those that are all blank. A text therefore may have empty or blank pieces anywhere. What was
read can be written as one text again, with either separator, and is read again as what it was.
-/

namespace BuildAhead.Settings

/-! ## Lists as texts -/

/-- The character stands between two entries of a list. -/
def Separates (c : Char) : Prop := c = ',' ∨ c = ';'

/-- The text can be an entry of a list that is written as one text. -/
def Unseparated (entry : String) : Prop := ',' ∉ entry.toList ∧ ';' ∉ entry.toList

/-- The entries of a list that are not all blank, without the blanks around them. -/
def kept (entries : List String) : List String :=
  (entries.filter fun entry => !Text.isAllBlank entry).map Text.trim

/-- The pieces are the entries in their order, and among them any number of pieces that are empty or
all blank. -/
inductive Interspersed : List String → List String → Prop where
  | nil : Interspersed [] []
  | entry (e : String) {entries pieces : List String} (h : Interspersed entries pieces) :
    Interspersed (e :: entries) (e :: pieces)
  | blank {piece : String} (hpiece : Text.isAllBlank piece = true) {entries pieces : List String}
    (h : Interspersed entries pieces) : Interspersed entries (piece :: pieces)

/-- The text of a first piece and of further ones, each behind its own separator. -/
def mixed (first : String) (rest : List (Char × String)) : String :=
  first ++ String.join (rest.map fun p => String.singleton p.1 ++ p.2)

/-- The text writes the entries as a list: with separators of both kinds in any mix, and with blank
pieces anywhere. -/
def WritesList (entries : List String) (text : String) : Prop :=
  ∃ first rest, text = mixed first rest ∧ (∀ p ∈ rest, Separates p.1) ∧
    Interspersed entries (first :: rest.map Prod.snd)

/-! ## Separators -/

theorem isListSeparator_iff {c : Char} : isListSeparator c = true ↔ Separates c := by
  rw [isListSeparator, Separates, Bool.or_eq_true, beq_iff_eq, beq_iff_eq]

theorem unseparated_iff {entry : String} :
    Unseparated entry ↔ ∀ c ∈ entry.toList, isListSeparator c = false := by
  constructor
  · intro h c hc
    rw [Bool.eq_false_iff, ne_eq, isListSeparator_iff]
    rintro (rfl | rfl)
    · exact h.1 hc
    · exact h.2 hc
  · intro h
    constructor
    · exact fun hc => absurd (h _ hc) (by decide)
    · exact fun hc => absurd (h _ hc) (by decide)

theorem Unseparated.trim {entry : String} (h : Unseparated entry) : Unseparated (Text.trim entry) := by
  rw [unseparated_iff] at h ⊢
  intro c hc
  rw [Text.trim, String.toList_ofList] at hc
  exact h c (Text.trimChars_subset _ hc)

theorem unseparated_of_isAllBlank {piece : String} (hpiece : Text.isAllBlank piece = true) :
    Unseparated piece := by
  rw [Text.isAllBlank, List.all_eq_true] at hpiece
  constructor
  · exact fun hc => absurd (hpiece _ hc) (by decide)
  · exact fun hc => absurd (hpiece _ hc) (by decide)

/-! ## What is kept of pieces -/

theorem trimmedItems_eq_kept (entries : List String) : trimmedItems entries = kept entries := by
  have hblank : ∀ entry, (Text.trim entry).isEmpty = Text.isAllBlank entry := fun entry => by
    rw [Bool.eq_iff_iff, String.isEmpty_iff, Text.trim_eq_empty_iff]
  have hsame : ((fun item : String => !item.isEmpty) ∘ Text.trim) =
      fun entry => !Text.isAllBlank entry := by
    funext entry
    rw [Function.comp_apply, hblank]
  rw [trimmedItems, kept, List.filter_map, hsame]

theorem kept_cons_of_isAllBlank {piece : String} (hpiece : Text.isAllBlank piece = true)
    (pieces : List String) : kept (piece :: pieces) = kept pieces := by
  rw [kept, List.filter_cons_of_neg (by simp [hpiece])]
  rfl

theorem kept_cons_congr (e : String) {entries pieces : List String} (h : kept pieces = kept entries) :
    kept (e :: pieces) = kept (e :: entries) := by
  cases he : Text.isAllBlank e with
  | true => rw [kept_cons_of_isAllBlank he, kept_cons_of_isAllBlank he, h]
  | false =>
    have hcons : ∀ rest, kept (e :: rest) = Text.trim e :: kept rest := fun rest => by
      rw [kept, List.filter_cons_of_pos (by simp [he]), List.map_cons]
      rfl
    rw [hcons, hcons, h]

/-- Blank pieces among the entries change nothing. -/
theorem Interspersed.kept_eq {entries pieces : List String} (h : Interspersed entries pieces) :
    kept pieces = kept entries := by
  induction h with
  | nil => rfl
  | entry e _ ih => exact kept_cons_congr e ih
  | blank hpiece _ ih => rw [kept_cons_of_isAllBlank hpiece, ih]

theorem Interspersed.unseparated {entries pieces : List String} (h : Interspersed entries pieces)
    (hentries : ∀ e ∈ entries, Unseparated e) : ∀ p ∈ pieces, Unseparated p := by
  induction h with
  | nil => exact hentries
  | entry e _ ih =>
    rw [List.forall_mem_cons] at hentries ⊢
    exact ⟨hentries.1, ih hentries.2⟩
  | blank hpiece _ ih =>
    rw [List.forall_mem_cons]
    exact ⟨unseparated_of_isAllBlank hpiece, ih hentries⟩

/-- An entry that has nothing to lose. -/
structure Clean (entry : String) : Prop where
  nonempty : entry ≠ ""
  trimmed : Text.IsTrimmed entry
  unseparated : Unseparated entry

theorem clean_of_mem_kept {entries : List String} (hentries : ∀ e ∈ entries, Unseparated e)
    {item : String} (hitem : item ∈ kept entries) : Clean item := by
  obtain ⟨entry, hentry, rfl⟩ := List.mem_map.1 hitem
  obtain ⟨hmem, hblank⟩ := List.mem_filter.1 hentry
  refine ⟨fun hempty => ?_, Text.isTrimmed_trim entry, (hentries entry hmem).trim⟩
  rw [Text.trim_eq_empty_iff.1 hempty] at hblank
  cases hblank

/-- Of clean entries all is kept. -/
theorem kept_of_clean {items : List String} (hitems : ∀ item ∈ items, Clean item) :
    kept items = items := by
  have hfilter : items.filter (fun item => !Text.isAllBlank item) = items := by
    refine List.filter_eq_self.2 fun item hitem => ?_
    rw [Bool.not_eq_true', Bool.eq_false_iff, ne_eq, ← Text.trim_eq_empty_iff,
      (hitems item hitem).trimmed.trim_eq]
    exact (hitems item hitem).nonempty
  calc kept items
      _ = items.map Text.trim := by rw [kept, hfilter]
      _ = items.map id := List.map_congr_left fun item hitem => (hitems item hitem).trimmed.trim_eq
      _ = items := List.map_id items

/-! ## Texts read as lists -/

theorem mixed_cons (first : String) (p : Char × String) (rest : List (Char × String)) :
    mixed first (p :: rest) = first ++ String.singleton p.1 ++ mixed p.2 rest := by
  simp only [mixed, List.map_cons, String.join_cons, String.append_assoc]

/-- Pieces without separators are found again between the separators of a text. -/
theorem pieces_mixed {first : String} {rest : List (Char × String)}
    (hrest : ∀ p ∈ rest, Separates p.1)
    (hpieces : ∀ piece ∈ first :: rest.map Prod.snd, Unseparated piece) :
    Text.pieces isListSeparator (mixed first rest) = first :: rest.map Prod.snd := by
  unfold Text.pieces
  induction rest generalizing first with
  | nil =>
    have hfirst := unseparated_iff.1 (hpieces first List.mem_cons_self)
    rw [mixed, List.map_nil, String.join_nil, String.append_empty, Text.piecesOf_of_forall_not hfirst,
      List.map_singleton, String.ofList_toList, List.map_nil]
  | cons p rest ih =>
    rw [List.forall_mem_cons] at hrest hpieces
    have hfirst := unseparated_iff.1 hpieces.1
    rw [mixed_cons, String.toList_append, String.toList_append, String.toList_singleton,
      List.append_assoc, List.singleton_append,
      Text.piecesOf_append_cons (isListSeparator_iff.2 hrest.1),
      Text.piecesOf_of_forall_not hfirst, List.map_append, ih hrest.2 hpieces.2,
      List.map_singleton, String.ofList_toList, List.singleton_append, List.map_cons]

theorem splitList_eq_kept (text : String) :
    splitList text = kept (Text.pieces isListSeparator text) := trimmedItems_eq_kept _

/-- A text that writes a list is read as the list. -/
theorem splitList_of_writesList {entries : List String} {text : String}
    (hentries : ∀ e ∈ entries, Unseparated e) (h : WritesList entries text) :
    splitList text = kept entries := by
  obtain ⟨first, rest, rfl, hrest, hpieces⟩ := h
  rw [splitList_eq_kept, pieces_mixed hrest (hpieces.unseparated hentries), hpieces.kept_eq]

theorem unseparated_of_mem_pieces {text piece : String}
    (hpiece : piece ∈ Text.pieces isListSeparator text) : Unseparated piece := by
  obtain ⟨cs, hcs, rfl⟩ := List.mem_map.1 hpiece
  rw [unseparated_iff, String.toList_ofList]
  exact Text.not_separator_of_mem_piecesOf hcs

theorem clean_of_mem_splitList {text item : String} (hitem : item ∈ splitList text) : Clean item := by
  rw [splitList_eq_kept] at hitem
  exact clean_of_mem_kept (fun _ hpiece => unseparated_of_mem_pieces hpiece) hitem

/-- Clean entries with one separator between two of them are read again. -/
theorem splitList_joined {items : List String} (hitems : ∀ item ∈ items, Clean item) {c : Char}
    (hc : Separates c) : splitList (Text.joined (String.singleton c) items) = items := by
  by_cases hne : items = []
  · have hnone : splitList "" = [] := by decide +kernel
    rw [hne]
    exact hnone
  · have hfree : ∀ p ∈ items, ∀ x ∈ p.toList, isListSeparator x = false :=
      fun p hp => unseparated_iff.1 (hitems p hp).unseparated
    rw [splitList_eq_kept, Text.pieces_joined (String.toList_singleton c)
      (isListSeparator_iff.2 hc) hne hfree, kept_of_clean hitems]

/-! ## Values read as lists -/

/-- What is read from a value as a list. -/
structure ReadsList (v : SettingValue) (items : List String) : Prop where
  /-- A list gives what is kept of its entries. -/
  list : ∀ entries, v = .list entries → items = kept entries
  /-- A text that writes a list gives the same. -/
  text : ∀ entries text, (∀ e ∈ entries, Unseparated e) → WritesList entries text →
    v = .scalar text → items = kept entries
  /-- Every text gives clean entries only. -/
  clean : ∀ text, v = .scalar text → ∀ item ∈ items, Clean item
  /-- What a text gave can be written with either separator and is read again. -/
  again : ∀ text, v = .scalar text → ∀ c, Separates c → ∀ (s : Settings) (key : String),
    s.raw? key = some (.scalar (Text.joined (String.singleton c) items)) → s.items key = items

variable {s : Settings} {key : String}

theorem items_of_raw? {v : SettingValue} (h : s.raw? key = some v) : s.items key = itemsOf v := by
  rw [items, h]

/-- A key that is set is read as a list in the same way whether its value is a list or a text that
writes one. -/
theorem items_readsList {v : SettingValue} (h : s.raw? key = some v) :
    ReadsList v (s.items key) := by
  rw [items_of_raw? h]
  constructor
  case list =>
    rintro entries rfl
    exact trimmedItems_eq_kept entries
  case text =>
    rintro entries text hentries hwrites rfl
    exact splitList_of_writesList hentries hwrites
  case clean =>
    rintro text rfl item hitem
    exact clean_of_mem_splitList hitem
  case again =>
    rintro text rfl c hc s' key' h'
    rw [items_of_raw? h']
    exact splitList_joined (fun _ hitem => clean_of_mem_splitList hitem) hc

/-- The kinds of a scan as one text, with both separators and with blank pieces. -/
def mixedTypes : Settings := ofPairs [("service.types", "a.B ;; \u3000c.D,\t,")]

theorem items_readsList_mixedTypes :
    mixedTypes.raw? "Service.Types" = some (.scalar "a.B ;; \u3000c.D,\t,") ∧
      (∀ e ∈ ["a.B ", " \u3000c.D"], Unseparated e) ∧
      WritesList ["a.B ", " \u3000c.D"] "a.B ;; \u3000c.D,\t," ∧
      mixedTypes.items "Service.Types" = ["a.B", "c.D"] := by
  have hraw : mixedTypes.raw? "Service.Types" = some (.scalar "a.B ;; \u3000c.D,\t,") := by
    decide +kernel
  have hentries : ∀ e ∈ ["a.B ", " \u3000c.D"], Unseparated e := by
    simp only [Unseparated]
    decide +kernel
  have hwrites : WritesList ["a.B ", " \u3000c.D"] "a.B ;; \u3000c.D,\t," := by
    refine ⟨"a.B ", [(';', ""), (';', " \u3000c.D"), (',', "\t"), (',', "")], by decide +kernel, ?_,
      ?_⟩
    · simp [Separates]
    · exact .entry _ (.blank (by decide +kernel) (.entry _ (.blank (by decide +kernel)
        (.blank (by decide +kernel) .nil))))
  refine ⟨hraw, hentries, hwrites, ?_⟩
  rw [(items_readsList hraw).text _ _ hentries hwrites rfl]
  decide +kernel

end BuildAhead.Settings
