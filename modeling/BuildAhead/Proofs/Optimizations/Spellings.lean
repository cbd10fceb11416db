import BuildAhead.Optimizations.VariableNames
import BuildAhead.Proofs.Text.Pieces
import Mathlib.Data.List.Nodup
import Mathlib.Data.Nat.Bitwise

set_option autoImplicit false

/-!
# Optimizations: the spellings of a variable

The names of a variable are all the ways to write its segments with a dot or a dash at each border,
in the lexicographic order of the separators, a dot before a dash. Masks count through the choices
of separators: the masks for one more border are those without its bit and then the same ones with
it. From a name its separators can be read back border by border, since the segments between them
are known; so no two choices lead to one name, whatever the segments hold.
-/

namespace BuildAhead.VariableNames

/-! ## Bits -/

/-- A word has 64 bits, and none of them is lost. -/
theorem exists_bit? {number : Nat} (hnumber : number < 64) :
    ∃ word, bit? number = some word ∧ word.toNat = 2 ^ number := by
  refine ⟨_, if_pos hnumber, ?_⟩
  have hlt : 2 ^ number < 2 ^ 64 := Nat.pow_lt_pow_right (by decide) hnumber
  have hplaces : number.toUInt64.toNat % 64 = number := by
    rw [Nat.toUInt64, UInt64.toNat_ofNat']
    omega
  rw [UInt64.toNat_shiftLeft, hplaces, UInt64.toNat_one, Nat.one_shiftLeft, Nat.mod_eq_of_lt hlt]

/-- A bit chooses a dot when the mask does not have it. -/
theorem and_eq_zero_iff {mask number : Nat} (hmask : mask < 2 ^ 64) {word : UInt64}
    (hword : word.toNat = 2 ^ number) :
    mask.toUInt64 &&& word = 0 ↔ mask.testBit number = false := by
  have hsame : mask.toUInt64.toNat = mask := by
    rw [Nat.toUInt64, UInt64.toNat_ofNat', Nat.mod_eq_of_lt hmask]
  rw [← UInt64.toNat_inj, UInt64.toNat_and, hsame, hword, Nat.and_two_pow, UInt64.toNat_zero]
  cases mask.testBit number with
  | true => simp
  | false => simp

/-! ## Choices of separators -/

/-- One separator, a dot or a dash, for each border between two segments. -/
structure IsChoice (borders : Nat) (separators : List Char) : Prop where
  length : separators.length = borders
  either : ∀ c ∈ separators, c = '.' ∨ c = '-'

/-- A dot comes before a dash. -/
def DotFirst (a b : Char) : Prop := a = '.' ∧ b = '-'

/-- All choices of separators, in lexicographic order. -/
structure ListsChoices (borders : Nat) (choices : List (List Char)) : Prop where
  mem_iff : ∀ separators, separators ∈ choices ↔ IsChoice borders separators
  ascending : choices.Pairwise (List.Lex DotFirst)
  count : choices.length = 2 ^ borders
  dotsFirst : choices.head? = some (List.replicate borders '.')

/-- The choices for some borders: those with a dot at the first border, then those with a dash. -/
def choicesOf : Nat → List (List Char)
  | 0 => [[]]
  | borders + 1 => (choicesOf borders).map ('.' :: ·) ++ (choicesOf borders).map ('-' :: ·)

theorem isChoice_cons {borders : Nat} {c : Char} {separators : List Char} :
    IsChoice (borders + 1) (c :: separators) ↔ (c = '.' ∨ c = '-') ∧ IsChoice borders separators := by
  constructor
  · intro h
    exact ⟨h.either c List.mem_cons_self, Nat.succ.inj h.length,
      fun d hd => h.either d (List.mem_cons_of_mem c hd)⟩
  · rintro ⟨hc, h⟩
    exact ⟨congrArg Nat.succ h.length, List.forall_mem_cons.2 ⟨hc, h.either⟩⟩

theorem mem_choicesOf {borders : Nat} {separators : List Char} :
    separators ∈ choicesOf borders ↔ IsChoice borders separators := by
  induction borders generalizing separators with
  | zero =>
    rw [choicesOf, List.mem_singleton]
    constructor
    · rintro rfl
      exact ⟨rfl, fun c hc => absurd hc List.not_mem_nil⟩
    · intro h
      exact List.length_eq_zero_iff.1 h.length
  | succ borders ih =>
    rw [choicesOf, List.mem_append, List.mem_map, List.mem_map]
    constructor
    · rintro (⟨rest, hrest, rfl⟩ | ⟨rest, hrest, rfl⟩)
      · exact isChoice_cons.2 ⟨.inl rfl, ih.1 hrest⟩
      · exact isChoice_cons.2 ⟨.inr rfl, ih.1 hrest⟩
    · intro h
      cases separators with
      | nil => exact absurd h.length (Nat.succ_ne_zero borders).symm
      | cons c rest =>
        obtain ⟨hc, hrest⟩ := isChoice_cons.1 h
        rcases hc with rfl | rfl
        · exact .inl ⟨rest, ih.2 hrest, rfl⟩
        · exact .inr ⟨rest, ih.2 hrest, rfl⟩

theorem choicesOf_ascending (borders : Nat) :
    (choicesOf borders).Pairwise (List.Lex DotFirst) := by
  induction borders with
  | zero => exact List.pairwise_singleton _ _
  | succ borders ih =>
    have hsame : ∀ c : Char, ((choicesOf borders).map (c :: ·)).Pairwise (List.Lex DotFirst) :=
      fun c => List.pairwise_map.2 (ih.imp fun h => .cons h)
    refine List.pairwise_append.2 ⟨hsame '.', hsame '-', ?_⟩
    intro dotted hdotted dashed hdashed
    obtain ⟨rest, -, rfl⟩ := List.mem_map.1 hdotted
    obtain ⟨rest', -, rfl⟩ := List.mem_map.1 hdashed
    exact .rel ⟨rfl, rfl⟩

theorem listsChoices_choicesOf (borders : Nat) : ListsChoices borders (choicesOf borders) where
  mem_iff _ := mem_choicesOf
  ascending := choicesOf_ascending borders
  count := by
    induction borders with
    | zero => rfl
    | succ borders ih =>
      rw [choicesOf, List.length_append, List.length_map, List.length_map, ih, Nat.pow_succ,
        Nat.mul_two]
  dotsFirst := by
    induction borders with
    | zero => rfl
    | succ borders ih =>
      rw [choicesOf, List.head?_append, List.head?_map, ih]
      rfl

/-- No choice is listed twice, since none comes before itself. -/
theorem choicesOf_nodup (borders : Nat) : (choicesOf borders).Nodup := by
  refine (choicesOf_ascending borders).imp fun {a b} hlex heq => ?_
  have hirrefl : ∀ c : Char, ¬ DotFirst c c := by
    rintro c ⟨rfl, hdash⟩
    exact absurd hdash (by decide)
  subst heq
  exact List.lex_irrefl hirrefl a hlex

/-! ## Masks -/

/-- The choice that a mask stands for. The lowest bit is for the last border. -/
def choiceOf (mask : Nat) : Nat → List Char
  | 0 => []
  | borders + 1 => (if mask.testBit borders = false then '.' else '-') :: choiceOf mask borders

/-- A choice depends only on the bits for its borders. -/
theorem choiceOf_congr {mask mask' borders : Nat}
    (h : ∀ i < borders, mask.testBit i = mask'.testBit i) :
    choiceOf mask borders = choiceOf mask' borders := by
  induction borders with
  | zero => rfl
  | succ borders ih =>
    rw [choiceOf, choiceOf, h borders (Nat.lt_succ_self _), ih fun i hi => h i (by omega)]

/-- The masks, one after the other, stand for the choices in their order. -/
theorem map_choiceOf_range (borders : Nat) :
    (List.range (2 ^ borders)).map (choiceOf · borders) = choicesOf borders := by
  induction borders with
  | zero => rfl
  | succ borders ih =>
    rw [choicesOf, ← ih, Nat.pow_succ, Nat.mul_two, List.range_add, List.map_append, List.map_map,
      List.map_map, List.map_map]
    congr 1
    · refine List.map_congr_left fun mask hmask => ?_
      have hbit : mask.testBit borders = false :=
        Nat.testBit_lt_two_pow (List.mem_range.1 hmask)
      simp [choiceOf, hbit]
    · refine List.map_congr_left fun mask hmask => ?_
      have hbit : (2 ^ borders + mask).testBit borders = true := by
        rw [Nat.testBit_two_pow_add_eq, Nat.testBit_lt_two_pow (List.mem_range.1 hmask)]
        rfl
      have hlower : choiceOf (2 ^ borders + mask) borders = choiceOf mask borders :=
        choiceOf_congr fun i hi => Nat.testBit_two_pow_add_gt hi mask
      simp [choiceOf, hbit, hlower]

/-! ## Names -/

/-- Segments with separators between them. -/
def spelled (first : String) (rest : List String) (separators : List Char) : String :=
  first ++ String.join (List.zipWith (fun c s => String.singleton c ++ s) separators rest)

theorem spelled_cons (first segment : String) (rest : List String) (c : Char)
    (separators : List Char) :
    spelled first (segment :: rest) (c :: separators) =
      spelled (first.push c ++ segment) rest separators := by
  apply String.toList_injective
  simp [spelled]

/-- Different separators between the same segments make different names. -/
theorem spelled_injective {first : String} {rest : List String} {a b : List Char}
    (ha : a.length = rest.length) (hb : b.length = rest.length)
    (heq : spelled first rest a = spelled first rest b) : a = b := by
  induction rest generalizing first a b with
  | nil => rw [List.length_eq_zero_iff.1 ha, List.length_eq_zero_iff.1 hb]
  | cons segment rest ih =>
    obtain ⟨c, a, rfl⟩ := List.exists_cons_of_length_eq_add_one ha
    obtain ⟨d, b, rfl⟩ := List.exists_cons_of_length_eq_add_one hb
    have hchars := congrArg String.toList heq
    have hcd : c = d := by
      simp only [spelled, List.zipWith_cons_cons, String.join_cons, String.toList_append,
        String.toList_singleton, List.append_cancel_left_eq, List.cons_append, List.nil_append,
        List.cons.injEq] at hchars
      exact hchars.1
    subst hcd
    rw [spelled_cons, spelled_cons] at heq
    rw [ih (Nat.succ.inj ha) (Nat.succ.inj hb) heq]

/-- As long as the segments are not more than the bits, each gets its bit, and then a mask joins them
as the choice does that it stands for. -/
theorem exists_withBits? {rest : List String} (hrest : rest.length ≤ 64) :
    ∃ choices, withBits? rest = some choices ∧ ∀ mask < 2 ^ 64, ∀ first,
      joinBy mask.toUInt64 first choices = spelled first rest (choiceOf mask rest.length) := by
  induction rest with
  | nil => exact ⟨[], rfl, fun mask _ first => (String.append_empty (s := first)).symm⟩
  | cons segment rest ih =>
    have hbits : rest.length < 64 := hrest
    obtain ⟨bit, hbit, hword⟩ := exists_bit? hbits
    obtain ⟨choices, hchoices, hjoin⟩ := ih (Nat.le_of_lt hbits)
    refine ⟨(bit, segment) :: choices, by simp [withBits?, hbit, hchoices], ?_⟩
    intro mask hmask first
    rw [joinBy, hjoin mask hmask, List.length_cons, choiceOf, spelled_cons]
    simp only [and_eq_zero_iff hmask hword]

/-- The joined segments are spelled with each of the choices, in order. -/
theorem joins?_eq {first : String} {rest : List String} (hrest : rest.length < 64) :
    joins? first rest = some ((choicesOf rest.length).map (spelled first rest)) := by
  obtain ⟨masks, hmasks, hcount⟩ := exists_bit? hrest
  obtain ⟨choices, hchoices, hjoin⟩ := exists_withBits? (Nat.le_of_lt hrest)
  have hnames : (List.range (2 ^ rest.length)).map
      (fun mask => joinBy mask.toUInt64 first choices) =
        (choicesOf rest.length).map (spelled first rest) := by
    rw [← map_choiceOf_range, List.map_map]
    refine List.map_congr_left fun mask hmask => ?_
    have hlt : mask < 2 ^ 64 :=
      Nat.lt_trans (List.mem_range.1 hmask) (Nat.pow_lt_pow_right (by decide) hrest)
    exact hjoin mask hlt first
  simp [joins?, hmasks, hchoices, hcount, hnames]

theorem names_nodup (first : String) (rest : List String) :
    ((choicesOf rest.length).map (spelled first rest)).Nodup := by
  refine (List.nodup_map_iff_inj_on (choicesOf_nodup rest.length)).2 ?_
  intro a ha b hb heq
  exact spelled_injective (mem_choicesOf.1 ha).length (mem_choicesOf.1 hb).length heq

/-! ## Variables -/

variable {letters : Text.CaseTable}

theorem namesWith?_of_many {name : String} {limit : Nat}
    (h : min limit 24 < (segmentsOf (letters.lower name)).length) :
    namesWith? letters name limit = none := by
  have hlimit : min limit hardLimit < (segmentsOf (letters.lower name)).length := h
  unfold namesWith?
  simp only [if_pos hlimit]

theorem namesWith?_of_none {name : String} (limit : Nat)
    (h : segmentsOf (letters.lower name) = []) : namesWith? letters name limit = some [] := by
  unfold namesWith?
  simp [h]

/-- Segments that are not too many are spelled in all ways. -/
theorem namesWith?_of_few {name first : String} {rest : List String} {limit : Nat}
    (h : segmentsOf (letters.lower name) = first :: rest) (hfew : rest.length < min limit 24) :
    namesWith? letters name limit = some ((choicesOf rest.length).map (spelled first rest)) := by
  have hlimit : ¬ min limit hardLimit < (first :: rest).length := Nat.not_lt.2 hfew
  have hrest : rest.length < 64 :=
    Nat.lt_of_lt_of_le hfew (Nat.le_trans (Nat.min_le_right limit 24) (by decide))
  unfold namesWith?
  simp only [h, if_neg hlimit]
  exact joins?_eq hrest

/-- These are the names of a variable with these segments, of which only so many are allowed: a name
for each choice of separators, in the order of the choices, and no name twice. The words in which
the choices are counted are wide enough for them. -/
structure SpellsAll (limit : Nat) (segments : List String) (names? : Option (List String)) :
    Prop where
  none_iff : names? = none ↔ limit < segments.length
  empty : segments = [] → names? = some []
  all : ∀ first rest, segments = first :: rest → segments.length ≤ limit →
    ∃ choices, ListsChoices rest.length choices ∧
      names? = some (choices.map (spelled first rest)) ∧ (choices.map (spelled first rest)).Nodup
  /-- no bit of a border, and not the number of choices, is out of the range of a word -/
  words : segments.length ≤ limit → ∀ places < segments.length,
    ∃ word, bit? places = some word ∧ word.toNat = 2 ^ places

theorem spellsAll_segmentsOf (letters : Text.CaseTable) (name : String) (limit : Nat) :
    SpellsAll (min limit 24) (segmentsOf (letters.lower name)) (namesWith? letters name limit) where
  none_iff := by
    constructor
    · intro hnone
      cases hsegments : segmentsOf (letters.lower name) with
      | nil =>
        rw [namesWith?_of_none limit hsegments] at hnone
        cases hnone
      | cons first rest =>
        by_contra hfew
        rw [namesWith?_of_few hsegments (Nat.not_lt.1 hfew)] at hnone
        cases hnone
    · exact namesWith?_of_many
  empty := namesWith?_of_none limit
  all first rest hsegments hfew := by
    rw [hsegments] at hfew
    exact ⟨choicesOf rest.length, listsChoices_choicesOf rest.length,
      namesWith?_of_few hsegments hfew, names_nodup first rest⟩
  words hfew places hplaces := by
    have hlength : (segmentsOf (letters.lower name)).length ≤ 24 :=
      Nat.le_trans hfew (Nat.min_le_right limit 24)
    exact exists_bit? (Nat.lt_of_lt_of_le hplaces (Nat.le_trans hlength (by decide)))

/-- A variable in lower case, by whatever table, has words, which are known from it. There is a name
for each way to put dots and dashes between them, unless they are too many. -/
theorem namesWith?_spellsAll (letters : Text.CaseTable) (name : String) (limit : Nat) :
    ∃ segments, (∀ other, Text.AreWords '_' (letters.lower name) other ↔ other = segments) ∧
      SpellsAll (min limit 24) segments (namesWith? letters name limit) :=
  ⟨segmentsOf (letters.lower name), fun _ => Text.areWords_iff,
    spellsAll_segmentsOf letters name limit⟩

/-- Segments that have dots and dashes themselves. -/
example : namesOf? "_FOO__b.a_B-r" 16 =
    some ["foo.b.a.b-r", "foo.b.a-b-r", "foo-b.a.b-r", "foo-b.a-b-r"] := by
  decide +kernel

end BuildAhead.VariableNames
