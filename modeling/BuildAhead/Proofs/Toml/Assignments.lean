import BuildAhead.Proofs.Text.Pieces
import BuildAhead.Proofs.Text.Trimming
import BuildAhead.Toml.Quoted

set_option autoImplicit false

/-!
# Toml: assignments line by line

What the lines of a text assign, when each assignment keeps to its line: the key is what stands in
front of the first equals sign, and a line that begins with a hash is a comment. A plain key and a
quoted text that are written in this way are read again, whatever quotes are put around the text, so
long as they keep it on its line.
-/

namespace BuildAhead

namespace Toml

/-! ## Lines -/

/-- The key that a line assigns, and the text of its value. -/
def assigned? (line : String) : Option (String × String) :=
  match Text.splitFirst? '=' line with
  | none => none
  | some (before, behind) =>
    if Text.startsWith (Text.trim before) "#" then none
    else some (Text.trim before, Text.trim behind)

/-- What the lines of a text assign, in order. -/
def assignments (text : String) : List (String × String) :=
  (Text.pieces (· == '\n') text).filterMap assigned?

/-- A character of a dotted key without quotes. -/
def isPlainChar (c : Char) : Bool :=
  Text.isAsciiAlphanumeric c || c == '_' || c == '-' || c == '.'

/-- A dotted key without quotes. -/
def IsPlainKey (key : String) : Prop := ∀ c ∈ key.toList, isPlainChar c = true

instance (key : String) : Decidable (IsPlainKey key) :=
  decidable_of_iff (key.toList.all isPlainChar = true) List.all_eq_true

theorem toNat_of_isPlainChar {c : Char} (hc : isPlainChar c = true) :
    45 ≤ c.toNat ∧ c.toNat ≤ 122 ∧ c.toNat ≠ 61 := by
  have hrange : ∀ low high : Char, (decide (low ≤ c) && decide (c ≤ high)) = true →
      low.toNat ≤ c.toNat ∧ c.toNat ≤ high.toNat := by
    intro low high h
    rw [Bool.and_eq_true, decide_eq_true_eq, decide_eq_true_eq] at h
    exact h
  simp only [isPlainChar, Text.isAsciiAlphanumeric, Bool.or_eq_true, beq_iff_eq] at hc
  rcases hc with ((((hc | hc) | hc) | rfl) | rfl) | rfl
  · have h := hrange _ _ hc
    simp at h
    omega
  · have h := hrange _ _ hc
    simp at h
    omega
  · have h := hrange _ _ hc
    simp at h
    omega
  · decide
  · decide
  · decide

theorem isBlank_of_isPlainChar {c : Char} (hc : isPlainChar c = true) : Text.isBlank c = false := by
  obtain ⟨hlow, hhigh, -⟩ := toNat_of_isPlainChar hc
  simp only [Text.isBlank]
  grind

theorem IsPlainKey.append {first second : String} (hfirst : IsPlainKey first)
    (hsecond : IsPlainKey second) : IsPlainKey (first ++ second) := by
  intro c hc
  rw [String.toList_append, List.mem_append] at hc
  exact hc.elim (hfirst c) (hsecond c)

/-- A character that is not plain is in no plain key. -/
theorem IsPlainKey.not_mem {key : String} (hkey : IsPlainKey key) {c : Char}
    (hc : isPlainChar c = false) : c ∉ key.toList := by
  intro hmem
  rw [hkey c hmem] at hc
  cases hc

/-- A plain key and a value without blanks at its ends are read from their line. -/
theorem assigned?_assignment {key value : String} (hkey : IsPlainKey key)
    (hfirst : ∀ c ∈ value.toList.head?, Text.isBlank c = false)
    (hlast : ∀ c ∈ value.toList.getLast?, Text.isBlank c = false) :
    assigned? (key ++ " = " ++ value) = some (key, value) := by
  have hline : (key ++ " = " ++ value).toList =
      (key.toList ++ [' ']) ++ '=' :: (' ' :: value.toList) := by
    simp [String.toList_append]
  have hbefore : '=' ∉ key.toList ++ [' '] := by
    rw [List.mem_append]
    rintro (h | h)
    · exact hkey.not_mem (by decide) h
    · exact absurd h (by decide)
  have hsolid : ∀ c ∈ key.toList, Text.isBlank c = false := fun c hc =>
    isBlank_of_isPlainChar (hkey c hc)
  have htrimKey : Text.trimChars ([] ++ key.toList ++ [' ']) = key.toList :=
    Text.trimChars_surrounded (by simp) (List.forall_mem_singleton.2 (by decide))
      (fun c hc => hsolid c (List.mem_of_mem_head? hc))
      (fun c hc => hsolid c (List.mem_of_mem_getLast? hc))
  have htrimValue : Text.trimChars ([' '] ++ value.toList ++ []) = value.toList :=
    Text.trimChars_surrounded (List.forall_mem_singleton.2 (by decide)) (by simp) hfirst hlast
  rw [List.nil_append] at htrimKey
  rw [List.append_nil, List.singleton_append] at htrimValue
  have hnoComment : Text.startsWith key "#" = false := by
    rw [Text.startsWith, Bool.eq_false_iff, ne_eq, List.isPrefixOf_iff_prefix]
    intro hstart
    exact hkey.not_mem (c := '#') (by decide) (hstart.subset List.mem_cons_self)
  rw [assigned?, Text.splitFirst?_append hline hbefore]
  simp [Text.trim, htrimKey, htrimValue, hnoComment]

theorem startsWith_trim_hash (cs : List Char) :
    Text.startsWith (Text.trim (String.ofList ('#' :: cs))) "#" = true := by
  obtain ⟨rest, hrest⟩ := Text.exists_trimChars_cons (c := '#') (by decide) cs
  simp [Text.trim, hrest, Text.startsWith]

/-- A comment assigns nothing. -/
theorem assigned?_comment (text : String) : assigned? ("# " ++ text) = none := by
  have hline : ("# " ++ text).toList = '#' :: ' ' :: text.toList := by
    simp [String.toList_append]
  have hfront : ∃ cs, ('#' :: ' ' :: text.toList).takeWhile (· != '=') = '#' :: cs :=
    ⟨_, List.takeWhile_cons_of_pos (by decide)⟩
  obtain ⟨cs, hcs⟩ := hfront
  rw [assigned?, Text.splitFirst?, hline, List.span_eq_takeWhile_dropWhile, hcs]
  cases ('#' :: ' ' :: text.toList).dropWhile (· != '=') with
  | nil => rfl
  | cons c behind =>
    dsimp only
    rw [startsWith_trim_hash]
    rfl

/-- Lines that each end with a line feed are read one by one. -/
theorem assignments_ended {ls : List String} (hls : ∀ l ∈ ls, '\n' ∉ l.toList) :
    assignments (String.join (ls.map (· ++ "\n"))) = ls.filterMap assigned? := by
  have hfree : ∀ l ∈ ls, ∀ c ∈ l.toList, (c == '\n') = false := fun l hl c hc =>
    beq_eq_false_iff_ne.2 fun heq => hls l hl (heq ▸ hc)
  have hpieces : Text.pieces (· == '\n') (String.join (ls.map (· ++ "\n"))) = ls ++ [""] :=
    Text.pieces_join_ended (c := '\n') rfl rfl hfree
  rw [assignments, hpieces, List.filterMap_append]
  simp [assigned?, Text.splitFirst?]

/-! ## Quoted texts -/

/-- What stands between quotes on one line. -/
def IsEnclosed (cs : List Char) : Prop :=
  ∃ quote inner, cs = quote :: inner ++ [quote] ∧ (quote = '"' ∨ quote = '\'') ∧ '\n' ∉ inner

/-- A text of one line is quoted on one line. -/
def Encloses (quote : String → String) : Prop :=
  ∀ s, '\n' ∉ s.toList → IsEnclosed (quote s).toList

/-- A quoted text is read from its line. -/
theorem assigned?_quoted {quote : String → String} (hquote : Encloses quote) {key sample : String}
    (hkey : IsPlainKey key) (hsample : '\n' ∉ sample.toList) :
    assigned? (key ++ " = " ++ quote sample) = some (key, quote sample) := by
  obtain ⟨mark, inner, hvalue, hmark, -⟩ := hquote sample hsample
  have hsolid : Text.isBlank mark = false := by
    rcases hmark with rfl | rfl
    · decide
    · decide
  refine assigned?_assignment hkey ?_ ?_
  · rw [hvalue]
    rintro c ⟨⟩
    exact hsolid
  · rw [hvalue, List.getLast?_concat]
    rintro c ⟨⟩
    exact hsolid

theorem newline_not_mem_quoted {quote : String → String} (hquote : Encloses quote) {s : String}
    (hs : '\n' ∉ s.toList) : '\n' ∉ (quote s).toList := by
  obtain ⟨mark, inner, hvalue, hmark, hinner⟩ := hquote s hs
  rw [hvalue, List.mem_append, List.mem_cons, List.mem_singleton]
  rintro ((h | h) | h)
  · rcases hmark with rfl | rfl <;> cases h
  · exact hinner h
  · rcases hmark with rfl | rfl <;> cases h

/-! ## The quotes that are written -/

/-- No escape has a line feed in it. -/
theorem newline_not_mem_escape (c : Char) : '\n' ∉ escape c := by
  have hdigit : ∀ n < 16, '\n' ≠ Char.toUpper (Text.hexDigit n) := by decide
  unfold escape
  split
  case h_8 d _ _ hnewline _ _ _ _ =>
    split
    · next hcontrol =>
      have hsmall : c.toNat ≤ 127 := by
        simp only [isControl, Bool.or_eq_true, Bool.and_eq_true, decide_eq_true_eq, beq_iff_eq]
          at hcontrol
        omega
      have hfirst := hdigit (c.toNat / 16) (by omega)
      have hsecond := hdigit (c.toNat % 16) (by omega)
      simp [hfirst, hsecond]
    · next hplain =>
      rw [List.mem_singleton]
      exact fun heq => hnewline heq.symm
  all_goals decide

theorem newline_not_mem_multilineBody {cs : List Char} (hcs : '\n' ∉ cs) (run : Nat) :
    '\n' ∉ multilineBody run cs := by
  induction cs generalizing run with
  | nil => exact List.not_mem_nil
  | cons c rest ih =>
    rw [List.mem_cons, not_or] at hcs
    obtain ⟨hc, hrest⟩ := hcs
    rw [multilineBody, if_neg (Ne.symm hc)]
    split_ifs
    · rw [List.mem_cons, not_or]
      exact ⟨hc, ih hrest _⟩
    · rw [List.mem_append]
      rintro (h | h)
      · exact absurd h (by decide)
      · exact ih hrest 0 h
    · rw [List.mem_append]
      rintro (h | h)
      · exact newline_not_mem_escape c h
      · exact ih hrest 0 h

theorem isEnclosed_basic (cs : List Char) : IsEnclosed (basic cs) := by
  refine ⟨'"', cs.flatMap escape, rfl, .inl rfl, ?_⟩
  rw [List.mem_flatMap]
  rintro ⟨c, -, hc⟩
  exact newline_not_mem_escape c hc

theorem isEnclosed_multilineBasic {cs : List Char} (hcs : '\n' ∉ cs) :
    IsEnclosed (multilineBasic cs) := by
  have hstart : lineStart cs = [] := by simp [lineStart, hcs]
  refine ⟨'"', ['"', '"'] ++ multilineBody 0 cs ++ ['"', '"'], ?_, .inl rfl, ?_⟩
  · simp [multilineBasic, hstart]
  · simp [newline_not_mem_multilineBody hcs 0]

theorem isEnclosed_multilineLiteral {cs : List Char} (hcs : '\n' ∉ cs) :
    IsEnclosed (multilineLiteral cs) := by
  have hstart : lineStart cs = [] := by simp [lineStart, hcs]
  refine ⟨'\'', ['\'', '\''] ++ cs ++ ['\'', '\''], ?_, .inr rfl, ?_⟩
  · simp [multilineLiteral, hstart]
  · simp [hcs]

theorem encloses_quoted : Encloses quoted := by
  intro s hs
  rw [quoted, String.toList_ofList]
  split_ifs
  · exact isEnclosed_basic _
  · exact ⟨'\'', s.toList, rfl, .inr rfl, hs⟩
  · exact isEnclosed_multilineBasic hs
  · exact isEnclosed_multilineLiteral hs
  · exact isEnclosed_multilineBasic hs
  · exact isEnclosed_basic _

end Toml

end BuildAhead
