import BuildAhead.Text.Blank
import BuildAhead.Text.Case
import Mathlib.Data.List.DropRight

set_option autoImplicit false

/-!
# Text: trimming and lower-casing

A text without blanks at its ends stays as it is when it is trimmed, a text without capital letters
when it is lower-cased, and the one does not undo the other. So a text that was brought into this
form is in it for good.
-/

namespace BuildAhead.Text

theorem trimChars_eq_rdropWhile (cs : List Char) :
    trimChars cs = (cs.dropWhile isBlank).rdropWhile isBlank := rfl

/-- What is left after trimming does not begin with a blank. -/
theorem dropWhile_trimChars (cs : List Char) :
    (trimChars cs).dropWhile isBlank = trimChars cs := by
  rw [trimChars_eq_rdropWhile]
  generalize hfront : cs.dropWhile isBlank = front
  have hclean : front.dropWhile isBlank = front := by rw [← hfront, List.dropWhile_idempotent]
  -- the first character of what is left is the first one of `front`
  rw [List.dropWhile_eq_self_iff] at hclean ⊢
  intro hlength
  have hpre := List.rdropWhile_prefix isBlank front
  rw [hpre.getElem hlength]
  exact hclean (Nat.lt_of_lt_of_le hlength hpre.length_le)

/-- What is left after trimming neither begins nor ends with a blank. -/
theorem trimChars_trimChars (cs : List Char) : trimChars (trimChars cs) = trimChars cs := by
  rw [trimChars_eq_rdropWhile (trimChars cs), dropWhile_trimChars, trimChars_eq_rdropWhile,
    List.rdropWhile_idempotent]

theorem trim_trim (s : String) : trim (trim s) = trim s := by
  rw [trim, trim, String.toList_ofList, trimChars_trimChars]

/-- Trimming takes away the blanks around a text that itself has none at its ends. -/
theorem trimChars_surrounded {front cs back : List Char} (hfront : ∀ c ∈ front, isBlank c = true)
    (hback : ∀ c ∈ back, isBlank c = true) (hfirst : ∀ c ∈ cs.head?, isBlank c = false)
    (hlast : ∀ c ∈ cs.getLast?, isBlank c = false) : trimChars (front ++ cs ++ back) = cs := by
  have hkept : (cs ++ back).dropWhile isBlank = if cs = [] then [] else cs ++ back := by
    cases cs with
    | nil => simpa using hback
    | cons c cs => simp [hfirst c rfl]
  have hreversed : (cs.reverse).dropWhile isBlank = cs.reverse := by
    cases hcs : cs.reverse with
    | nil => rfl
    | cons c rest =>
      have hc : isBlank c = false := hlast c (by simp [List.getLast?_eq_head?_reverse, hcs])
      simp [hc]
  rw [trimChars, List.append_assoc, List.dropWhile_append_of_pos hfront, hkept]
  split
  · next hnone => simp [hnone]
  · rw [List.reverse_append, List.dropWhile_append_of_pos (by simpa using hback), hreversed,
      List.reverse_reverse]

/-- No character is a blank at the two ends of the text. -/
def IsTrimmed (s : String) : Prop :=
  (∀ c ∈ s.toList.head?, isBlank c = false) ∧ ∀ c ∈ s.toList.getLast?, isBlank c = false

theorem isTrimmed_trim (s : String) : IsTrimmed (trim s) := by
  rw [IsTrimmed, trim, String.toList_ofList]
  constructor
  · intro c hc
    have hfirst := dropWhile_trimChars s.toList
    cases htrim : trimChars s.toList with
    | nil =>
      rw [htrim] at hc
      cases hc
    | cons d rest =>
      rw [htrim] at hc hfirst
      cases hc
      rw [List.dropWhile_eq_self_iff] at hfirst
      exact Bool.eq_false_iff.2 (hfirst (by simp))
  · intro c hc
    rw [trimChars_eq_rdropWhile] at hc
    have hne : (s.toList.dropWhile isBlank).rdropWhile isBlank ≠ [] := by
      intro hnil
      rw [hnil] at hc
      cases hc
    rw [List.getLast?_eq_some_getLast hne] at hc
    cases hc
    exact Bool.eq_false_iff.2 (List.rdropWhile_last_not isBlank _ hne)

theorem IsTrimmed.trim_eq {s : String} (h : IsTrimmed s) : trim s = s := by
  have hnone : ∀ c ∈ ([] : List Char), isBlank c = true := fun c hc => absurd hc List.not_mem_nil
  have hchars := trimChars_surrounded hnone hnone h.1 h.2
  rw [List.nil_append, List.append_nil] at hchars
  rw [trim, hchars, String.ofList_toList]

theorem trimChars_subset (cs : List Char) : trimChars cs ⊆ cs := by
  intro c hc
  rw [trimChars_eq_rdropWhile] at hc
  exact (List.dropWhile_suffix _).subset ((List.rdropWhile_prefix _ _).subset hc)

/-- Nothing is left of a text when it is all blank. -/
theorem trim_eq_empty_iff {s : String} : trim s = "" ↔ isAllBlank s = true := by
  have hempty : trim s = "" ↔ trimChars s.toList = [] := by
    rw [trim, ← String.toList_inj, String.toList_ofList]
    rfl
  rw [hempty, trimChars_eq_rdropWhile, isAllBlank, List.all_eq_true]
  constructor
  · intro hnil c hc
    have hback := List.rdropWhile_eq_nil_iff.1 hnil
    have hparts := List.takeWhile_append_dropWhile (p := isBlank) (l := s.toList)
    rw [← hparts, List.mem_append] at hc
    rcases hc with hfront | hrest
    · exact List.mem_takeWhile_imp hfront
    · exact hback c hrest
  · intro hall
    rw [List.dropWhile_eq_nil_iff.2 hall]
    rfl

/-- A text that does not begin with a blank keeps its first character. -/
theorem exists_trimChars_cons {c : Char} (hc : isBlank c = false) (cs : List Char) :
    ∃ rest, trimChars (c :: cs) = c :: rest := by
  have hkept : (c :: cs).dropWhile isBlank = c :: cs := by simp [hc]
  rw [trimChars, hkept, List.reverse_cons, List.dropWhile_append]
  split
  · exact ⟨[], by simp [hc]⟩
  · exact ⟨((cs.reverse).dropWhile isBlank).reverse, by simp⟩

theorem asciiLowerChar_of_capital {c : Char} (hc : 'A' ≤ c ∧ c ≤ 'Z') :
    65 ≤ c.toNat ∧ c.toNat ≤ 90 ∧ (asciiLowerChar c).toNat = c.toNat + 32 := by
  have hlow : 65 ≤ c.toNat := hc.1
  have hhigh : c.toNat ≤ 90 := hc.2
  have hvalid : (c.toNat + 32).isValidChar := .inl (by omega)
  refine ⟨hlow, hhigh, ?_⟩
  rw [asciiLowerChar, if_pos hc, Char.ofNat, dif_pos hvalid]
  rfl

theorem isBlank_asciiLowerChar (c : Char) : isBlank (asciiLowerChar c) = isBlank c := by
  by_cases hc : 'A' ≤ c ∧ c ≤ 'Z'
  · obtain ⟨hlow, hhigh, hsmall⟩ := asciiLowerChar_of_capital hc
    have hplain : ∀ d : Char, 65 ≤ d.toNat → d.toNat ≤ 122 → isBlank d = false := by
      intro d hd hd'
      simp only [isBlank]
      grind
    rw [hplain c (by omega) (by omega), hplain _ (by omega) (by omega)]
  · rw [asciiLowerChar, if_neg hc]

theorem asciiLowerChar_asciiLowerChar (c : Char) :
    asciiLowerChar (asciiLowerChar c) = asciiLowerChar c := by
  by_cases hc : 'A' ≤ c ∧ c ≤ 'Z'
  · obtain ⟨hlow, hhigh, hsmall⟩ := asciiLowerChar_of_capital hc
    have hnot : ¬ ('A' ≤ asciiLowerChar c ∧ asciiLowerChar c ≤ 'Z') := by
      intro hcapital
      have hle : (asciiLowerChar c).toNat ≤ 90 := hcapital.2
      omega
    rw [asciiLowerChar, if_neg hnot]
  · rw [asciiLowerChar, asciiLowerChar, if_neg hc, if_neg hc]

theorem asciiLower_asciiLower (s : String) : asciiLower (asciiLower s) = asciiLower s := by
  rw [asciiLower, asciiLower, String.toList_ofList, List.map_map]
  congr 1
  exact List.map_congr_left fun c _ => asciiLowerChar_asciiLowerChar c

theorem dropWhile_map_asciiLowerChar (cs : List Char) :
    (cs.map asciiLowerChar).dropWhile isBlank = (cs.dropWhile isBlank).map asciiLowerChar := by
  rw [List.dropWhile_map]
  congr 2
  exact funext isBlank_asciiLowerChar

/-- Trimming and lower-casing may change places. -/
theorem trim_asciiLower (s : String) : trim (asciiLower s) = asciiLower (trim s) := by
  simp only [trim, asciiLower, trimChars, String.toList_ofList, dropWhile_map_asciiLowerChar,
    ← List.map_reverse]

end BuildAhead.Text
