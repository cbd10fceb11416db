import BuildAhead.Proofs.Text.Pieces
import BuildAhead.Proofs.Text.Trimming

set_option autoImplicit false

/-!
# Text: lower-casing keeps the words

Lower-casing puts one or more characters in the place of each, and none of them is a mark, such as an
underscore or a slash, unless it was there before. So a text in lower case has as many words between
underscores as the text itself.
-/

namespace BuildAhead.Text

/-! ## Characters -/

/-- A character that stands in front of every small letter. -/
def IsMark (m : Char) : Prop := 0 < m.toNat ∧ m.toNat ≤ 95

instance (m : Char) : Decidable (IsMark m) := inferInstanceAs (Decidable (_ ∧ _))

section Marks

variable {table : CaseTable} {mark : Char} (hmark : IsMark mark)

include hmark

theorem IsMark.ofNat_ne {n : Nat} (hn : n ≠ mark.toNat) : Char.ofNat n ≠ mark := by
  intro heq
  by_cases hvalid : n.isValidChar
  · rw [Char.ofNat, dif_pos hvalid] at heq
    have htoNat : (Char.ofNatAux n hvalid).toNat = n := rfl
    rw [heq] at htoNat
    exact hn htoNat.symm
  · rw [Char.ofNat, dif_neg hvalid] at heq
    exact absurd hmark.1 (heq ▸ by decide)

/-- A small sigma, at the end of a word or inside it. -/
theorem IsMark.sigma_ne (final : Bool) :
    (if final = true then Char.ofNat 0x3C2 else Char.ofNat 0x3C3) ≠ mark := by
  have hbound := hmark.2
  cases final with
  | true => exact hmark.ofNat_ne (by omega)
  | false => exact hmark.ofNat_ne (by omega)

theorem IsMark.asciiLowerChar_ne {c : Char} (hc : c ≠ mark) : asciiLowerChar c ≠ mark := by
  by_cases hcapital : 'A' ≤ c ∧ c ≤ 'Z'
  · obtain ⟨hlow, -, hsmall⟩ := asciiLowerChar_of_capital hcapital
    intro heq
    rw [heq] at hsmall
    have hbound := hmark.2
    omega
  · rw [asciiLowerChar, if_neg hcapital]
    exact hc

omit hmark in
/-- A character becomes one or more others. -/
theorem lowerChar_ne_nil (c : Char) : table.lowerChar c ≠ [] := by
  unfold CaseTable.lowerChar
  split
  · exact List.cons_ne_nil _ _
  · split
    · exact List.cons_ne_nil _ _
    · split
      · exact List.cons_ne_nil _ _
      · exact List.cons_ne_nil _ _

theorem IsMark.ne_of_mem_lowerChar {c d : Char} (hc : c ≠ mark) (hd : d ∈ table.lowerChar c) :
    d ≠ mark := by
  have hbound := hmark.2
  unfold CaseTable.lowerChar at hd
  split at hd
  · rw [List.mem_singleton.1 hd]
    exact hmark.asciiLowerChar_ne hc
  · split at hd
    · rcases List.mem_cons.1 hd with rfl | hd
      · exact fun heq => absurd hbound (heq ▸ by decide)
      · rw [List.mem_singleton.1 hd]
        exact hmark.ofNat_ne (by omega)
    · split at hd
      · next run hrun =>
        have hholds : run.holds c.toNat = true := by simpa using List.find?_some hrun
        have hbehind := table.behind run (List.mem_of_find?_eq_some hrun)
        have hfirst : run.first ≤ c.toNat := by
          simp only [CaseRun.holds, Bool.and_eq_true, decide_eq_true_eq] at hholds
          exact hholds.1.1
        rw [List.mem_singleton.1 hd]
        exact hmark.ofNat_ne (by omega)
      · rw [List.mem_singleton.1 hd]
        exact hc

/-- What stands in the place of a character of a text in lower case. -/
theorem IsMark.lowerFrom_cons (before : List Char) (c : Char) (cs : List Char) :
    ∃ block, table.lowerFrom before (c :: cs) = block ++ table.lowerFrom (c :: before) cs ∧
      (c = '_' → block = ['_']) ∧ (c ≠ mark → block ≠ [] ∧ ∀ d ∈ block, d ≠ mark) := by
  refine ⟨_, rfl, ?_, ?_⟩
  · rintro rfl
    rfl
  · intro hc
    split
    · refine ⟨List.cons_ne_nil _ _, fun d hd => ?_⟩
      rw [List.mem_singleton.1 hd]
      exact hmark.sigma_ne _
    · exact ⟨lowerChar_ne_nil c, fun d hd => hmark.ne_of_mem_lowerChar hc hd⟩

/-- A mark is in a text in lower case only where it was before. -/
theorem IsMark.not_mem_lower {s : String} (hs : mark ∉ s.toList) :
    mark ∉ (table.lower s).toList := by
  have hfrom : ∀ before cs : List Char, mark ∉ cs → mark ∉ table.lowerFrom before cs := by
    intro before cs hcs
    induction cs generalizing before with
    | nil => exact List.not_mem_nil
    | cons c cs ih =>
      obtain ⟨block, hblock, -, hother⟩ := hmark.lowerFrom_cons before c cs
      have hc : c ≠ mark := fun heq => hcs (heq ▸ List.mem_cons_self)
      rw [hblock, List.mem_append, not_or]
      exact ⟨fun hmem => (hother hc).2 mark hmem rfl,
        ih _ fun hmem => hcs (List.mem_cons_of_mem c hmem)⟩
  rw [CaseTable.lower, String.toList_ofList]
  exact hfrom [] s.toList hs

end Marks

/-! ## Words -/

variable {table : CaseTable}

/-- The same pieces of a text are empty before and after lower-casing. -/
theorem map_isEmpty_piecesOf_lowerFrom {isSeparator : Char → Bool}
    (hseparator : ∀ c, isSeparator c = true ↔ c = '_') (before cs : List Char) :
    (piecesOf isSeparator (table.lowerFrom before cs)).map List.isEmpty =
      (piecesOf isSeparator cs).map List.isEmpty := by
  have hmark : IsMark '_' := by decide
  have hnot : ∀ c, c ≠ '_' → isSeparator c = false := fun c hc =>
    Bool.eq_false_iff.2 fun h => hc ((hseparator c).1 h)
  induction cs generalizing before with
  | nil => rfl
  | cons c cs ih =>
    obtain ⟨block, hblock, hunderscore, hother⟩ := hmark.lowerFrom_cons before c cs
    rw [hblock]
    by_cases hc : c = '_'
    · have hseparates := (hseparator c).2 hc
      rw [hunderscore hc, ← hc, List.singleton_append, piecesOf_cons_of_separator hseparates,
        piecesOf_cons_of_separator hseparates, List.map_cons, List.map_cons, ih]
    · obtain ⟨hne, hfree⟩ := hother hc
      have hrest := ih (c :: before)
      cases hlower : piecesOf isSeparator (table.lowerFrom (c :: before) cs) with
      | nil => exact absurd hlower (piecesOf_ne_nil _ _)
      | cons p ps =>
        cases hpieces : piecesOf isSeparator cs with
        | nil => exact absurd hpieces (piecesOf_ne_nil _ _)
        | cons q qs =>
          rw [hlower, hpieces, List.map_cons, List.map_cons] at hrest
          rw [piecesOf_append_of_forall_not (fun d hd => hnot d (hfree d hd)) hlower,
            piecesOf_cons_of_not_separator (hnot c hc) hpieces, List.map_cons, List.map_cons,
            (List.cons.inj hrest).2]
          simp [hne]

/-- A text has as many words in lower case as before. -/
theorem length_words_lower (table : CaseTable) (s : String) :
    (words (· == '_') (table.lower s)).length = (words (· == '_') s).length := by
  have hcount : ∀ s : String, (words (· == '_') s).length =
      ((piecesOf (· == '_') s.toList).map List.isEmpty).countP (! ·) := by
    intro s
    unfold words pieces
    rw [← List.countP_eq_length_filter, List.countP_map, List.countP_map]
    refine List.countP_congr fun p _ => ?_
    simp
  have hseparator : ∀ c : Char, (c == '_') = true ↔ c = '_' := fun c => beq_iff_eq
  rw [hcount, hcount, CaseTable.lower, String.toList_ofList,
    map_isEmpty_piecesOf_lowerFrom hseparator]

end BuildAhead.Text
