import BuildAhead.Text.Pieces
import Mathlib.Data.List.TakeDrop
import Mathlib.Data.List.TakeWhile

set_option autoImplicit false

/-!
# Text: cutting and joining

Cutting at a separator and joining with it undo each other. Everything here follows from how a text
is cut that has a separator in it: the pieces in front of the separator, then those behind it.
-/

namespace BuildAhead.Text

section Pieces

variable {isSeparator : Char → Bool}

theorem piecesOf_cons_of_separator {c : Char} (hc : isSeparator c = true) (cs : List Char) :
    piecesOf isSeparator (c :: cs) = [] :: piecesOf isSeparator cs := by
  rw [piecesOf]
  cases hpieces : piecesOf isSeparator cs with
  | nil => exact absurd hpieces (piecesOf_ne_nil _ _)
  | cons p ps => simp [hc]

/-- A character that does not separate stands at the beginning of the first piece. -/
theorem piecesOf_cons_of_not_separator {c : Char} (hc : isSeparator c = false) {cs p : List Char}
    {ps : List (List Char)} (hcs : piecesOf isSeparator cs = p :: ps) :
    piecesOf isSeparator (c :: cs) = (c :: p) :: ps := by
  rw [piecesOf, hcs]
  simp [hc]

/-- Characters that do not separate stand at the beginning of the first piece. -/
theorem piecesOf_append_of_forall_not {block cs p : List Char}
    {ps : List (List Char)} (hblock : ∀ c ∈ block, isSeparator c = false)
    (hcs : piecesOf isSeparator cs = p :: ps) :
    piecesOf isSeparator (block ++ cs) = (block ++ p) :: ps := by
  induction block with
  | nil => exact hcs
  | cons c block ih =>
    have hrest := ih fun d hd => hblock d (List.mem_cons_of_mem c hd)
    exact piecesOf_cons_of_not_separator (hblock c List.mem_cons_self) hrest

/-- The pieces of a text with a separator in it. -/
theorem piecesOf_append_cons {c : Char} (hc : isSeparator c = true) (before behind : List Char) :
    piecesOf isSeparator (before ++ c :: behind) =
      piecesOf isSeparator before ++ piecesOf isSeparator behind := by
  induction before with
  | nil =>
    rw [List.nil_append, piecesOf_cons_of_separator hc]
    rfl
  | cons b before ih =>
    rw [List.cons_append]
    cases hb : isSeparator b with
    | true => rw [piecesOf_cons_of_separator hb, piecesOf_cons_of_separator hb, ih, List.cons_append]
    | false =>
      cases hpieces : piecesOf isSeparator before with
      | nil => exact absurd hpieces (piecesOf_ne_nil _ _)
      | cons p ps =>
        rw [hpieces, List.cons_append] at ih
        rw [piecesOf_cons_of_not_separator hb ih, piecesOf_cons_of_not_separator hb hpieces,
          List.cons_append]

/-- A text without a separator is one piece. -/
theorem piecesOf_of_forall_not {cs : List Char} (hcs : ∀ c ∈ cs, isSeparator c = false) :
    piecesOf isSeparator cs = [cs] := by
  induction cs with
  | nil => rfl
  | cons c cs ih =>
    have hrest := ih fun x hx => hcs x (List.mem_cons_of_mem c hx)
    exact piecesOf_cons_of_not_separator (hcs c List.mem_cons_self) hrest

/-- Behind its pieces up to a separator a text has one more piece. -/
theorem pieces_append_last {s separator last : String} {c : Char}
    (hseparator : separator.toList = [c]) (hc : isSeparator c = true)
    (hlast : ∀ x ∈ last.toList, isSeparator x = false) :
    pieces isSeparator (s ++ separator ++ last) = pieces isSeparator s ++ [last] := by
  unfold pieces
  rw [String.toList_append, String.toList_append, hseparator, List.append_assoc,
    List.singleton_append, piecesOf_append_cons hc, piecesOf_of_forall_not hlast, List.map_append]
  simp

/-- Texts that each end with a separator are the pieces of the whole; behind them there is an empty
one. -/
theorem pieces_join_ended {ending : String} {c : Char} (hending : ending.toList = [c])
    (hc : isSeparator c = true) {ls : List String}
    (hls : ∀ l ∈ ls, ∀ x ∈ l.toList, isSeparator x = false) :
    pieces isSeparator (String.join (ls.map (· ++ ending))) = ls ++ [""] := by
  unfold pieces
  induction ls with
  | nil => rfl
  | cons l rest ih =>
    rw [List.map_cons, String.join_cons, String.toList_append, String.toList_append, hending,
      List.append_assoc, List.singleton_append, piecesOf_append_cons hc,
      piecesOf_of_forall_not (hls l List.mem_cons_self), List.map_append,
      ih fun x hx => hls x (List.mem_cons_of_mem l hx), List.map_singleton, String.ofList_toList,
      List.singleton_append, List.cons_append]

theorem pieces_ne_nil (s : String) : pieces isSeparator s ≠ [] := by
  simpa [pieces] using piecesOf_ne_nil isSeparator s.toList

end Pieces

/-! ## Joining -/

theorem joined_cons_of_ne_nil (separator s : String) {rest : List String} (hrest : rest ≠ []) :
    joined separator (s :: rest) = s ++ separator ++ joined separator rest := by
  cases rest with
  | nil => exact absurd rfl hrest
  | cons t rest => rfl

/-- The pieces of a text between two separators of one kind make up the text. -/
theorem joined_map_piecesOf {separator : String} {c : Char} (hseparator : separator.toList = [c])
    (cs : List Char) :
    joined separator ((piecesOf (· == c) cs).map String.ofList) = String.ofList cs := by
  induction cs with
  | nil => rfl
  | cons b cs ih =>
    have hmap : ∀ {pieces : List (List Char)}, pieces ≠ [] → pieces.map String.ofList ≠ [] := by
      intro pieces hpieces
      simpa using hpieces
    generalize hseparates : (fun x => x == c) = isSeparator at ih ⊢
    cases hb : isSeparator b with
    | true =>
      have heq : b = c := by simpa [← hseparates] using hb
      rw [piecesOf_cons_of_separator hb, List.map_cons,
        joined_cons_of_ne_nil _ _ (hmap (piecesOf_ne_nil _ _)), ih, heq]
      apply String.toList_injective
      simp [String.toList_append, hseparator]
    | false =>
      cases hpieces : piecesOf isSeparator cs with
      | nil => exact absurd hpieces (piecesOf_ne_nil _ _)
      | cons p ps =>
        rw [hpieces, List.map_cons] at ih
        rw [piecesOf_cons_of_not_separator hb hpieces, List.map_cons]
        cases ps with
        | nil =>
          have hp : p = cs := by simpa [joined] using congrArg String.toList ih
          rw [hp]
          rfl
        | cons q ps =>
          rw [joined_cons_of_ne_nil _ _ (hmap (List.cons_ne_nil q ps))] at ih ⊢
          have hchars := congrArg String.toList ih
          apply String.toList_injective
          simp only [String.toList_append, String.toList_ofList] at hchars ⊢
          rw [List.cons_append, List.cons_append, hchars]

/-- Joining undoes cutting. -/
theorem joined_pieces {separator : String} {c : Char} (hseparator : separator.toList = [c])
    (s : String) : joined separator (pieces (· == c) s) = s := by
  unfold pieces
  rw [joined_map_piecesOf hseparator, String.ofList_toList]

/-- No piece has a separator in it. -/
theorem not_separator_of_mem_piecesOf {isSeparator : Char → Bool} {cs piece : List Char}
    (hpiece : piece ∈ piecesOf isSeparator cs) : ∀ c ∈ piece, isSeparator c = false := by
  induction cs generalizing piece with
  | nil =>
    rw [List.mem_singleton.1 hpiece]
    exact fun c hc => absurd hc List.not_mem_nil
  | cons b cs ih =>
    cases hb : isSeparator b with
    | true =>
      rw [piecesOf_cons_of_separator hb] at hpiece
      rcases List.mem_cons.1 hpiece with rfl | hpiece
      · exact fun c hc => absurd hc List.not_mem_nil
      · exact ih hpiece
    | false =>
      cases hpieces : piecesOf isSeparator cs with
      | nil => exact absurd hpieces (piecesOf_ne_nil _ _)
      | cons p ps =>
        rw [piecesOf_cons_of_not_separator hb hpieces] at hpiece
        rw [hpieces] at ih
        rcases List.mem_cons.1 hpiece with rfl | hpiece
        · intro c hc
          rcases List.mem_cons.1 hc with rfl | hc
          · exact hb
          · exact ih List.mem_cons_self c hc
        · exact ih (List.mem_cons_of_mem p hpiece)

/-- Cutting undoes joining, when no piece has a separator in it. -/
theorem pieces_joined {isSeparator : Char → Bool} {separator : String} {c : Char}
    (hseparator : separator.toList = [c]) (hc : isSeparator c = true) {ps : List String}
    (hne : ps ≠ []) (hps : ∀ p ∈ ps, ∀ x ∈ p.toList, isSeparator x = false) :
    pieces isSeparator (joined separator ps) = ps := by
  unfold pieces
  induction ps with
  | nil => exact absurd rfl hne
  | cons p ps ih =>
    have hp := hps p List.mem_cons_self
    cases ps with
    | nil => simp [joined, piecesOf_of_forall_not hp]
    | cons q ps =>
      have hrest := ih (List.cons_ne_nil q ps) fun x hx => hps x (List.mem_cons_of_mem p hx)
      rw [joined_cons_of_ne_nil _ _ (List.cons_ne_nil q ps), String.toList_append,
        String.toList_append, hseparator, List.append_assoc, List.singleton_append,
        piecesOf_append_cons hc, piecesOf_of_forall_not hp, List.map_append, hrest,
        List.map_singleton, String.ofList_toList, List.singleton_append]

/-- A text is cut at its first separator. -/
theorem splitFirst?_append {separator : Char} {s : String} {before behind : List Char}
    (hs : s.toList = before ++ separator :: behind) (hbefore : separator ∉ before) :
    splitFirst? separator s = some (String.ofList before, String.ofList behind) := by
  have hspan : s.toList.span (· != separator) = (before, separator :: behind) := by
    have hall : ∀ c ∈ before, (c != separator) = true := by
      intro c hc
      exact bne_iff_ne.2 fun heq => hbefore (heq ▸ hc)
    rw [hs, List.span_eq_takeWhile_dropWhile, List.takeWhile_append_of_pos hall,
      List.dropWhile_append_of_pos hall]
    simp
  rw [splitFirst?, hspan]

/-- The two parts of a text that is cut make it up again, and the first has no separator in it. -/
theorem splitFirst?_eq_some_iff {separator : Char} {s before behind : String} :
    splitFirst? separator s = some (before, behind) ↔
      s = before ++ String.singleton separator ++ behind ∧ separator ∉ before.toList := by
  constructor
  · intro hsplit
    have hparts := List.takeWhile_append_dropWhile (p := (· != separator)) (l := s.toList)
    rw [splitFirst?, List.span_eq_takeWhile_dropWhile] at hsplit
    split at hsplit
    · cases hsplit
    · next first c rest hspan =>
      obtain ⟨hfirst, hrest⟩ := Prod.mk.inj hspan
      cases hsplit
      have hc : c = separator := by
        have hhead := List.head_dropWhile_not (· != separator) (hrest ▸ List.cons_ne_nil c rest)
        simpa [hrest] using hhead
      rw [hfirst, hrest, hc] at hparts
      refine ⟨?_, ?_⟩
      · apply String.toList_injective
        simp [String.toList_append, ← hparts]
      · rw [String.toList_ofList, ← hfirst]
        intro hmem
        simpa using List.mem_takeWhile_imp hmem
  · rintro ⟨rfl, hbefore⟩
    have hchars : (before ++ String.singleton separator ++ behind).toList =
        before.toList ++ separator :: behind.toList := by
      simp [String.toList_append]
    rw [splitFirst?_append hchars hbefore, String.ofList_toList, String.ofList_toList]

/-! ## Lines -/

theorem withoutReturn_subset (line : List Char) : withoutReturn line ⊆ line := by
  intro c hc
  unfold withoutReturn at hc
  split at hc
  · next rest hreverse =>
    rw [List.mem_reverse] at hc
    have hmem : c ∈ line.reverse := hreverse ▸ List.mem_cons_of_mem _ hc
    exact List.mem_reverse.1 hmem
  · exact hc

/-- No line of a text has a line feed in it. -/
theorem newline_not_mem_of_mem_lines {s l : String} (hl : l ∈ lines s) :
    '\n' ∉ l.toList := by
  have hpiece : ∀ p ∈ piecesOf (· == '\n') s.toList, '\n' ∉ p := by
    intro p hp hmem
    have hfree := not_separator_of_mem_piecesOf hp _ hmem
    simp at hfree
  rw [lines, List.mem_append, List.mem_map] at hl
  rcases hl with ⟨p, hp, rfl⟩ | hl
  · rw [String.toList_ofList]
    exact fun hmem => hpiece p (List.dropLast_subset _ hp) (withoutReturn_subset p hmem)
  · split at hl
    · cases hl
    · next hlast =>
      rw [List.mem_singleton.1 hl, String.toList_ofList]
      cases hpieces : (piecesOf (· == '\n') s.toList).getLast? with
      | none => simp
      | some p => exact hpiece p (List.mem_of_getLast? hpieces)

/-! ## Words -/

/-- These are the words of a text: what is left of the pieces between its separators without the
empty ones. -/
def AreWords (separator : Char) (s : String) (ws : List String) : Prop :=
  ∃ ps : List String, joined (String.singleton separator) ps = s ∧
    (∀ p ∈ ps, separator ∉ p.toList) ∧ ws = ps.filter fun p => !p.isEmpty

/-- A text has one list of words. -/
theorem areWords_iff {separator : Char} {s : String} {ws : List String} :
    AreWords separator s ws ↔ ws = words (· == separator) s := by
  have hseparator : (String.singleton separator).toList = [separator] :=
    String.toList_singleton separator
  constructor
  · rintro ⟨ps, rfl, hps, rfl⟩
    have hfree : ∀ p ∈ ps, ∀ x ∈ p.toList, (x == separator) = false := by
      intro p hp x hx
      exact beq_eq_false_iff_ne.2 fun heq => hps p hp (heq ▸ hx)
    unfold words
    by_cases hne : ps = []
    · rw [hne]
      rfl
    · have hpieces : pieces (· == separator) (joined (String.singleton separator) ps) = ps :=
        pieces_joined hseparator (by simp) hne hfree
      rw [hpieces]
  · rintro rfl
    refine ⟨pieces (· == separator) s, joined_pieces hseparator s, ?_, rfl⟩
    intro p hp hmem
    obtain ⟨cs, hcs, rfl⟩ := List.mem_map.1 hp
    rw [String.toList_ofList] at hmem
    exact beq_eq_false_iff_ne.1 (not_separator_of_mem_piecesOf hcs separator hmem) rfl

/-! ## Separators of several characters -/

/-- The stretches of `cs` between separators, which are looked for from the left. The first `skip`
characters are the rest of a separator. -/
def cutFrom (separator : List Char) : Nat → List Char → List (List Char)
  | _, [] => [[]]
  | skip + 1, _ :: cs => cutFrom separator skip cs
  | 0, c :: cs =>
    if separator.isPrefixOf (c :: cs) then [] :: cutFrom separator (separator.length - 1) cs
    else
      match cutFrom separator 0 cs with
      | [] => [[c]]
      | p :: ps => (c :: p) :: ps

/-- The pieces of a text between separators of one or more characters. -/
def cutAt (separator s : String) : List String :=
  (cutFrom separator.toList 0 s.toList).map String.ofList

section Cutting

variable {b mark : Char} {rest : List Char}

theorem cutFrom_skip (separator skipped cs : List Char) :
    cutFrom separator skipped.length (skipped ++ cs) = cutFrom separator 0 cs := by
  induction skipped with
  | nil => rfl
  | cons c skipped ih => exact ih

/-- A separator with a mark as its second character begins nowhere in front of a text without the
mark, unless the text is at its end. -/
theorem isPrefixOf_separator_eq_false {c : Char} {piece behind : List Char}
    (hmark : mark ∉ c :: piece) (hbehind : behind = [] ∨ ∃ x xs, behind = x :: xs ∧ x ≠ mark) :
    (b :: mark :: rest).isPrefixOf (c :: piece ++ behind) = false := by
  rw [Bool.eq_false_iff]
  intro hprefix
  rw [List.isPrefixOf_iff_prefix, List.cons_append] at hprefix
  obtain ⟨-, hsecond⟩ := List.cons_prefix_cons.1 hprefix
  cases piece with
  | nil =>
    rcases hbehind with rfl | ⟨x, xs, rfl, hx⟩
    · simp at hsecond
    · exact hx (List.cons_prefix_cons.1 hsecond).1.symm
  | cons d piece =>
    have heq := (List.cons_prefix_cons.1 hsecond).1
    exact hmark (by simp [heq])

theorem cutFrom_of_forall_not {piece : List Char} (hmark : mark ∉ piece) :
    cutFrom (b :: mark :: rest) 0 piece = [piece] := by
  induction piece with
  | nil => rfl
  | cons c piece ih =>
    have hprefix : (b :: mark :: rest).isPrefixOf (c :: piece ++ []) = false :=
      isPrefixOf_separator_eq_false hmark (.inl rfl)
    rw [List.append_nil] at hprefix
    rw [cutFrom, hprefix, ih fun h => hmark (List.mem_cons_of_mem c h)]
    rfl

/-- In front of the first separator stands the first piece. -/
theorem cutFrom_append {piece : List Char} (hmark : mark ∉ piece) (hb : b ≠ mark)
    (behind : List Char) :
    cutFrom (b :: mark :: rest) 0 (piece ++ (b :: mark :: rest ++ behind)) =
      piece :: cutFrom (b :: mark :: rest) 0 behind := by
  induction piece with
  | nil =>
    have hprefix : (b :: mark :: rest).isPrefixOf (b :: (mark :: rest ++ behind)) = true := by
      rw [List.isPrefixOf_iff_prefix]
      exact List.prefix_append _ _
    have hskip := cutFrom_skip (b :: mark :: rest) (mark :: rest) behind
    rw [List.nil_append, List.cons_append, cutFrom, hprefix, if_pos rfl]
    exact congrArg ([] :: ·) hskip
  | cons c piece ih =>
    have hprefix : (b :: mark :: rest).isPrefixOf
        (c :: (piece ++ (b :: mark :: rest ++ behind))) = false :=
      isPrefixOf_separator_eq_false hmark (.inr ⟨b, mark :: rest ++ behind, rfl, hb⟩)
    rw [List.cons_append, cutFrom, hprefix, ih fun h => hmark (List.mem_cons_of_mem c h)]
    rfl

/-- Cutting undoes joining, when the second character of the separator is in none of the pieces. -/
theorem cutAt_joined {separator : String} (hseparator : separator.toList = b :: mark :: rest)
    (hb : b ≠ mark) {ps : List String} (hne : ps ≠ []) (hps : ∀ p ∈ ps, mark ∉ p.toList) :
    cutAt separator (joined separator ps) = ps := by
  unfold cutAt
  rw [hseparator]
  induction ps with
  | nil => exact absurd rfl hne
  | cons p ps ih =>
    have hp := hps p List.mem_cons_self
    cases ps with
    | nil => simp [joined, cutFrom_of_forall_not hp]
    | cons q ps =>
      have hrest := ih (List.cons_ne_nil q ps) fun x hx => hps x (List.mem_cons_of_mem p hx)
      rw [joined_cons_of_ne_nil _ _ (List.cons_ne_nil q ps), String.toList_append,
        String.toList_append, hseparator, List.append_assoc, cutFrom_append hp hb, List.map_cons,
        hrest, String.ofList_toList]

end Cutting

end BuildAhead.Text
