import BuildAhead.Files.Path
import BuildAhead.Proofs.Text.Pieces

set_option autoImplicit false

/-!
# Files: paths below a folder

A path that is made of the path of a folder, a slash and a name has the segments of the folder and
then the name, and its folder is the one that it was made of.
-/

namespace BuildAhead.Files.Path

/-- A segment that names something inside a folder. -/
structure IsName (n : String) : Prop where
  nonempty : n ≠ ""
  notDot : n ≠ "."
  notUp : n ≠ ".."
  noSlash : '/' ∉ n.toList

/-- The path of a name inside a folder. -/
def child (folder : Path) (n : String) : Path := folder ++ "/" ++ n

variable {p base : Path} {n : String}

theorem toList_slash : ("/" : String).toList = ['/'] := by decide

theorem toList_ne_nil (hp : p ≠ "") : p.toList ≠ [] := by
  simpa using hp

theorem child_ne_empty (p : Path) (n : String) : child p n ≠ "" := by
  intro heq
  have hchars := congrArg String.toList heq
  simp [child, String.toList_append] at hchars

theorem isAbsolute_append (hp : p ≠ "") (s : String) : isAbsolute (p ++ s) = isAbsolute p := by
  unfold isAbsolute
  rw [String.toList_append]
  cases hchars : p.toList with
  | nil => exact absurd hchars (toList_ne_nil hp)
  | cons c cs => rfl

theorem isAbsolute_child (hp : p ≠ "") (n : String) : isAbsolute (child p n) = isAbsolute p := by
  rw [child, String.append_assoc]
  exact isAbsolute_append hp _

theorem pieces_child (hn : '/' ∉ n.toList) :
    Text.pieces (· == '/') (child p n) = Text.pieces (· == '/') p ++ [n] := by
  refine Text.pieces_append_last toList_slash (beq_self_eq_true '/') ?_
  intro x hx
  have hne : x ≠ '/' := fun heq => hn (heq ▸ hx)
  simpa using hne

theorem stretches_child (hp : p ≠ "") (hn : '/' ∉ n.toList) :
    stretches (child p n) = stretches p ++ [n] := by
  unfold stretches
  rw [isAbsolute_child hp, pieces_child hn]
  split
  · have hlength : 1 ≤ (Text.pieces (· == '/') p).length :=
      List.length_pos_iff.2 (Text.pieces_ne_nil p)
    rw [List.drop_append_of_le_length hlength]
  · rfl

theorem segments_child (hp : p ≠ "") (hn : IsName n) :
    segments (child p n) = segments p ++ [n] := by
  unfold segments
  rw [stretches_child hp hn.noSlash, List.filter_append]
  simp [hn.nonempty, hn.notDot]

/-! ## Paths seen from a folder -/

theorem join_ne_empty (hp : p ≠ "") : join base p ≠ "" := by
  have happend : ∀ s : String, s ++ p ≠ "" := by
    intro s heq
    have hchars := congrArg String.toList heq
    rw [String.toList_append] at hchars
    exact toList_ne_nil hp (List.append_eq_nil_iff.1 hchars).2
  unfold join
  split
  · exact hp
  · split
    · exact happend base
    · exact happend (base ++ "/")

theorem join_child (hp : p ≠ "") (base : Path) (n : String) :
    join base (child p n) = child (join base p) n := by
  unfold join
  rw [isAbsolute_child hp]
  unfold child
  split
  · rfl
  · split
    · rw [String.append_assoc, String.append_assoc, String.append_assoc]
    · simp only [String.append_assoc]

theorem IsName.isAbsolute (hn : IsName n) : isAbsolute n = false := by
  unfold Path.isAbsolute
  cases hchars : n.toList with
  | nil => rfl
  | cons c cs =>
    have hc : c ≠ '/' := fun heq => hn.noSlash (hchars ▸ heq ▸ List.mem_cons_self)
    simpa using hc

theorem IsName.segments (hn : IsName n) : segments n = [n] := by
  have hpieces : Text.pieces (· == '/') n = [n] := by
    unfold Text.pieces
    rw [Text.piecesOf_of_forall_not, List.map_singleton, String.ofList_toList]
    exact fun c hc => beq_eq_false_iff_ne.2 fun heq => hn.noSlash (heq ▸ hc)
  unfold Path.segments stretches
  rw [hn.isAbsolute, hpieces]
  simp [hn.nonempty, hn.notDot]

/-- A slash behind a path is followed by nothing, or by a name. -/
theorem stretches_slash (base : Path) (hn : '/' ∉ n.toList) :
    ∃ above, stretches (base ++ "/") = above ++ [""] ∧
      stretches (base ++ "/" ++ n) = above ++ [n] := by
  have hslash : base ++ "/" ≠ "" := by
    intro heq
    have hchars := congrArg String.toList heq
    rw [String.toList_append, toList_slash] at hchars
    exact List.cons_ne_nil _ _ (List.append_eq_nil_iff.1 hchars).2
  have hempty : Text.pieces (· == '/') (base ++ "/") = Text.pieces (· == '/') base ++ [""] := by
    have hchild := pieces_child (p := base) (n := "") (by simp)
    rwa [child, String.append_empty] at hchild
  have hname : Text.pieces (· == '/') (base ++ "/" ++ n) = Text.pieces (· == '/') base ++ [n] :=
    pieces_child hn
  have hlength : 1 ≤ (Text.pieces (· == '/') base).length :=
    List.length_pos_iff.2 (Text.pieces_ne_nil base)
  unfold stretches
  rw [isAbsolute_append hslash, hempty, hname]
  split
  · refine ⟨(Text.pieces (· == '/') base).drop 1, ?_, ?_⟩
    · exact List.drop_append_of_le_length hlength
    · exact List.drop_append_of_le_length hlength
  · exact ⟨Text.pieces (· == '/') base, rfl, rfl⟩

theorem isAbsolute_join (base : Path) (hn : IsName n) : isAbsolute (join base n) = isAbsolute base := by
  unfold join
  rw [hn.isAbsolute, Bool.false_or]
  by_cases hbase : base = ""
  · subst hbase
    exact hn.isAbsolute
  · rw [if_neg (by simpa using hbase)]
    split
    · exact isAbsolute_append hbase n
    · rw [String.append_assoc]
      exact isAbsolute_append hbase _

/-- A name seen from a folder is one segment more. -/
theorem segments_join (base : Path) (hn : IsName n) : segments (join base n) = segments base ++ [n] := by
  unfold join
  rw [hn.isAbsolute, Bool.false_or]
  by_cases hbase : base = ""
  · subst hbase
    exact hn.segments
  · rw [if_neg (by simpa using hbase)]
    split
    · next hends =>
      obtain ⟨front, hfront⟩ := List.isSuffixOf_iff_suffix.1 hends
      have heq : base = String.ofList front ++ "/" := by
        apply String.toList_injective
        rw [String.toList_append, String.toList_ofList, hfront]
      obtain ⟨above, hslash, hname⟩ := stretches_slash (String.ofList front) hn.noSlash
      unfold segments
      rw [heq, hslash, hname]
      simp [hn.nonempty, hn.notDot]
    · exact segments_child hbase hn

/-! ## The folder above a path -/

theorem trimmedBack_cons (hn : IsName n) (rest : List String) :
    trimmedBack (n :: rest) = n :: rest := by
  cases rest with
  | nil => simp [trimmedBack, hn.nonempty]
  | cons m rest => simp [trimmedBack, hn.nonempty, hn.notDot]

/-- An absolute path has an empty piece in front of its first slash. -/
theorem pieces_of_isAbsolute (hp : isAbsolute p = true) :
    ∃ rest, rest ≠ [] ∧ Text.pieces (· == '/') p = "" :: rest := by
  unfold isAbsolute at hp
  cases hchars : p.toList with
  | nil =>
    rw [hchars] at hp
    cases hp
  | cons c cs =>
    rw [hchars] at hp
    have hc : c = '/' := by simpa using hp
    refine ⟨(Text.piecesOf (· == '/') cs).map String.ofList, ?_, ?_⟩
    · simpa using Text.piecesOf_ne_nil _ cs
    · unfold Text.pieces
      rw [hchars, Text.piecesOf_cons_of_separator (by simpa using hc)]
      rfl

/-- The stretches of a path, joined again, are the path. -/
theorem joined_stretches (p : Path) :
    (if isAbsolute p then "/" ++ Text.joined "/" (stretches p)
      else Text.joined "/" (stretches p)) = p := by
  have hjoined := Text.joined_pieces toList_slash p
  unfold stretches
  split
  · next habsolute =>
    obtain ⟨rest, hrest, hpieces⟩ := pieces_of_isAbsolute habsolute
    rw [hpieces, Text.joined_cons_of_ne_nil _ _ hrest, String.empty_append] at hjoined
    rw [hpieces]
    exact hjoined
  · exact hjoined

/-- The folder of a name inside a folder is that folder, when this is written down to a name. -/
theorem parent?_child (hp : p ≠ "") (hn : IsName n) {last : String} (hlast : IsName last) :
    parent? (child (child p last) n) = some (child p last) := by
  have hne := child_ne_empty p last
  unfold parent?
  rw [stretches_child hne hn.noSlash, List.reverse_append, List.reverse_singleton,
    List.singleton_append, trimmedBack_cons hn]
  simp only
  rw [stretches_child hp hlast.noSlash, List.reverse_append, List.reverse_singleton,
    List.singleton_append, trimmedBack_cons hlast, isAbsolute_child hne]
  rw [← List.singleton_append, ← List.reverse_singleton, ← List.reverse_append,
    List.reverse_reverse, ← stretches_child hp hlast.noSlash, joined_stretches]

/-! ## Endings -/

/-- The last piece of a text has the ending of the text. -/
theorem exists_piecesOf_of_ending {ending : List Char} (hending : '/' ∉ ending) (front : List Char) :
    ∃ init last, Text.piecesOf (· == '/') (front ++ ending) = init ++ [last] ∧ ending <:+ last := by
  induction front with
  | nil =>
    refine ⟨[], ending, ?_, List.suffix_rfl⟩
    exact Text.piecesOf_of_forall_not fun c hc =>
      beq_eq_false_iff_ne.2 fun heq => hending (heq ▸ hc)
  | cons c front ih =>
    obtain ⟨init, last, hpieces, hsuffix⟩ := ih
    rw [List.cons_append]
    generalize (fun x => x == '/') = isSeparator at hpieces ⊢
    cases hc : isSeparator c with
    | true =>
      refine ⟨[] :: init, last, ?_, hsuffix⟩
      rw [Text.piecesOf_cons_of_separator hc, hpieces, List.cons_append]
    | false =>
      cases init with
      | nil =>
        refine ⟨[], c :: last, Text.piecesOf_cons_of_not_separator hc hpieces, ?_⟩
        exact hsuffix.trans (List.suffix_cons c last)
      | cons first init =>
        exact ⟨(c :: first) :: init, last, Text.piecesOf_cons_of_not_separator hc hpieces, hsuffix⟩

/-- A path with an ending that is longer than two characters leads to a name with this ending. -/
theorem exists_segments_of_ending {ending : String} (hslash : '/' ∉ ending.toList)
    (hlength : 2 < ending.toList.length) (hp : ending.toList <:+ p.toList) :
    ∃ above name, segments p = above ++ [name] ∧ name ≠ ".." ∧ ending.toList <:+ name.toList := by
  obtain ⟨front, hfront⟩ := hp
  obtain ⟨init, last, hpieces, hsuffix⟩ := exists_piecesOf_of_ending hslash front
  rw [hfront] at hpieces
  have hlong : 2 < last.length := Nat.lt_of_lt_of_le hlength hsuffix.length_le
  have hname : ∀ short : String, short.toList.length ≤ 2 → String.ofList last ≠ short := by
    intro short hshort heq
    rw [← heq, String.toList_ofList] at hshort
    omega
  have hstretches : ∃ above, stretches p = above ++ [String.ofList last] := by
    unfold stretches
    split
    · next habsolute =>
      obtain ⟨rest, hrest, hcut⟩ := pieces_of_isAbsolute habsolute
      rw [Text.pieces, hpieces, List.map_append, List.map_singleton] at hcut
      rw [Text.pieces, hpieces, List.map_append, List.map_singleton]
      cases init with
      | nil => exact absurd (List.cons.inj hcut).2.symm hrest
      | cons first init => exact ⟨init.map String.ofList, rfl⟩
    · exact ⟨init.map String.ofList, by rw [Text.pieces, hpieces, List.map_append, List.map_singleton]⟩
  obtain ⟨above, habove⟩ := hstretches
  refine ⟨above.filter fun s => s != "" && s != ".", String.ofList last, ?_, ?_, ?_⟩
  · unfold segments
    rw [habove, List.filter_append]
    simp [hname "" (by decide), hname "." (by decide)]
  · exact hname ".." (by decide)
  · rwa [String.toList_ofList]

end BuildAhead.Files.Path
