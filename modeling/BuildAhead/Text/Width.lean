import BuildAhead.Text.Ranges

set_option autoImplicit false

/-!
# Text: display width

How many columns a text takes on a terminal. A wide character takes two columns, a mark that
combines with the character before it none, every other character one. A text followed by the
emoji selector is drawn as an emoji, two columns wide.
-/

namespace BuildAhead.Text

/-- Format characters that take no column, and the vowels and finals of Hangul syllables. -/
def isWidthless (n : Nat) : Bool :=
  inRanges combiningRanges n ||
    (0x1160 ≤ n && n ≤ 0x11FF) || (0xD7B0 ≤ n && n ≤ 0xD7FB) ||
    (0x200B ≤ n && n ≤ 0x200F) || (0x202A ≤ n && n ≤ 0x202E) || (0x2060 ≤ n && n ≤ 0x206F) ||
    n == 0xFEFF || n == 0x180E || n == 0x61C || n == 0x3164 || n == 0xFFA0 ||
    (0xE0000 ≤ n && n ≤ 0xE0FFF) || (0xFFF0 ≤ n && n ≤ 0xFFF8)

/-- The columns that one character takes by itself. -/
def charWidth (c : Char) : Nat :=
  let n := c.toNat
  if n < 0x300 then 1
  else if isWidthless n then 0
  else if inRanges wideRanges n then 2
  else 1

/-- The emoji selector, which asks for the coloured picture of the character before it. -/
def emojiSelector : Char := Char.ofNat 0xFE0F

/-- A narrow character that has a coloured picture: a digit, a few signs, and most symbols. -/
def hasPicture (c : Char) : Bool :=
  charWidth c == 1 && (0x203C ≤ c.toNat || "#*0123456789©®".toList.contains c)

/-- The joiner, which makes one picture out of the characters on its two sides. -/
def joiner : Char := Char.ofNat 0x200D

/-- A skin tone, which colours the wide character before it. -/
def isSkinTone (c : Char) : Bool := 0x1F3FB ≤ c.toNat && c.toNat ≤ 0x1F3FF

/-- The columns of a list of characters. -/
def widthOf : List Char → Nat
  | [] => 0
  | [c] => charWidth c
  | c :: d :: rest =>
    if d = emojiSelector ∧ hasPicture c then 2 + widthOf rest
    else if d = joiner ∧ charWidth c = 2 then
      match rest with
      | [] => 2
      | e :: rest' => if charWidth e = 2 then widthOf (e :: rest') else 2 + widthOf (e :: rest')
    else if isSkinTone d ∧ charWidth c = 2 then widthOf (c :: rest)
    else charWidth c + widthOf (d :: rest)
termination_by cs => cs.length

/-- The number of columns that a text takes on a terminal. -/
def width (s : String) : Nat := widthOf s.toList

end BuildAhead.Text
