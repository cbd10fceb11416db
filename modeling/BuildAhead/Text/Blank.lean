set_option autoImplicit false

/-!
# Text: blanks

Which characters count as white space, and what is left of a text once the white space at both of
its ends is gone. White space is the property of that name of the Unicode standard, not only the
ASCII part of it.
-/

namespace BuildAhead.Text

/-- A white space character of the Unicode standard. -/
def isBlank (c : Char) : Bool :=
  let n := c.toNat
  (0x09 ≤ n && n ≤ 0x0D) || n == 0x20 || n == 0x85 || n == 0xA0 || n == 0x1680 ||
    (0x2000 ≤ n && n ≤ 0x200A) || n == 0x2028 || n == 0x2029 || n == 0x202F ||
    n == 0x205F || n == 0x3000

/-- What is left of `cs` after the blanks in front of it and behind it are dropped. -/
def trimChars (cs : List Char) : List Char :=
  ((cs.dropWhile isBlank).reverse.dropWhile isBlank).reverse

/-- The text without the blanks at its two ends. -/
def trim (s : String) : String :=
  String.ofList (trimChars s.toList)

/-- Nothing but blanks. -/
def isAllBlank (s : String) : Bool :=
  s.toList.all isBlank

example : trim " \u3000a b\n" = "a b" := by decide +kernel
example : isAllBlank "\t\u2028 " = true := by decide +kernel

end BuildAhead.Text
