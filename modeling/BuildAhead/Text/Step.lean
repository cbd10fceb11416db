set_option autoImplicit false

/-!
# Text: reading steps

What the readers of the text formats have in common. A step reads something at the beginning of a
list of characters and answers it with the characters behind it, or nothing when it is not there.
-/

namespace BuildAhead.Text

/-- What a reading step leaves: the value read and the characters behind it. -/
abbrev Step (α : Type) : Type := List Char → Option (α × List Char)

/-- A decimal digit of ASCII. -/
def isDigit (c : Char) : Bool := '0' ≤ c && c ≤ '9'

/-- The value of a decimal digit. -/
def digitValue (c : Char) : Nat := c.toNat - 48

/-- The natural number of a list of decimal digits. -/
def natOf (digits : List Char) : Nat := digits.foldl (fun n c => n * 10 + digitValue c) 0

/-- The value of a hexadecimal digit. -/
def hexValue? (c : Char) : Option Nat :=
  if '0' ≤ c ∧ c ≤ '9' then some (c.toNat - 48)
  else if 'a' ≤ c ∧ c ≤ 'f' then some (c.toNat - 87)
  else if 'A' ≤ c ∧ c ≤ 'F' then some (c.toNat - 55)
  else none

/-- The natural number of a list of digits in a base of at most sixteen, each below the base. -/
def natOfBase? (base : Nat) : List Char → Option Nat :=
  go 0
where
  /-- Continues with the digits behind those that make `n`. -/
  go (n : Nat) : List Char → Option Nat
    | [] => some n
    | c :: cs => do
      let d ← hexValue? c
      if d < base then go (n * base + d) cs else none

/-- The first `n` characters, if there are so many. -/
def takeExactly (n : Nat) : Step (List Char) := fun cs =>
  if (cs.take n).length = n then some (cs.take n, cs.drop n) else none

/-- The characters behind a keyword. -/
def expect (keyword : String) (cs : List Char) : Option (List Char) :=
  if keyword.toList.isPrefixOf cs then some (cs.drop keyword.length) else none

/-- The character of a code point, which must not be a surrogate. -/
def charOf? (n : Nat) : Option Char :=
  if n.isValidChar then some (Char.ofNat n) else none

example : natOfBase? 8 "17".toList = some 15 ∧ natOfBase? 8 "18".toList = none := by decide +kernel

end BuildAhead.Text
