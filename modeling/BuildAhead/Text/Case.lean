import BuildAhead.Text.CaseRanges
import BuildAhead.Text.LowerTable

set_option autoImplicit false

/-!
# Text: letter case

Two ways to lower-case a text: `asciiLower`, which knows only the letters of ASCII and is the one
for keys and keywords, and `lower`, the full mapping of the Unicode standard, where a capital sigma
at the end of a word becomes the final small sigma. The letters of the standard grow in number from
version to version, so the table is a parameter.
-/

namespace BuildAhead.Text

/-- A capital letter of ASCII becomes its small letter; other characters stay. -/
def asciiLowerChar (c : Char) : Char :=
  if 'A' ≤ c ∧ c ≤ 'Z' then Char.ofNat (c.toNat + 32) else c

/-- A small letter of ASCII becomes its capital letter; other characters stay. -/
def asciiUpperChar (c : Char) : Char :=
  if 'a' ≤ c ∧ c ≤ 'z' then Char.ofNat (c.toNat - 32) else c

/-- The text with the capital letters of ASCII made small. -/
def asciiLower (s : String) : String :=
  String.ofList (s.toList.map asciiLowerChar)

/-- A letter or a digit of ASCII. -/
def isAsciiAlphanumeric (c : Char) : Bool :=
  ('a' ≤ c && c ≤ 'z') || ('A' ≤ c && c ≤ 'Z') || ('0' ≤ c && c ≤ '9')

/-- What a version of the Unicode standard says about letter case. -/
structure CaseTable where
  /-- the capital letters that have a single small letter -/
  runs : List CaseRun
  /-- the characters that are upper, lower or title case -/
  cased : List (Nat × Nat)
  /-- the characters that are passed over when one looks for the letter next to a sigma: marks,
  format characters, and the punctuation that occurs inside words -/
  caseIgnorable : List (Nat × Nat)
  /-- no small letter stands in front of those of ASCII -/
  behind : ∀ run ∈ runs, (0x61 : Int) ≤ run.first + run.shift

namespace CaseTable

/-- Version 15 of the standard. -/
def standard : CaseTable where
  runs := lowerRuns
  cased := casedRanges
  caseIgnorable := caseIgnorableRanges
  behind := by decide +kernel

variable (table : CaseTable)

/-- The lower-case form of one character, the final sigma apart. -/
def lowerChar (c : Char) : List Char :=
  if c.toNat < 0x80 then [asciiLowerChar c]
  else if c.toNat = 0x130 then ['i', Char.ofNat 0x307]
  else
    match table.runs.find? (·.holds c.toNat) with
    | some run => [Char.ofNat ((c.toNat : Int) + run.shift).toNat]
    | none => [c]

/-- Whether the first character that matters is a letter with a case. -/
def letterNext (cs : List Char) : Bool :=
  match cs.dropWhile fun c => inRanges table.caseIgnorable c.toNat with
  | [] => false
  | c :: _ => inRanges table.cased c.toNat

/-- Lower-cases `cs`, where `before` holds the characters before it, the nearest first. -/
def lowerFrom (before : List Char) : List Char → List Char
  | [] => []
  | c :: cs =>
    (if c.toNat = 0x3A3 then
        [if table.letterNext before && !table.letterNext cs then Char.ofNat 0x3C2
          else Char.ofNat 0x3C3]
      else table.lowerChar c) ++ lowerFrom (c :: before) cs

/-- The text in lower case. -/
def lower (s : String) : String :=
  String.ofList (table.lowerFrom [] s.toList)

end CaseTable

/-- The text in lower case, by the standard table. -/
def lower (s : String) : String := CaseTable.standard.lower s

example : asciiLower " JIT\u00C9" = " jit\u00C9" := by decide +kernel
example : lower "ÉTAT Σ ΟΔΟΣ µΣ" = "état σ οδος µς" := by decide +kernel

end BuildAhead.Text
