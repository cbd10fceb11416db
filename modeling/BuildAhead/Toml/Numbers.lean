import BuildAhead.Json.Basic
import BuildAhead.Number.Notation
import BuildAhead.Text.Step

set_option autoImplicit false

/-!
# Toml: reading numbers

Integers in base ten, sixteen, eight and two, and floating point numbers. A digit may be followed by
an underscore if another digit follows. Integers have 64 bits; a number in base ten has no leading
zeros.
-/

namespace BuildAhead.Toml

open Text (Step isDigit natOf hexValue? natOfBase?)

/-- The digits behind a first one, without their underscores, each of which stands before a digit. -/
def moreDigits (isDigit : Char → Bool) : List Char → List Char × List Char
  | [] => ([], [])
  | '_' :: c :: cs =>
    if isDigit c then
      let (ds, rest) := moreDigits isDigit cs
      (c :: ds, rest)
    else ([], '_' :: c :: cs)
  | c :: cs =>
    if isDigit c then
      let (ds, rest) := moreDigits isDigit cs
      (c :: ds, rest)
    else ([], c :: cs)

/-- Reads digits with underscores between them. -/
def readDigits (isDigit : Char → Bool) : Step (List Char)
  | [] => none
  | c :: cs =>
    if isDigit c then
      let (ds, rest) := moreDigits isDigit cs
      some (c :: ds, rest)
    else none

/-- Reads the digits of a number in base ten, which do not begin with a zero unless it is alone. -/
def readWhole : Step (List Char)
  | '0' :: rest => some (['0'], rest)
  | cs => readDigits isDigit cs

/-- Reads a sign, which may be missing, and answers whether it is a minus. -/
def readSign : List Char → Bool × List Char
  | '-' :: rest => (true, rest)
  | '+' :: rest => (false, rest)
  | cs => (false, cs)

/-- Whether the character is a digit in a base. -/
def isDigitOf (base : Nat) (c : Char) : Bool :=
  match hexValue? c with
  | some d => d < base
  | none => false

/-- The base that a number is written in, with the digits behind its mark. -/
def baseOf : List Char → Option (Nat × List Char)
  | '0' :: 'x' :: rest => some (16, rest)
  | '0' :: 'o' :: rest => some (8, rest)
  | '0' :: 'b' :: rest => some (2, rest)
  | _ => none

/-- Reads an integer. -/
def readInt : Step Int := fun cs => do
  let (n, rest) ←
    match baseOf cs with
    | some (base, rest) => do
      let (ds, rest) ← readDigits (isDigitOf base) rest
      some (Int.ofNat (← natOfBase? base ds), rest)
    | none => do
      let (negative, rest) := readSign cs
      let (ds, rest) ← readWhole rest
      some (if negative then -(natOf ds : Int) else natOf ds, rest)
  if Json.inInt64 n then some (n, rest) else none

/-- A double with a sign. -/
def withSign (negative : Bool) (x : Binary64) : Binary64 := if negative then x.neg else x

/-- Reads the exponent of a number. -/
def readExponent : Step Int
  | e :: cs =>
    if e = 'e' ∨ e = 'E' then do
      let (negative, cs) := readSign cs
      let (ds, rest) ← readDigits isDigit cs
      some (if negative then -(natOf ds : Int) else natOf ds, rest)
    else none
  | [] => none

/-- The double of a number from its parts. What is too large is infinite, and only with a minus sign
a number that can be written. -/
def doubleOf (negative : Bool) (whole fraction : List Char) (power : Int) : Option Binary64 :=
  let x := Binary64.ofDecimal (natOf (whole ++ fraction)) (power - fraction.length)
  if x.isFinite || negative then some (withSign negative x) else none

/-- Reads a number with a fraction or an exponent or both. -/
def readFractional : Step Binary64 := fun cs => do
  let (negative, cs) := readSign cs
  let (whole, cs) ← readWhole cs
  match cs with
  | '.' :: cs =>
    let (fraction, cs) ← readDigits isDigit cs
    match cs with
    | 'e' :: _ | 'E' :: _ =>
      let (power, cs) ← readExponent cs
      some (← doubleOf negative whole fraction power, cs)
    | _ => some (← doubleOf negative whole fraction 0, cs)
  | cs =>
    let (power, cs) ← readExponent cs
    some (← doubleOf negative whole [] power, cs)

/-- Reads the name of a number that has no digits. -/
def readNamed : Step Binary64 := fun cs =>
  let (negative, cs) := readSign cs
  match cs with
  | 'i' :: 'n' :: 'f' :: rest => some (withSign negative .infinity, rest)
  | 'n' :: 'a' :: 'n' :: rest => some (withSign negative .nan, rest)
  | _ => none

example : readInt "0x1_F ".toList = some (31, [' ']) := by decide +kernel
example : readInt "-1_000".toList = some (-1000, []) := by decide +kernel
example : (readFractional "6.5e-1".toList).map (·.1.positional) = some "0.65" := by decide +kernel

end BuildAhead.Toml
