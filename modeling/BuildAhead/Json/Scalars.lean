import BuildAhead.Json.Basic
import BuildAhead.Number.Notation
import BuildAhead.Text.Step

set_option autoImplicit false

/-!
# Json: strings and numbers

Reading the strings and numbers of the JSON text format. A string holds no control characters and no
lone surrogates. A number without fraction and exponent is an integer when it fits 64 bits, signed or
unsigned; every other number, and `-0`, is a double: its first digits, as many as fit 64 bits, are
scaled by a power of ten with one rounding for each step. A number that is too large for a double is
refused.

Where nobody asks for the value, a string or a number is only skipped, and what it stands for does
not matter.
-/

namespace BuildAhead.Json

open Text (Step isDigit digitValue natOf hexValue? expect)

/-- A blank of the JSON format. -/
def isSpace (c : Char) : Bool := c == ' ' || c == '\n' || c == '\t' || c == '\r'

/-- The characters behind the blanks. -/
def skipSpaces (cs : List Char) : List Char := cs.dropWhile isSpace

/-- The value of the four hexadecimal digits of an escape. -/
def readHex4 : Step Nat
  | a :: b :: c :: d :: rest => do
    let a ← hexValue? a
    let b ← hexValue? b
    let c ← hexValue? c
    let d ← hexValue? d
    some (((a * 16 + b) * 16 + c) * 16 + d, rest)
  | _ => none

/-- The character of an escape `\u`, written as one unit or as a pair of surrogates. -/
def readUnicode (cs : List Char) : Option (Char × List Char) := do
  let (unit, rest) ← readHex4 cs
  if 0xD800 ≤ unit ∧ unit < 0xDC00 then
    match rest with
    | '\\' :: 'u' :: rest =>
      let (low, rest) ← readHex4 rest
      if 0xDC00 ≤ low ∧ low < 0xE000 then
        some (Char.ofNat (0x10000 + (unit - 0xD800) * 0x400 + (low - 0xDC00)), rest)
      else none
    | _ => none
  else if 0xDC00 ≤ unit ∧ unit < 0xE000 then none
  else some (Char.ofNat unit, rest)

/-- The character that a one-letter escape stands for. -/
def escaped? : Char → Option Char
  | '"' => some '"'
  | '\\' => some '\\'
  | '/' => some '/'
  | 'b' => some '\x08'
  | 'f' => some '\x0C'
  | 'n' => some '\n'
  | 'r' => some '\r'
  | 't' => some '\t'
  | _ => none

/-- Reads up to the closing quote; `read` holds the characters so far, the last one first. -/
def readString : Nat → List Char → List Char → Option (String × List Char)
  | 0, _, _ => none
  | _ + 1, _, [] => none
  | fuel + 1, read, c :: cs =>
    if c = '"' then some (String.ofList read.reverse, cs)
    else if c = '\\' then
      match cs with
      | [] => none
      | 'u' :: cs => do
        let (c, cs) ← readUnicode cs
        readString fuel (c :: read) cs
      | e :: cs => do readString fuel ((← escaped? e) :: read) cs
    else if c.toNat < 0x20 then none
    else readString fuel (c :: read) cs

/-! ## Numbers -/

/-- The greatest unsigned number of 64 bits. -/
def maxUnsigned : Nat := 18446744073709551615

/-- The longest beginning of the digits whose value is at most `limit`, continuing from `value`;
answers the value and the digits left. -/
def takeDigits (limit : Nat) : Nat → List Char → Nat × List Char
  | value, [] => (value, [])
  | value, c :: cs =>
    let next := value * 10 + digitValue c
    if limit < next then (value, c :: cs) else takeDigits limit next cs

/-- Scales a double by a power of ten in steps of at most `10 ^ 308`; too large a result is none. -/
def scale : Nat → Binary64 → Int → Option Binary64
  | 0, x, _ => some x
  | fuel + 1, x, power =>
    if power.natAbs ≤ 308 then
      if 0 ≤ power then
        let y := x.mul (.ofNat (tenTo power.natAbs))
        if y.isFinite then some y else none
      else some (x.div (.ofNat (tenTo power.natAbs)))
    else if x.isZero then some x
    else if 0 ≤ power then none
    else scale fuel (x.div (.ofNat (tenTo 308))) (power + 308)

/-- The double of a number: digits before and behind the point, and the power of ten. Digits of the
whole part that are not read raise the power, digits of the fraction that are read lower it. -/
def doubleOf (whole fraction : List Char) (power : Int) : Option Binary64 :=
  let (value, unread) := takeDigits maxUnsigned 0 whole
  let (value, unreadFraction) := takeDigits maxUnsigned value fraction
  scale 5 (.ofNat value) (power + unread.length - (fraction.length - unreadFraction.length : Nat))

/-- A double with the sign of the number. -/
def signed (negative : Bool) (x : Binary64) : Json := .double (if negative then x.neg else x)

/-- The exponent of a number, with how it is marked: an `e`, a sign or none, digits. -/
def readExponent : List Char → Option (Option (Bool × List Char) × List Char)
  | e :: cs =>
    if e = 'e' ∨ e = 'E' then
      let (negative, cs) : Bool × List Char :=
        match cs with
        | '+' :: cs => (false, cs)
        | '-' :: cs => (true, cs)
        | cs => (false, cs)
      let digits := cs.takeWhile isDigit
      if digits.isEmpty then none else some (some (negative, digits), cs.dropWhile isDigit)
    else some (none, e :: cs)
  | [] => some (none, [])

/-- The fraction of a number behind its point; empty when there is no point. -/
def readFraction : Step (List Char)
  | '.' :: cs =>
    let digits := cs.takeWhile isDigit
    if digits.isEmpty then none else some (digits, cs.dropWhile isDigit)
  | cs => some ([], cs)

/-- The value of a number from its parts. -/
def numberOf (negative : Bool) (whole fraction : List Char)
    (exponent : Option (Bool × List Char)) : Option Json :=
  match exponent with
  | none =>
    if fraction.isEmpty then
      let n := natOf whole
      if n ≤ maxUnsigned then
        if !negative then some (.int n)
        else if n = 0 ∨ 9223372036854775808 < n then some (signed true (.ofNat n))
        else some (.int (-(n : Int)))
      else (doubleOf whole [] 0).map (signed negative)
    else (doubleOf whole fraction 0).map (signed negative)
  | some (down, digits) =>
    let power := natOf digits
    if 2147483647 < power then
      let isZero := (whole ++ fraction).all (· == '0')
      if !isZero && !down then none else some (signed negative .zero)
    else
      (doubleOf whole fraction (if down then -(power : Int) else power)).map (signed negative)

/-- Reads a number behind its sign. -/
def readNumber (negative : Bool) (cs : List Char) : Option (Json × List Char) := do
  let whole := cs.takeWhile isDigit
  let rest := cs.dropWhile isDigit
  match whole with
  | [] => none
  | '0' :: _ :: _ => none
  | _ =>
    let (fraction, rest) ← readFraction rest
    let (exponent, rest) ← readExponent rest
    some (← numberOf negative whole fraction exponent, rest)

/-! ## Skipping -/

/-- The characters behind a string whose opening quote has been read. -/
def skipString : List Char → Option (List Char)
  | [] => none
  | '"' :: cs => some cs
  | '\\' :: 'u' :: a :: b :: c :: d :: cs =>
    if [a, b, c, d].all fun x => (hexValue? x).isSome then skipString cs else none
  | '\\' :: e :: cs => if (escaped? e).isSome then skipString cs else none
  | c :: cs => if c.toNat < 0x20 ∨ c = '\\' then none else skipString cs

/-- The characters behind a number whose sign has been read. -/
def skipNumber (cs : List Char) : Option (List Char) := do
  match cs.takeWhile isDigit with
  | [] => none
  | '0' :: _ :: _ => none
  | _ =>
    let (_, rest) ← readFraction (cs.dropWhile isDigit)
    let (_, rest) ← readExponent rest
    some rest

end BuildAhead.Json
