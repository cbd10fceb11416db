import BuildAhead.Text.Step

set_option autoImplicit false

/-!
# Toml: moments

Dates and times of the TOML format: a date, a time of the day, or both with a `T` or a blank between
them and then possibly an offset from universal time. The normal form has the `T`, a capital `Z`,
and a fraction of a second of at most nine digits without zeros at its end.
-/

namespace BuildAhead.Toml

open Text (Step isDigit natOf takeExactly)

/-- A number of so many digits that is at least `low` and at most `high`, as it is written. -/
def fixedNumber (count low high : Nat) : Step (List Char) := fun cs => do
  let (ds, rest) ← takeExactly count cs
  if ds.all isDigit && low ≤ natOf ds && natOf ds ≤ high then some (ds, rest) else none

/-- The characters behind a given one. -/
def behind (c : Char) : List Char → Option (List Char)
  | d :: rest => if d = c then some rest else none
  | [] => none

/-- Whether a year has a 29th of February. -/
def isLeapYear (year : Nat) : Bool :=
  year % 4 == 0 && (year % 100 != 0 || year % 400 == 0)

/-- The number of days of a month. -/
def daysOf (year month : Nat) : Nat :=
  if month = 2 then (if isLeapYear year then 29 else 28)
  else if month = 4 ∨ month = 6 ∨ month = 9 ∨ month = 11 then 30
  else 31

/-- Reads a date. -/
def readDate : Step (List Char) := fun cs => do
  let (year, rest) ← fixedNumber 4 0 9999 cs
  let rest ← behind '-' rest
  let (month, rest) ← fixedNumber 2 1 12 rest
  let rest ← behind '-' rest
  let (day, rest) ← fixedNumber 2 1 (daysOf (natOf year) (natOf month)) rest
  some (year ++ '-' :: month ++ '-' :: day, rest)

/-- The normal form of the digits of a fraction. -/
def fractionText (digits : List Char) : List Char :=
  let kept := ((digits.take 9).reverse.dropWhile (· == '0')).reverse
  if kept.isEmpty then [] else '.' :: kept

/-- Reads the fraction of a second, which may be missing. -/
def readFraction (cs : List Char) : List Char × List Char :=
  match cs with
  | '.' :: rest =>
    let digits := rest.takeWhile isDigit
    if digits.isEmpty then ([], cs) else (fractionText digits, rest.dropWhile isDigit)
  | _ => ([], cs)

/-- Reads a time of the day; a minute may have a leap second. -/
def readTime : Step (List Char) := fun cs => do
  let (hour, rest) ← fixedNumber 2 0 23 cs
  let rest ← behind ':' rest
  let (minute, rest) ← fixedNumber 2 0 59 rest
  let rest ← behind ':' rest
  let (second, rest) ← fixedNumber 2 0 60 rest
  let (fraction, rest) := readFraction rest
  some (hour ++ ':' :: minute ++ ':' :: second ++ fraction, rest)

/-- Reads the offset behind its sign. -/
def readOffsetOf (sign : Char) : Step (List Char) := fun cs => do
  let (hour, rest) ← fixedNumber 2 0 23 cs
  let rest ← behind ':' rest
  let (minute, rest) ← fixedNumber 2 0 59 rest
  let isNone := natOf hour = 0 ∧ natOf minute = 0
  some ((if isNone then '+' else sign) :: hour ++ ':' :: minute, rest)

/-- Reads an offset, which may be missing. -/
def readOffset (cs : List Char) : List Char × List Char :=
  match cs with
  | c :: rest =>
    if c = 'Z' ∨ c = 'z' then (['Z'], rest)
    else if c = '+' ∨ c = '-' then (readOffsetOf c rest).getD ([], cs)
    else ([], cs)
  | [] => ([], [])

/-- What stands between a date and a time. -/
def isTimeMark (c : Char) : Bool := c == 'T' || c == 't' || c == ' '

/-- Reads a moment and answers its normal form. -/
def readMoment : Step String := fun cs =>
  match readDate cs with
  | none => (readTime cs).map fun (time, rest) => (String.ofList time, rest)
  | some (date, rest) =>
    match rest with
    | [] => some (String.ofList date, rest)
    | c :: behindMark =>
      match if isTimeMark c then readTime behindMark else none with
      | none => some (String.ofList date, rest)
      | some (time, rest) =>
        let (offset, rest) := readOffset rest
        some (String.ofList (date ++ 'T' :: time ++ offset), rest)

example :
    readMoment "1979-05-27 07:32:00.500z".toList = some ("1979-05-27T07:32:00.5Z", []) := by
  decide +kernel
example : readMoment "1979-02-29".toList = none := by decide +kernel
example : readMoment "07:32:00 #".toList = some ("07:32:00", [' ', '#']) := by decide +kernel

end BuildAhead.Toml
