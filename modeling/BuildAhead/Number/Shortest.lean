import BuildAhead.Number.Binary64

set_option autoImplicit false

/-!
# Number: shortest decimals

The decimal with the fewest digits that is read back as a given double. The reals that round to a
double with significand `m` form an interval around it, with its ends when `m` is even. For one
digit, two digits and so on, at most one more than needed, the two multiples of the power of ten
next to the value are tried; the first that lies in the interval is taken, of two the nearer one.
-/

namespace BuildAhead

/-- A decimal `digits · 10 ^ power`. -/
structure Decimal where
  digits : Nat
  power : Int
  deriving DecidableEq, Repr, Inhabited

namespace Decimal

/-- The digits of a natural number in base ten, the highest first. -/
def digitsOf (n : Nat) : List Char := Nat.toDigits 10 n

/-- The same decimal without zeros at the end of its digits, at most `fuel` of them. -/
def strip (fuel : Nat) (d : Decimal) : Decimal :=
  match fuel with
  | 0 => d
  | fuel + 1 =>
    if d.digits ≠ 0 ∧ d.digits % 10 = 0 then strip fuel ⟨d.digits / 10, d.power + 1⟩ else d

end Decimal

namespace Binary64

/-- Quarters of a unit in the last place between a number and the lower end of its interval: half a
unit, or a quarter where the doubles below lie twice as close. -/
def lowerGap (x : Binary64) : Nat :=
  if x.significand = twoTo 52 ∧ -1074 < x.exponent then 1 else 2

/-- Whether the decimal rounds to this finite positive number. -/
def accepts (x : Binary64) (d : Decimal) : Bool :=
  let scale := x.exponent - 2
  let left := d.digits * tenTo d.power.toNat * twoTo (-scale).toNat
  let unit := tenTo (-d.power).toNat * twoTo scale.toNat
  let low := (4 * x.significand - x.lowerGap) * unit
  let high := (4 * x.significand + 2) * unit
  if x.significand % 2 = 0 then low ≤ left && left ≤ high else low < left && left < high

/-- Whether the value is at least `10 ^ p`. -/
def reachesPower (x : Binary64) (p : Int) : Bool :=
  tenTo p.toNat * x.denominator ≤ x.numerator * tenTo (-p).toNat

/-- The greatest `p` with `10 ^ p` not above the value of a finite positive number. -/
def log10 (x : Binary64) : Int :=
  let guess := ((x.significand.log2 : Int) + x.exponent) * 30103 / 100000
  if x.reachesPower (guess + 1) then guess + 1
  else if x.reachesPower guess then guess
  else guess - 1

/-- The decimal next below the value whose last digit stands at `10 ^ p`. -/
def floorAt (x : Binary64) (p : Int) : Nat :=
  (x.numerator * tenTo (-p).toNat) / (x.denominator * tenTo p.toNat)

/-- Whether the value lies in the upper half above its multiple `n` of `10 ^ p`, or at its
middle with `n` odd. -/
def prefersUpper (x : Binary64) (n : Nat) (p : Int) : Bool :=
  let twice := 2 * (x.numerator * tenTo (-p).toNat)
  let middle := (2 * n + 1) * (x.denominator * tenTo p.toNat)
  middle < twice || (middle == twice && n % 2 == 1)

/-- The neighbour of the value on the grid of `10 ^ p` that is read back as it. -/
def neighbour? (x : Binary64) (p : Int) : Option Decimal :=
  let n := x.floorAt p
  let below : Decimal := ⟨n, p⟩
  let above : Decimal := ⟨n + 1, p⟩
  match x.accepts below, x.accepts above with
  | true, true => some (if x.prefersUpper n p then above else below)
  | true, false => some below
  | false, true => some above
  | false, false => none

/-- Tries grids from `10 ^ p` downwards, at most `fuel` of them. -/
def searchFrom (x : Binary64) (p : Int) : Nat → Decimal
  | 0 => ⟨x.floorAt p, p⟩
  | fuel + 1 =>
    match x.neighbour? p with
    | some d => d
    | none => searchFrom x (p - 1) fuel

/-- The decimal with the fewest digits that is read back as this finite number, its sign apart.
Seventeen digits always suffice. -/
def shortest (x : Binary64) : Decimal :=
  if x.isZero then ⟨0, 0⟩ else (x.searchFrom x.log10 17).strip 20

example : shortest (ofDecimal 3 (-1)) = ⟨3, -1⟩ := by decide +kernel
example : shortest (ofDecimal 5 (-324)) = ⟨5, -324⟩ := by decide +kernel
example : shortest (ofNat 18446744073709551616) = ⟨18446744073709552, 3⟩ := by decide +kernel

end Binary64

end BuildAhead
