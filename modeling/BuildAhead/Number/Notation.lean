import BuildAhead.Number.Shortest

set_option autoImplicit false

/-!
# Number: written forms

Two ways to write a double. `Binary64.positional` never uses an exponent and drops a fraction that is
zero; `Binary64.scientific` marks every double as one, by a fraction or by an exponent, and is
positional from `10⁻⁵` up to below `10¹⁶`. Both write the shortest digits that are read back as
the number.
-/

namespace BuildAhead

/-- The integer in base ten. -/
def Decimal.ofInt (n : Int) : String := toString n

namespace Binary64

/-- `n` zeros. -/
def zeros (n : Nat) : List Char := List.replicate n '0'

/-- The digits of a decimal with a point in their place and no exponent. -/
def spread (d : Decimal) : List Char × List Char :=
  let ds := Decimal.digitsOf d.digits
  let point := (ds.length : Int) + d.power
  if 0 ≤ d.power then (ds ++ zeros d.power.toNat, [])
  else if 0 < point then (ds.take point.toNat, ds.drop point.toNat)
  else (['0'], zeros (-point).toNat ++ ds)

/-- A minus sign for a number with the sign bit. -/
def sign (x : Binary64) : List Char := if x.isNegative then ['-'] else []

/-- Without an exponent, and without a fraction that is zero. -/
def positional (x : Binary64) : String :=
  if x.isNaN then "NaN"
  else if !x.isFinite then String.ofList (x.sign ++ ['i', 'n', 'f'])
  else
    let (whole, fraction) := spread x.shortest
    String.ofList (x.sign ++ whole ++ (if fraction.isEmpty then [] else '.' :: fraction))

/-- One digit before the point, an exponent with its sign behind. -/
def exponential (d : Decimal) : List Char :=
  let ds := Decimal.digitsOf d.digits
  let power := d.power + ds.length - 1
  ds.take 1 ++ (if ds.length ≤ 1 then [] else '.' :: ds.drop 1) ++
    ['e', if 0 ≤ power then '+' else '-'] ++ Decimal.digitsOf power.natAbs

/-- With a fraction or an exponent, positional from `10⁻⁵` up to below `10¹⁶`. -/
def scientific (x : Binary64) : String :=
  let d := x.shortest
  let point := ((Decimal.digitsOf d.digits).length : Int) + d.power
  if x.isZero ∨ (-5 < point ∧ point ≤ 16) then
    let (whole, fraction) := spread d
    String.ofList (x.sign ++ whole ++ '.' :: (if fraction.isEmpty then ['0'] else fraction))
  else String.ofList (x.sign ++ exponential d)

example : (ofDecimal 1 3).positional = "1000" := by decide +kernel
example : (ofDecimal 1 (-7)).positional = "0.0000001" := by decide +kernel
example : (ofDecimal 1 16).scientific = "1e+16" := by decide +kernel
example : (ofDecimal 123456789125 (-3)).scientific = "123456789.125" := by decide +kernel
example : zero.neg.scientific = "-0.0" := by decide +kernel

end Binary64

end BuildAhead
