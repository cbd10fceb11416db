import BuildAhead.Number.Sum

set_option autoImplicit false

/-!
# Number: double precision values

A double precision number is its 64 bits. Its value is read off the bits as `m · 2 ^ q` with natural
`m`, and every operation that rounds is `ofRatio`: the double nearest to a quotient of natural
numbers, of two equally near ones the one with an even significand. Products and quotients are
taken exactly and then rounded, so nothing here depends on a machine's floating point unit.
-/

namespace BuildAhead

/-- A double precision number, given by its bits. -/
structure Binary64 where
  bits : UInt64
  deriving DecidableEq, Repr, Inhabited

namespace Binary64

/-- Bits above the sign are the magnitude; the sign bit is `2 ^ 63`. -/
def signBit : Nat := twoTo 63

/-- The bits of positive infinity. -/
def infinityBits : Nat := 2047 * twoTo 52

/-- Positive infinity. -/
def infinity : Binary64 := ⟨UInt64.ofNat infinityBits⟩

/-- The number that is not a number. -/
def nan : Binary64 := ⟨UInt64.ofNat (infinityBits + twoTo 51)⟩

/-- Positive zero. -/
def zero : Binary64 := ⟨0⟩

/-- Whether the sign bit is set. -/
def isNegative (x : Binary64) : Bool := signBit ≤ x.bits.toNat

/-- The bits without the sign. -/
def magnitude (x : Binary64) : Nat := x.bits.toNat % signBit

/-- Neither infinite nor undefined. -/
def isFinite (x : Binary64) : Bool := x.magnitude < infinityBits

/-- Undefined: the result of an operation without a value. -/
def isNaN (x : Binary64) : Bool := infinityBits < x.magnitude

/-- Zero of either sign. -/
def isZero (x : Binary64) : Bool := x.magnitude == 0

/-- The number with the other sign. -/
def neg (x : Binary64) : Binary64 :=
  ⟨UInt64.ofNat ((x.bits.toNat + signBit) % twoTo 64)⟩

/-- The number `m` of the value `m · 2 ^ q` of a finite number, its sign apart. -/
def significand (x : Binary64) : Nat :=
  if x.magnitude < twoTo 52 then x.magnitude else twoTo 52 + x.magnitude % twoTo 52

/-- The number `q` of the value `m · 2 ^ q` of a finite number. -/
def exponent (x : Binary64) : Int :=
  if x.magnitude < twoTo 52 then -1074 else (x.magnitude / twoTo 52 : Nat) - 1075

/-- The numerator of the value as a quotient, its sign apart. -/
def numerator (x : Binary64) : Nat := x.significand * twoTo x.exponent.toNat

/-- The denominator of the value as a quotient: a power of two. -/
def denominator (x : Binary64) : Nat := twoTo (-x.exponent).toNat

/-- The quotient of two natural numbers rounded to a natural number, a half to the even one. -/
def roundQuotient (num den : Nat) : Nat :=
  let floor := num / den
  let twice := 2 * (num % den)
  if twice < den then floor
  else if den < twice then floor + 1
  else floor + floor % 2

/-- The exponent of two of the quotient: the greatest `e` with `2 ^ e ≤ num / den`. -/
def quotientLog2 (num den : Nat) : Int :=
  let guess : Int := (num.log2 : Int) - den.log2
  if num * twoTo (-guess).toNat < den * twoTo guess.toNat then guess - 1 else guess

/-- The double nearest to the quotient `num / den`, infinite when it is too large. -/
def ofRatio (num den : Nat) : Binary64 :=
  if num = 0 ∨ den = 0 then zero
  else
    let q := max (quotientLog2 num den - 52) (-1074)
    if 972 ≤ q then infinity
    else
      let m := roundQuotient (num * twoTo (-q).toNat) (den * twoTo q.toNat)
      if m < twoTo 52 then ⟨UInt64.ofNat m⟩
      else
        let bits := (q + 1075).toNat * twoTo 52 + (m - twoTo 52)
        ⟨UInt64.ofNat (min bits infinityBits)⟩

/-- The double nearest to a natural number. -/
def ofNat (n : Nat) : Binary64 := ofRatio n 1

/-- The product of two finite numbers that are not negative. -/
def mul (x y : Binary64) : Binary64 :=
  ofRatio (x.numerator * y.numerator) (x.denominator * y.denominator)

/-- The quotient of two finite numbers that are not negative. -/
def div (x y : Binary64) : Binary64 :=
  ofRatio (x.numerator * y.denominator) (x.denominator * y.numerator)

/-- The double nearest to the decimal `digits · 10 ^ power`. Powers far outside the range of
doubles are answered without being computed. -/
def ofDecimal (digits : Nat) (power : Int) : Binary64 :=
  if digits = 0 then zero
  else
    let size : Int := (digits.log2 : Int) * 30103 / 100000
    if 400 < size + power then infinity
    else if size + power < -400 then zero
    else ofRatio (digits * tenTo power.toNat) (tenTo (-power).toNat)

example : ofDecimal 1 (-1) = ⟨0x3FB999999999999A⟩ := by decide +kernel
example : ofDecimal 5 (-324) = ⟨1⟩ := by decide +kernel
example : ofDecimal 17976931348623157 292 = ⟨0x7FEFFFFFFFFFFFFF⟩ := by decide +kernel
example : ofDecimal 1 309 = infinity := by decide +kernel

end Binary64

end BuildAhead
