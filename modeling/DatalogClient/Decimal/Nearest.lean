import DatalogClient.Decimal.Shortest

/-!
# The binary fraction of a decimal

A decimal is made a floating-point number in steps: its significand and the power of ten are rounded
to such numbers each, and their product or quotient is rounded once more. So the number may differ
from the nearest one by the last bits, and is infinite a little early.

The power of ten is rounded in one step: a quotient of two natural numbers is cut to as many bits as
a word has, and the remainder decides whether to go up. A tie goes to the even significand.

## Main definitions

* `roundQuotient` — a quotient, rounded
* `Layout.roundFraction` — the word nearest to a fraction
* `powerOfTen` — a power of ten, rounded
* `double?` — the number of a decimal, unless it is infinite
-/

namespace DatalogClient.Decimal

/-- The quotient of two natural numbers rounded to the nearest one, ties to even. -/
def roundQuotient (num den : Nat) : Nat :=
  let q := num / den
  let twice := 2 * (num % den)
  if twice < den then q else if den < twice then q + 1 else q + q % 2

/-- The least exponent of a significand: that of the numbers nearest to zero. -/
def Layout.leastExponent (layout : Layout) : Int :=
  2 - (twoTo (layout.exponentBits - 1) : Int) - layout.fractionBits

/-- The word of the magnitude `num / den`, which may be infinite. The quotient is scaled so that
its whole part has one bit more than the fraction field, or has fewer at the least exponent; then
significand and exponent field add up to the word, also where rounding carries. -/
def Layout.roundFraction (layout : Layout) (num den : Nat) : Nat :=
  let estimate : Int := (num.log2 : Int) - den.log2 - layout.fractionBits
  let exponent :=
    if num * twoTo (-estimate).toNat < den * twoTo estimate.toNat * twoTo layout.fractionBits then
      estimate - 1 else estimate
  let exponent := max exponent layout.leastExponent
  let significand := roundQuotient (num * twoTo (-exponent).toNat) (den * twoTo exponent.toNat)
  (exponent - layout.leastExponent).toNat * twoTo layout.fractionBits + significand

/-- Greater powers of ten are infinite. -/
def greatestPower : Nat := 308

/-- The number nearest to a power of ten. -/
def powerOfTen (n : Nat) : Float :=
  Float.ofBits (Layout.double.roundFraction (tenTo n) 1).toUInt64

/-- A number that is divided by the greatest power of ten so many times, unless it is zero
before. -/
def dividedDown (x : Float) : Nat → Float
  | 0 => x
  | times + 1 => if x == 0 then x else dividedDown (x / powerOfTen greatestPower) times

/-- The number of `significand * 10 ^ exponent`, unless it is infinite. The significand is that of a
word. A power of ten that is too small for a number is divided by in several steps. -/
def double? (significand : UInt64) : Int → Option Float
  | .ofNat n =>
    let x := significand.toFloat
    if n ≤ greatestPower then
      let y := x * powerOfTen n
      if y.isInf then none else some y
    else if x == 0 then some x else none
  | .negSucc n =>
    some (dividedDown significand.toFloat (n / greatestPower) / powerOfTen (n % greatestPower + 1))

end DatalogClient.Decimal
