/-!
# The shortest decimal of a binary fraction

A binary floating-point value stands for the interval of reals that round to it. Among the
decimals of that interval this module picks one with the fewest digits, and of those the one
nearest to the value, by exact integer arithmetic.

## Main definitions

* `Layout` — how many bits of a machine word hold the fraction and the exponent
* `Binary` — a finite magnitude `significand * 2 ^ exponent`
* `Scientific` — a decimal `coefficient * 10 ^ exponent`
* `Binary.readsBack` — the decimal lies in the interval that rounds to the value
* `Binary.shortest` — the shortest decimal that reads back
-/

namespace DatalogClient.Decimal

/-- A power of two. -/
abbrev twoTo (n : Nat) : Nat := Nat.pow 2 n

/-- A power of ten. -/
abbrev tenTo (n : Nat) : Nat := Nat.pow 10 n

/-- The widths of the fraction and exponent fields of a binary floating-point word. -/
structure Layout where
  fractionBits : Nat
  exponentBits : Nat

/-- Sixty-four bits. -/
def Layout.double : Layout := ⟨52, 11⟩

/-- Thirty-two bits. -/
def Layout.single : Layout := ⟨23, 8⟩

/-- A finite magnitude `significand * 2 ^ exponent`. -/
structure Binary where
  significand : Nat
  exponent : Int
  /-- The gap to the value below is half the gap to the value above. -/
  narrowBelow : Bool

/-- The magnitude that a word without its sign stands for, if its exponent field is not full. -/
def Binary.ofWord (layout : Layout) (word : Nat) : Binary :=
  let unit := twoTo layout.fractionBits
  let fraction := word % unit
  let field := word / unit % twoTo layout.exponentBits
  let bias : Int := (twoTo (layout.exponentBits - 1) : Int) - 1 + layout.fractionBits
  if field = 0 then ⟨fraction, 1 - bias, false⟩
  else ⟨unit + fraction, field - bias, fraction == 0 && field != 1⟩

/-- A decimal `coefficient * 10 ^ exponent`. -/
structure Scientific where
  coefficient : Nat
  exponent : Int
deriving DecidableEq

/-- Which of two equally near decimals is taken. -/
inductive Tie where
  | toEven
  | up
deriving DecidableEq

/-- Compare `a * 10 ^ i` with `n * 2 ^ j`. -/
def compareScaled (a : Nat) (i : Int) (n : Nat) (j : Int) : Ordering :=
  compare (a * tenTo i.toNat * twoTo (-j).toNat) (n * twoTo j.toNat * tenTo (-i).toNat)

/-- The decimal lies among the reals that round to the value; the ends of that interval belong to
it exactly when the significand is even. -/
def Binary.readsBack (x : Binary) (d : Scientific) : Bool :=
  let low := if x.narrowBelow then 4 * x.significand - 1 else 4 * x.significand - 2
  let high := 4 * x.significand + 2
  let closed := x.significand % 2 == 0
  let below := compareScaled d.coefficient d.exponent low (x.exponent - 2)
  let above := compareScaled d.coefficient d.exponent high (x.exponent - 2)
  (below == .gt || (closed && below == .eq)) && (above == .lt || (closed && above == .eq))

/-- The least `k` with the value below `10 ^ k`, found next to an estimate from the binary
logarithm. -/
def Binary.scale (x : Binary) : Int :=
  let guess := Int.fdiv ((x.significand.log2 + x.exponent) * 30103) 100000
  let fits (k : Int) : Bool := compareScaled 1 k x.significand x.exponent == .gt
  (([guess - 1, guess, guess + 1, guess + 2].find? fits).getD (guess + 3))

/-- The nearest decimal with the given exponent that reads back, if one of the value's two
neighbours on that grid does. -/
def Binary.onGrid? (x : Binary) (tie : Tie) (exponent : Int) : Option Scientific :=
  let num := x.significand * twoTo x.exponent.toNat * tenTo (-exponent).toNat
  let den := twoTo (-x.exponent).toNat * tenTo exponent.toNat
  let floor := num / den
  let down : Scientific := ⟨floor, exponent⟩
  let up : Scientific := ⟨floor + 1, exponent⟩
  match x.readsBack down, x.readsBack up with
  | true, true =>
    match compare (2 * num) ((2 * floor + 1) * den) with
    | .lt => some down
    | .gt => some up
    | .eq => some (if tie = .toEven && floor % 2 == 0 then down else up)
  | true, false => some down
  | false, true => some up
  | false, false => none

/-- Move trailing zeros of the coefficient into the exponent, as many as the given number of
steps allows. -/
def Scientific.stripZeros : Nat → Scientific → Scientific
  | 0, d => d
  | steps + 1, d =>
    if d.coefficient % 10 = 0 && d.coefficient != 0 then
      stripZeros steps ⟨d.coefficient / 10, d.exponent + 1⟩
    else d

/-- The value itself as a decimal. -/
def Binary.exact (x : Binary) : Scientific :=
  ⟨x.significand * twoTo x.exponent.toNat * Nat.pow 5 (-x.exponent).toNat, min x.exponent 0⟩

/-- The shortest decimal that reads back to a magnitude other than zero: the first of the grids of
one, two, … seventeen digits with a hit. -/
def Binary.shortest (x : Binary) (tie : Tie) : Scientific :=
  let k := x.scale
  let grids := (List.range 17).map fun (n : Nat) => k - (n + 1)
  ((grids.findSome? (x.onGrid? tie)).getD x.exact).stripZeros 400

end DatalogClient.Decimal
