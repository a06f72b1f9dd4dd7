import DatalogClient.Decimal.Shortest

/-!
# Floating-point numbers as text

The digits of a number are the shortest that read back to it; a `Notation` says how they are laid
out: where positional notation ends, whether a whole number keeps `.0`, how an exponent is signed.

## Main definitions

* `Notation` — the decisions of one textual form
* `Notation.double`, `Notation.single` — the text of a 64-bit and of a 32-bit number
-/

namespace DatalogClient.Decimal

/-- The decisions of one textual form of floating-point numbers. -/
structure Notation where
  /-- The exponents of the leading digit that are written positionally; all of them if absent. -/
  positional : Option (Int × Int)
  /-- A whole number in positional notation keeps a zero after the point. -/
  keepsPointZero : Bool
  /-- A positive exponent carries a plus sign. -/
  signsExponent : Bool
  /-- Which of two equally near shortest decimals is taken. -/
  tie : Tie

/-- The decimal digits of a natural number. -/
def digitsOf (n : Nat) : List Char := (toString n).toList

/-- An exponent is written positionally. -/
def Notation.isPositional (form : Notation) (e : Int) : Bool :=
  match form.positional with
  | some (least, greatest) => least ≤ e && e ≤ greatest
  | none => true

/-- Digits with the point after the leading digit moved `e` places to the right. -/
def Notation.writePositional (form : Notation) (digits : List Char) (e : Int) : List Char :=
  if e < 0 then '0' :: '.' :: (List.replicate (-e - 1).toNat '0' ++ digits)
  else
    let whole := e.toNat + 1
    if digits.length ≤ whole then
      digits ++ List.replicate (whole - digits.length) '0' ++
        (if form.keepsPointZero then ['.', '0'] else [])
    else digits.take whole ++ '.' :: digits.drop whole

/-- Digits with the point after the leading digit, and an exponent. -/
def Notation.writeExponential (form : Notation) (digits : List Char) (e : Int) : List Char :=
  let mantissa := match digits with
    | d :: rest@(_ :: _) => d :: '.' :: rest
    | short => short
  let sign := if e < 0 then ['-'] else if form.signsExponent then ['+'] else []
  mantissa ++ 'e' :: (sign ++ digitsOf e.natAbs)

/-- A decimal whose coefficient is not zero. -/
def Notation.write (form : Notation) (d : Scientific) : List Char :=
  let digits := digitsOf d.coefficient
  let e := d.exponent + (digits.length - 1 : Nat)
  if form.isPositional e then form.writePositional digits e else form.writeExponential digits e

/-- A machine word of the given layout: its sign, then its magnitude. -/
def Notation.word (form : Notation) (layout : Layout) (word : Nat) : String :=
  let signBit := twoTo (layout.fractionBits + layout.exponentBits)
  let magnitude := word % signBit
  let full := (twoTo layout.exponentBits - 1) * twoTo layout.fractionBits
  let sign := if word / signBit % 2 = 1 then ['-'] else []
  if full < magnitude then "NaN"
  else if magnitude = full then String.ofList (sign ++ ['i', 'n', 'f'])
  else if magnitude = 0 then
    String.ofList (sign ++ (if form.keepsPointZero then ['0', '.', '0'] else ['0']))
  else
    String.ofList (sign ++ form.write ((Binary.ofWord layout magnitude).shortest form.tie))

/-- The text of a 64-bit number. -/
def Notation.double (form : Notation) (x : Float) : String := form.word .double x.toBits.toNat

/-- The text of a 32-bit number. -/
def Notation.single (form : Notation) (x : Float32) : String := form.word .single x.toBits.toNat

/-- Numbers of the wire format are positional from `0.00001` up to below `1e+16`. -/
def wire : Notation where
  positional := some (-5, 15)
  keepsPointZero := true
  signsExponent := true
  tie := .toEven

/-- Numbers in messages are positional from `0.0001` up to below `1e16`. -/
def message : Notation where
  positional := some (-4, 15)
  keepsPointZero := true
  signsExponent := false
  tie := .up

/-- Numbers shown plainly have neither an exponent nor a superfluous point. -/
def plain : Notation where
  positional := none
  keepsPointZero := false
  signsExponent := false
  tie := .up

end DatalogClient.Decimal
