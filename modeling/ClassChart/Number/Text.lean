import ClassChart.Number.Shortest

/-!
# The text of numbers

A floating point number is written in positional form while its decimal exponent lies between `-4`
and `15`, with at least one digit after the point, and in scientific form elsewhere, with a signed
exponent of at least two digits.

## Main definitions

* `Binary64.SpecialNames`: the words for the values that are no finite number.
* `Binary64.text`: the text of a floating point number.
-/

namespace ClassChart

/-- The digits of a decimal without the zeros they end in, and the power of ten of the first. -/
def Decimal.scientific (d : Decimal) : List Char × Int :=
  let digits := Nat.toDigits 10 d.digits
  ((digits.reverse.dropWhile (· == '0')).reverse, (digits.length : Int) + d.exponent - 1)

namespace Binary64

/-- The exponents written in positional form run from here … -/
def minPositional : Int := -4

/-- … up to here. -/
def maxPositional : Int := 15

/-- Digits with a point after the digit of `10 ^ 0`. -/
def positional (digits : List Char) (exponent : Int) : List Char :=
  if exponent < 0 then
    '0' :: '.' :: List.replicate (-exponent - 1).toNat '0' ++ digits
  else
    let whole := exponent.toNat + 1
    let padded := digits ++ List.replicate (whole - digits.length) '0'
    let fraction := padded.drop whole
    padded.take whole ++ '.' :: (if fraction.isEmpty then ['0'] else fraction)

/-- The exponent of scientific form. -/
def exponentText (exponent : Int) : List Char :=
  let digits := Nat.toDigits 10 exponent.natAbs
  'e' :: (if exponent < 0 then '-' else '+') :: List.replicate (2 - digits.length) '0' ++ digits

/-- Digits with a point after the first, and the exponent. -/
def scientific (digits : List Char) (exponent : Int) : List Char :=
  let fraction := digits.drop 1
  digits.take 1 ++ (if fraction.isEmpty then [] else '.' :: fraction) ++ exponentText exponent

/-- The digits of a finite number without its sign. -/
def magnitudeText (negative : Bool) (mantissa : Nat) (exponent : Int) : List Char :=
  if mantissa = 0 then ['0', '.', '0']
  else
    let (digits, power) := (shortest negative mantissa exponent).scientific
    if minPositional ≤ power ∧ power ≤ maxPositional then positional digits power
    else scientific digits power

/-- The words for the values that are no finite number. -/
structure SpecialNames where
  nan : List Char
  infinite : List Char

/-- The text of a number. -/
def text (names : SpecialNames) : Binary64 → List Char
  | .nan => names.nan
  | .infinite negative => (if negative then ['-'] else []) ++ names.infinite
  | .finite negative mantissa exponent =>
    (if negative then ['-'] else []) ++ magnitudeText negative mantissa exponent

end Binary64

/-- The text of a whole number. -/
def intText (i : Int) : List Char :=
  (if i < 0 then ['-'] else []) ++ Nat.toDigits 10 i.natAbs

end ClassChart
