/-!
# Binary floating point numbers

A number with a fraction or an exponent is kept with 53 binary digits. Here such numbers are data:
a finite one is a sign, a whole mantissa and the power of two it is scaled by, so that reading a
decimal is exact arithmetic on natural numbers.

## Main definitions

* `Binary64`: a number of this kind, an infinity, or no number.
* `Binary64.ofRatio`: the number nearest to a positive fraction, the even one of two.
* `Binary64.ofDecimal`: the number nearest to a decimal.
-/

namespace ClassChart

/-- A binary floating point number. The finite ones have a mantissa below `2 ^ 53` and an exponent
of at least `-1074`; a mantissa below `2 ^ 52` occurs at that exponent only. -/
inductive Binary64 where
  | nan
  | infinite (negative : Bool)
  | finite (negative : Bool) (mantissa : Nat) (exponent : Int)
  deriving DecidableEq, Repr

namespace Binary64

/-- Two to a power. -/
def twoTo (n : Nat) : Nat := Nat.pow 2 n

/-- Ten to a power. -/
def tenTo (n : Nat) : Nat := Nat.pow 10 n

/-- The least exponent. -/
def minExponent : Int := -1074

/-- The greatest exponent. -/
def maxExponent : Int := 971

/-- Zero with a sign. -/
def zero (negative : Bool) : Binary64 :=
  .finite negative 0 minExponent

/-- Whether the number is zero, of either sign. -/
def isZero : Binary64 → Bool
  | .finite _ mantissa _ => mantissa == 0
  | _ => false

/-- The natural number nearest to `num / den`, the even one of two. -/
def roundRatio (num den : Nat) : Nat :=
  let low := num / den
  let rest := 2 * (num % den)
  if den < rest || (rest == den && low % 2 == 1) then low + 1 else low

/-- The fraction `num / den` divided by `2 ^ exponent`, as a new fraction. -/
def scaleRatio (num den : Nat) (exponent : Int) : Nat × Nat :=
  (num * twoTo (-exponent).toNat, den * twoTo exponent.toNat)

/-- The exponent at which the whole part of `num / den` has 53 binary digits, or the least one if
that is smaller. -/
def exponentFor (num den : Nat) : Int :=
  let guess : Int := (num.log2 : Int) - (den.log2 : Int) - 52
  let (n, d) := scaleRatio num den guess
  let exponent := if n / d < twoTo 52 then guess - 1 else guess
  if exponent < minExponent then minExponent else exponent

/-- The number nearest to the positive fraction `num / den`. -/
def ofRatio (negative : Bool) (num den : Nat) : Binary64 :=
  let exponent := exponentFor num den
  let (n, d) := scaleRatio num den exponent
  let rounded := roundRatio n d
  let (mantissa, exponent) :=
    if rounded = twoTo 53 then (twoTo 52, exponent + 1) else (rounded, exponent)
  if maxExponent < exponent then .infinite negative else .finite negative mantissa exponent

/-- The number nearest to `digits * 10 ^ exponent`. Decimals far outside the range are settled by
their length alone. -/
def ofDecimal (negative : Bool) (digits : Nat) (exponent : Int) : Binary64 :=
  if digits = 0 then zero negative
  else
    let top := ((Nat.toDigits 10 digits).length : Int) + exponent
    if 400 < top then .infinite negative
    else if top < -400 then zero negative
    else ofRatio negative (digits * tenTo exponent.toNat) (tenTo (-exponent).toNat)

end Binary64

end ClassChart
