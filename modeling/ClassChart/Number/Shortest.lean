import ClassChart.Number.Binary64

/-!
# The shortest decimal of a floating point number

A floating point number is written with the fewest significant digits that read back as it. For
each number of digits the two decimals around the exact value are tried, the nearer one first. Of
two that are equally near, the one with an even last digit comes first.

## Main definitions

* `Decimal`: a whole number of digits and the power of ten it is scaled by.
* `Binary64.shortest`: the shortest decimal that reads back as the given number.
-/

namespace ClassChart

/-- The decimal `digits * 10 ^ exponent`. -/
structure Decimal where
  digits : Nat
  exponent : Int
  deriving DecidableEq, Repr

namespace Binary64

/-- The value of a finite number times `10 ^ 1074`, which is always whole. -/
def scaledValue (mantissa : Nat) (exponent : Int) : Nat :=
  mantissa * twoTo (exponent - minExponent).toNat * Nat.pow 5 1074

/-- The two decimals around a scaled value that leave out its last `spare` digits, the nearer one
first, or the even one if they are equally near. -/
def neighbours (scaled spare : Nat) : List Decimal :=
  let unit := tenTo spare
  let low := scaled / unit
  let rest := 2 * (scaled % unit)
  let nearest := if rest < unit || (rest == unit && low % 2 == 0) then [low, low + 1]
    else [low + 1, low]
  nearest.map fun digits => ⟨digits, (spare : Int) - 1074⟩

/-- The first of the neighbours with 1, 2, … 17 digits that reads back as the finite number. -/
def shortest (negative : Bool) (mantissa : Nat) (exponent : Int) : Decimal :=
  let scaled := scaledValue mantissa exponent
  let length := (Nat.toDigits 10 scaled).length
  let tries := (List.range 17).flatMap fun n => neighbours scaled (length - (n + 1))
  let readsBack := fun d : Decimal =>
    ofDecimal negative d.digits d.exponent == .finite negative mantissa exponent
  (tries.find? readsBack).getD ⟨scaled, -1074⟩

end Binary64

end ClassChart
