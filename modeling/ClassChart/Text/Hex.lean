/-!
# Hexadecimal digits

## Main definitions

* `hexDigit`: the lower-case digit of a number below sixteen.
* `hex`: the last `width` hexadecimal digits of a number, with leading zeros.
* `hexValue?`: the value of a hexadecimal digit in either case.
-/

namespace ClassChart.Text

/-- The digit for `n`, of which only the last four bits count. -/
def hexDigit (n : Nat) : Char :=
  let d := n % 16
  if d < 10 then Char.ofNat (0x30 + d) else Char.ofNat (0x61 + (d - 10))

/-- The last `width` hexadecimal digits of `n`. -/
def hex : (width n : Nat) → List Char
  | 0, _ => []
  | w + 1, n => hex w (n / 16) ++ [hexDigit n]

/-- The value of a hexadecimal digit. -/
def hexValue? (c : Char) : Option Nat :=
  if '0' ≤ c ∧ c ≤ '9' then some (c.toNat - 0x30)
  else if 'a' ≤ c ∧ c ≤ 'f' then some (c.toNat - 0x61 + 10)
  else if 'A' ≤ c ∧ c ≤ 'F' then some (c.toNat - 0x41 + 10)
  else none

end ClassChart.Text
