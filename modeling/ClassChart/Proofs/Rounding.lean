import ClassChart.Number.Shortest
import Mathlib.Algebra.Order.Floor.Semifield
import Mathlib.Data.Int.Log
import Mathlib.Data.Rat.Floor
import Mathlib.Tactic.FieldSimp
import Mathlib.Tactic.Linarith
import Mathlib.Tactic.NormNum
import Mathlib.Tactic.Positivity
import Mathlib.Tactic.Ring

/-!
# The number nearest to a decimal

Reading a decimal works on the numerator and the denominator of a fraction. What is read depends on
the value of the fraction only, so that two decimals of the same value read as the same number. The
result is one that the format has, and a number that the format has reads as itself.

## Main definitions

* `roundEven`, `exponentOf`, `nearest`: rounding as a function of the value
* `IsProper`: the numbers that the format has
* `value`: the value of a finite number without its sign

## Main results

* `ofRatio_eq`: reading a fraction is rounding its value
* `ofDecimal_congr`: decimals of the same value read as the same number
* `ofDecimal_isProper`: what is read is a number of the format
* `ofDecimal_shortest`: the shortest decimal of a number reads as the number
-/

namespace ClassChart.Binary64

/-! ## Rounding by value -/

/-- The natural number nearest to a fraction, the even one of two. -/
def roundEven (q : ℚ) : Nat :=
  if 1 < 2 * (q - ⌊q⌋₊) ∨ 2 * (q - ⌊q⌋₊) = 1 ∧ ⌊q⌋₊ % 2 = 1 then ⌊q⌋₊ + 1 else ⌊q⌋₊

/-- The exponent at which the whole part of a fraction has 53 binary digits, or the least one. -/
def exponentOf (q : ℚ) : Int :=
  max minExponent (Int.log 2 q - 52)

/-- The number with a mantissa of at most `2 ^ 53`, or an infinity if its exponent is too great. -/
def normalized (negative : Bool) (mantissa : Nat) (exponent : Int) : Binary64 :=
  let carried := if mantissa = 2 ^ 53 then (2 ^ 52, exponent + 1) else (mantissa, exponent)
  if maxExponent < carried.2 then .infinite negative else .finite negative carried.1 carried.2

/-- The number nearest to a positive fraction. -/
def nearest (negative : Bool) (q : ℚ) : Binary64 :=
  normalized negative (roundEven (q / 2 ^ exponentOf q)) (exponentOf q)

theorem roundRatio_eq (num : Nat) {den : Nat} (hden : 0 < den) :
    roundRatio num den = roundEven (num / den) := by
  have hden' : (0 : ℚ) < den := by exact_mod_cast hden
  have hrest : 2 * ((num : ℚ) / den - (num / den : Nat)) = (2 * (num % den) : Nat) / den := by
    have hsplit : (num : ℚ) = den * (num / den : Nat) + (num % den : Nat) := by
      exact_mod_cast (Nat.div_add_mod num den).symm
    push_cast
    rw [eq_div_iff hden'.ne', mul_assoc, sub_mul, div_mul_cancel₀ _ hden'.ne']
    linarith
  rw [roundRatio, roundEven, Nat.floor_div_eq_div, hrest]
  simp only [lt_div_iff₀ hden', div_eq_iff hden'.ne', one_mul, Nat.cast_lt, Nat.cast_inj,
    Bool.or_eq_true, Bool.and_eq_true, decide_eq_true_eq, beq_iff_eq]

theorem scaleRatio_pos (num : Nat) {den : Nat} (hden : 0 < den) (exponent : Int) :
    0 < (scaleRatio num den exponent).2 :=
  Nat.mul_pos hden (Nat.pow_pos Nat.two_pos)

/-- Scaling divides the value by a power of two. -/
theorem scaleRatio_eq (num den : Nat) (exponent : Int) :
    ((scaleRatio num den exponent).1 : ℚ) / (scaleRatio num den exponent).2 =
      num / den / 2 ^ exponent := by
  have hpow (n : Nat) : ((twoTo n : Nat) : ℚ) = 2 ^ n := by
    simp [twoTo]
  simp only [scaleRatio, Nat.cast_mul, hpow]
  -- one of the two powers is one
  rcases Int.le_total 0 exponent with h | h
  · obtain ⟨n, rfl⟩ := Int.eq_ofNat_of_zero_le h
    simp [div_div]
  · obtain ⟨n, hn⟩ := Int.eq_ofNat_of_zero_le (Int.neg_nonneg.mpr h)
    obtain rfl : exponent = -n := by omega
    simp
    ring

theorem two_zpow_le_iff {q : ℚ} (hq : 0 < q) {k : Int} : 2 ^ k ≤ q ↔ k ≤ Int.log 2 q := by
  exact_mod_cast Int.zpow_le_iff_le_log (b := 2) one_lt_two hq

theorem lt_two_zpow_iff {q : ℚ} (hq : 0 < q) {k : Int} : q < 2 ^ k ↔ Int.log 2 q < k := by
  exact_mod_cast Int.lt_zpow_iff_log_lt (b := 2) one_lt_two hq

/-- The binary logarithm of a fraction from those of its parts. -/
theorem log_div {num den : Nat} (hnum : 0 < num) (hden : 0 < den) :
    Int.log 2 ((num : ℚ) / den) =
      if (num : ℚ) / den < 2 ^ ((num.log2 : Int) - den.log2) then (num.log2 : Int) - den.log2 - 1
      else (num.log2 : Int) - den.log2 := by
  have hnum' : (0 : ℚ) < num := by exact_mod_cast hnum
  have hden' : (0 : ℚ) < den := by exact_mod_cast hden
  have hq : (0 : ℚ) < num / den := div_pos hnum' hden'
  have hnumLow : (2 : ℚ) ^ num.log2 ≤ num := by exact_mod_cast Nat.log2_self_le hnum.ne'
  have hnumHigh : (num : ℚ) < 2 ^ (num.log2 + 1) := by exact_mod_cast Nat.lt_log2_self
  have hdenLow : (2 : ℚ) ^ den.log2 ≤ den := by exact_mod_cast Nat.log2_self_le hden.ne'
  have hdenHigh : (den : ℚ) < 2 ^ (den.log2 + 1) := by exact_mod_cast Nat.lt_log2_self
  generalize num.log2 = a at *
  generalize den.log2 = b at *
  -- the quotient lies between two powers of two that are two apart
  have hlow : (2 : ℚ) ^ ((a : Int) - b - 1) ≤ num / den := by
    rw [show (a : Int) - b - 1 = (a : Int) - (b + 1 : Nat) by push_cast; ring,
      zpow_sub₀ two_ne_zero, zpow_natCast, zpow_natCast]
    exact div_le_div₀ hnum'.le hnumLow hden' hdenHigh.le
  have hhigh : (num : ℚ) / den < 2 ^ ((a : Int) - b + 1) := by
    rw [show (a : Int) - b + 1 = (a + 1 : Nat) - (b : Int) by push_cast; ring,
      zpow_sub₀ two_ne_zero, zpow_natCast, zpow_natCast]
    exact div_lt_div₀ hnumHigh hdenLow (by positivity) (by positivity)
  have hlow' := (two_zpow_le_iff hq).mp hlow
  have hhigh' := (lt_two_zpow_iff hq).mp hhigh
  split
  · rename_i h
    have := (lt_two_zpow_iff hq).mp h
    omega
  · rename_i h
    have := (two_zpow_le_iff hq).mp (not_lt.mp h)
    omega

theorem exponentFor_eq {num den : Nat} (hnum : 0 < num) (hden : 0 < den) :
    exponentFor num den = exponentOf (num / den) := by
  have hguess : (scaleRatio num den (num.log2 - den.log2 - 52)).1 /
        (scaleRatio num den (num.log2 - den.log2 - 52)).2 < twoTo 52 ↔
      (num : ℚ) / den < 2 ^ ((num.log2 : Int) - den.log2) := by
    have hpos := scaleRatio_pos num hden (num.log2 - den.log2 - 52)
    have hpos' : (0 : ℚ) < (scaleRatio num den (num.log2 - den.log2 - 52)).2 := by
      exact_mod_cast hpos
    rw [Nat.div_lt_iff_lt_mul hpos, ← Nat.cast_lt (α := ℚ), Nat.cast_mul, ← div_lt_iff₀ hpos',
      scaleRatio_eq, div_lt_iff₀ (zpow_pos two_pos _)]
    have hcast : ((twoTo 52 : Nat) : ℚ) = 2 ^ (52 : Int) := by norm_num [twoTo]
    rw [hcast, ← zpow_add₀ two_ne_zero, add_sub_cancel]
  rw [exponentFor, exponentOf, log_div hnum hden]
  simp only [hguess]
  split <;> split <;> omega

/-- **Reading a fraction is rounding its value.** -/
theorem ofRatio_eq (negative : Bool) {num den : Nat} (hnum : 0 < num) (hden : 0 < den) :
    ofRatio negative num den = nearest negative (num / den) := by
  rw [ofRatio, exponentFor_eq hnum hden, nearest]
  simp only [roundRatio_eq _ (scaleRatio_pos num hden _), scaleRatio_eq]
  rfl

/-! ## The numbers of the format -/

/-- The numbers that the format has. -/
def IsProper : Binary64 → Prop
  | .finite _ mantissa exponent =>
    mantissa < 2 ^ 53 ∧ minExponent ≤ exponent ∧ exponent ≤ maxExponent ∧
      (mantissa < 2 ^ 52 → exponent = minExponent)
  | _ => True

instance (x : Binary64) : Decidable x.IsProper :=
  match x with
  | .nan => isTrue trivial
  | .infinite _ => isTrue trivial
  | .finite _ mantissa exponent => inferInstanceAs (Decidable (mantissa < 2 ^ 53 ∧
      minExponent ≤ exponent ∧ exponent ≤ maxExponent ∧ (mantissa < 2 ^ 52 → exponent = minExponent)))

theorem le_roundEven {q : ℚ} {n : Nat} (h : n ≤ q) : n ≤ roundEven q := by
  have hfloor : n ≤ ⌊q⌋₊ := Nat.le_floor h
  unfold roundEven
  split <;> omega

theorem roundEven_le {q : ℚ} {n : Nat} (hq : 0 ≤ q) (h : q < n) : roundEven q ≤ n := by
  have hfloor : ⌊q⌋₊ < n := (Nat.floor_lt hq).mpr h
  unfold roundEven
  split <;> omega

@[simp]
theorem roundEven_natCast (n : Nat) : roundEven n = n := by
  simp [roundEven]

/-- At its exponent a fraction is below `2 ^ 53`. -/
theorem scaled_lt {q : ℚ} (hq : 0 < q) : q / 2 ^ exponentOf q < (2 ^ 53 : Nat) := by
  have hlog : Int.log 2 q < 53 + exponentOf q := by
    rw [exponentOf]
    omega
  have hpow : (2 : ℚ) ^ (53 + exponentOf q) = (2 ^ 53 : Nat) * 2 ^ exponentOf q := by
    rw [zpow_add₀ two_ne_zero]
    norm_num
  rw [div_lt_iff₀ (zpow_pos two_pos _), ← hpow]
  exact (lt_two_zpow_iff hq).mpr hlog

/-- At an exponent that is not the least one it is not below `2 ^ 52`. -/
theorem le_scaled {q : ℚ} (hq : 0 < q) (h : minExponent < exponentOf q) :
    (2 ^ 52 : Nat) ≤ q / 2 ^ exponentOf q := by
  have hlog : 52 + exponentOf q ≤ Int.log 2 q := by
    rw [exponentOf] at h ⊢
    omega
  have hpow : (2 : ℚ) ^ (52 + exponentOf q) = (2 ^ 52 : Nat) * 2 ^ exponentOf q := by
    rw [zpow_add₀ two_ne_zero]
    norm_num
  rw [le_div_iff₀ (zpow_pos two_pos _), ← hpow]
  exact (two_zpow_le_iff hq).mpr hlog

theorem nearest_isProper (negative : Bool) {q : ℚ} (hq : 0 < q) :
    (nearest negative q).IsProper := by
  have hscaled : 0 < q / 2 ^ exponentOf q := div_pos hq (zpow_pos two_pos _)
  have hhigh := roundEven_le hscaled.le (scaled_lt hq)
  have hlow (h : minExponent < exponentOf q) := le_roundEven (le_scaled hq h)
  have hmin : minExponent ≤ exponentOf q := le_max_left _ _
  rw [nearest]
  generalize roundEven (q / 2 ^ exponentOf q) = mantissa at hhigh hlow
  generalize exponentOf q = exponent at hlow hmin
  unfold normalized
  -- rounding may carry into a 54th bit, and then the exponent goes up by one
  by_cases hcarry : mantissa = 2 ^ 53
  · simp only [hcarry, if_true]
    split
    · trivial
    · exact ⟨by norm_num, by omega, by omega, fun h => absurd h (lt_irrefl _)⟩
  · simp only [hcarry, if_false]
    split
    · trivial
    · refine ⟨by omega, hmin, by omega, fun h => ?_⟩
      by_contra hne
      have := hlow (by omega)
      omega

/-- The value of a finite number without its sign. -/
def value (mantissa : Nat) (exponent : Int) : ℚ :=
  mantissa * 2 ^ exponent

theorem value_pos {mantissa : Nat} (h : 0 < mantissa) (exponent : Int) :
    0 < value mantissa exponent :=
  mul_pos (by exact_mod_cast h) (zpow_pos two_pos _)

/-- The exponent of a proper number is that of its value. -/
theorem exponentOf_value {negative : Bool} {mantissa : Nat} {exponent : Int}
    (hpos : 0 < mantissa) (h : (finite negative mantissa exponent).IsProper) :
    exponentOf (value mantissa exponent) = exponent := by
  obtain ⟨hlt, hmin, -, hsmall⟩ := h
  have hvalue := value_pos hpos exponent
  have hbelow : Int.log 2 (value mantissa exponent) < 53 + exponent := by
    rw [← lt_two_zpow_iff hvalue, value, zpow_add₀ two_ne_zero]
    have : (mantissa : ℚ) < 2 ^ (53 : Int) := by exact_mod_cast hlt
    exact mul_lt_mul_of_pos_right this (zpow_pos two_pos _)
  rw [exponentOf]
  -- a mantissa that is not full has the least exponent
  by_cases hleast : mantissa < 2 ^ 52
  · have := hsmall hleast
    omega
  · have habove : 52 + exponent ≤ Int.log 2 (value mantissa exponent) := by
      rw [← two_zpow_le_iff hvalue, value, zpow_add₀ two_ne_zero]
      have : (2 : ℚ) ^ (52 : Int) ≤ mantissa := by exact_mod_cast not_lt.mp hleast
      exact mul_le_mul_of_nonneg_right this (zpow_pos two_pos _).le
    omega

/-- A proper number is the one nearest to its value. -/
theorem nearest_value {negative : Bool} {mantissa : Nat} {exponent : Int}
    (hpos : 0 < mantissa) (h : (finite negative mantissa exponent).IsProper) :
    nearest negative (value mantissa exponent) = .finite negative mantissa exponent := by
  have hscaled : value mantissa exponent / 2 ^ exponent = mantissa := by
    rw [value, mul_div_cancel_right₀ _ (zpow_pos two_pos exponent).ne']
  obtain ⟨hlt, -, hmax, -⟩ := id h
  rw [nearest, exponentOf_value hpos h, hscaled, roundEven_natCast, normalized]
  simp only [hlt.ne, if_false, not_lt.mpr hmax]

/-! ## Decimals -/

/-- The value of a decimal. -/
def decimalValue (digits : Nat) (exponent : Int) : ℚ :=
  digits * 10 ^ exponent

theorem decimalValue_pos {digits : Nat} (h : 0 < digits) (exponent : Int) :
    0 < decimalValue digits exponent :=
  mul_pos (by exact_mod_cast h) (zpow_pos (by norm_num) _)

/-- The number of digits of a decimal says between which powers of ten it lies. -/
theorem log_decimalValue {digits : Nat} (h : 0 < digits) (exponent : Int) :
    Int.log 10 (decimalValue digits exponent) + 1 =
      ((Nat.toDigits 10 digits).length : Int) + exponent := by
  have hpos := decimalValue_pos h exponent
  have hten : (0 : ℚ) < 10 ^ exponent := zpow_pos (by norm_num) _
  have hlength := Nat.length_toDigits_pos (b := 10) (n := digits)
  generalize hn : (Nat.toDigits 10 digits).length = n at hlength
  -- with `n` digits a number lies between the powers `n - 1` and `n` of ten
  have hlow : (10 : ℚ) ^ (((n : Int) + exponent) - 1) ≤ decimalValue digits exponent := by
    have hle : 10 ^ (n - 1) ≤ digits := by
      rcases Nat.eq_zero_or_pos (n - 1) with hzero | hn'
      · rw [hzero]
        exact h
      · by_contra hlt
        have := (Nat.length_toDigits_le_iff (b := 10) (by norm_num) hn').mpr (not_le.mp hlt)
        omega
    rw [show (n : Int) + exponent - 1 = (n - 1 : Nat) + exponent by omega,
      zpow_add₀ (by norm_num), zpow_natCast]
    exact mul_le_mul_of_nonneg_right (by exact_mod_cast hle) hten.le
  have hhigh : decimalValue digits exponent < 10 ^ ((n : Int) + exponent) := by
    have hlt := (Nat.length_toDigits_le_iff (b := 10) (by norm_num) hlength).mp hn.le
    rw [zpow_add₀ (by norm_num), zpow_natCast]
    exact mul_lt_mul_of_pos_right (by exact_mod_cast hlt) hten
  have hlow' := (Int.zpow_le_iff_le_log (b := 10) (by norm_num) hpos).mp (by simpa using hlow)
  have hhigh' := (Int.lt_zpow_iff_log_lt (b := 10) (by norm_num) hpos).mp (by simpa using hhigh)
  omega

/-- The number that a decimal reads as, by its value. -/
def ofValue (negative : Bool) (q : ℚ) : Binary64 :=
  if 400 < Int.log 10 q + 1 then .infinite negative
  else if Int.log 10 q + 1 < -400 then zero negative
  else nearest negative q

/-- **Reading a decimal depends on its value only.** -/
theorem ofDecimal_eq (negative : Bool) {digits : Nat} (h : 0 < digits) (exponent : Int) :
    ofDecimal negative digits exponent = ofValue negative (decimalValue digits exponent) := by
  have hratio : ((digits * tenTo exponent.toNat : Nat) : ℚ) / (tenTo (-exponent).toNat : Nat) =
      decimalValue digits exponent := by
    have hpow (n : Nat) : ((tenTo n : Nat) : ℚ) = 10 ^ n := by simp [tenTo]
    rw [decimalValue, Nat.cast_mul, hpow, hpow]
    rcases Int.le_total 0 exponent with hexp | hexp
    · obtain ⟨n, rfl⟩ := Int.eq_ofNat_of_zero_le hexp
      simp
    · obtain ⟨n, hn⟩ := Int.eq_ofNat_of_zero_le (Int.neg_nonneg.mpr hexp)
      obtain rfl : exponent = -n := by omega
      simp [div_eq_mul_inv]
  have hten (n : Nat) : 0 < tenTo n := Nat.pow_pos (by norm_num)
  rw [ofDecimal, if_neg h.ne', ofValue, log_decimalValue h,
    ofRatio_eq negative (Nat.mul_pos h (hten _)) (hten _), hratio]

/-- Decimals of the same value read as the same number. -/
theorem ofDecimal_congr (negative : Bool) {digits digits' : Nat} {exponent exponent' : Int}
    (h : decimalValue digits exponent = decimalValue digits' exponent') :
    ofDecimal negative digits exponent = ofDecimal negative digits' exponent' := by
  have hzero (n : Nat) (e : Int) : decimalValue n e = 0 ↔ n = 0 := by
    rw [decimalValue, mul_eq_zero, or_iff_left (zpow_pos (by norm_num) e).ne', Nat.cast_eq_zero]
  rcases Nat.eq_zero_or_pos digits with rfl | hpos
  · have hdigits' : digits' = 0 := by
      rw [← hzero digits' exponent', ← h, hzero]
    rw [hdigits', ofDecimal, ofDecimal, if_pos rfl, if_pos rfl]
  · have hpos' : 0 < digits' := by
      rw [Nat.pos_iff_ne_zero, Ne, ← hzero digits' exponent', ← h, hzero]
      exact hpos.ne'
    rw [ofDecimal_eq negative hpos, ofDecimal_eq negative hpos', h]

theorem zero_isProper (negative : Bool) : (zero negative).IsProper := by
  cases negative <;> decide

/-- **What is read is a number of the format.** -/
theorem ofDecimal_isProper (negative : Bool) (digits : Nat) (exponent : Int) :
    (ofDecimal negative digits exponent).IsProper := by
  rcases Nat.eq_zero_or_pos digits with rfl | hpos
  · exact zero_isProper negative
  · rw [ofDecimal_eq negative hpos, ofValue]
    split
    · trivial
    split
    · exact zero_isProper negative
    · exact nearest_isProper negative (decimalValue_pos hpos exponent)

/-! ## The shortest decimal -/

theorem five_pow_mul_ten_zpow (n : Nat) : (5 : ℚ) ^ n * 10 ^ (-n : Int) = 2 ^ (-n : Int) := by
  have hten : (10 : ℚ) ^ n = 2 ^ n * 5 ^ n := by
    rw [← mul_pow]
    norm_num
  rw [zpow_neg, zpow_neg, zpow_natCast, zpow_natCast, hten]
  field_simp

/-- A number of halves, `k` times over, is a number of tenths as many times over. -/
theorem decimalValue_five_pow (mantissa n k : Nat) :
    decimalValue (mantissa * twoTo n * Nat.pow 5 k) (-k) = value mantissa (n + -k) := by
  have hfive : ((Nat.pow 5 k : Nat) : ℚ) = 5 ^ k := Nat.cast_pow 5 k
  have htwo : ((twoTo n : Nat) : ℚ) = 2 ^ n := Nat.cast_pow 2 n
  rw [decimalValue, value, Nat.cast_mul, Nat.cast_mul, hfive, htwo, mul_assoc,
    five_pow_mul_ten_zpow, mul_assoc, zpow_add₀ two_ne_zero, zpow_natCast]

/-- The digits of the exact decimal. The power is a variable, so that it is not computed. -/
theorem exists_scaledValue_eq (mantissa : Nat) (exponent : Int) :
    ∃ k : Nat, (k : Int) = 1074 ∧ scaledValue mantissa exponent =
      mantissa * twoTo (exponent - minExponent).toNat * Nat.pow 5 k := by
  refine ⟨_, ?_, scaledValue.eq_1 mantissa exponent⟩
  rfl

/-- The exact decimal of a number. -/
theorem decimalValue_scaledValue (mantissa : Nat) {exponent : Int} (h : minExponent ≤ exponent) :
    decimalValue (scaledValue mantissa exponent) (-1074) = value mantissa exponent := by
  obtain ⟨k, hk, hscaled⟩ := exists_scaledValue_eq mantissa exponent
  obtain ⟨n, hn⟩ := Int.eq_ofNat_of_zero_le (Int.sub_nonneg_of_le h)
  have hexponent : exponent = n + -k := by
    rw [minExponent] at hn
    omega
  rw [hscaled, hn, Int.toNat_natCast, ← hk, decimalValue_five_pow, ← hexponent]

theorem scaledValue_pos {mantissa : Nat} (h : 0 < mantissa) (exponent : Int) :
    0 < scaledValue mantissa exponent := by
  obtain ⟨k, -, hscaled⟩ := exists_scaledValue_eq mantissa exponent
  rw [hscaled]
  exact Nat.mul_pos (Nat.mul_pos h (Nat.pow_pos Nat.two_pos)) (Nat.pow_pos (Nat.succ_pos 4))

/-- Thirteen binary digits are fewer than four decimal ones. -/
theorem two_zpow_le_ten_zpow : (2 : ℚ) ^ (1300 : Int) ≤ 10 ^ (400 : Int) := by
  have h : ((2 : ℚ) ^ 13) ^ 100 ≤ (10 ^ 4) ^ 100 := pow_le_pow_left₀ (by norm_num) (by norm_num) 100
  rwa [← pow_mul, ← pow_mul, ← zpow_natCast, ← zpow_natCast] at h

/-- The value of a proper number lies well within the range of decimals that are not settled by their
length. -/
theorem log_value_bounds {negative : Bool} {mantissa : Nat} {exponent : Int}
    (hpos : 0 < mantissa) (h : (finite negative mantissa exponent).IsProper) :
    -400 ≤ Int.log 10 (value mantissa exponent) ∧ Int.log 10 (value mantissa exponent) < 400 := by
  obtain ⟨hlt, hmin, hmax, -⟩ := h
  have hvalue := value_pos hpos exponent
  have hmantissa : (mantissa : ℚ) < 2 ^ (53 : Int) := by exact_mod_cast hlt
  rw [minExponent] at hmin
  rw [maxExponent] at hmax
  constructor
  · apply (Int.zpow_le_iff_le_log (b := 10) (by norm_num) hvalue).mp
    calc ((10 : Nat) : ℚ) ^ (-400 : Int) ≤ 2 ^ (-1300 : Int) := by
          rw [zpow_neg, zpow_neg]
          exact inv_anti₀ (zpow_pos two_pos _) two_zpow_le_ten_zpow
      _ ≤ 2 ^ exponent := zpow_le_zpow_right₀ one_le_two (by omega)
      _ ≤ value mantissa exponent :=
        le_mul_of_one_le_left (zpow_pos two_pos _).le (by exact_mod_cast hpos)
  · apply (Int.lt_zpow_iff_log_lt (b := 10) (by norm_num) hvalue).mp
    calc value mantissa exponent < 2 ^ (53 : Int) * 2 ^ exponent :=
          mul_lt_mul_of_pos_right hmantissa (zpow_pos two_pos _)
      _ = 2 ^ (53 + exponent) := (zpow_add₀ two_ne_zero _ _).symm
      _ ≤ 2 ^ (1300 : Int) := zpow_le_zpow_right₀ one_le_two (by omega)
      _ ≤ ((10 : Nat) : ℚ) ^ (400 : Int) := two_zpow_le_ten_zpow

/-- **The shortest decimal of a number reads as the number**: the first that does is looked for, and
the exact decimal would do. -/
theorem ofDecimal_shortest {negative : Bool} {mantissa : Nat} {exponent : Int}
    (hpos : 0 < mantissa) (h : (finite negative mantissa exponent).IsProper) :
    ofDecimal negative (shortest negative mantissa exponent).digits
      (shortest negative mantissa exponent).exponent = .finite negative mantissa exponent := by
  -- written with all its digits, the number reads as itself
  have hexact : ofDecimal negative (scaledValue mantissa exponent) (-1074) =
      .finite negative mantissa exponent := by
    have hvalue := decimalValue_scaledValue mantissa h.2.1
    obtain ⟨hlow, hhigh⟩ := log_value_bounds hpos h
    rw [ofDecimal_eq negative (scaledValue_pos hpos exponent), hvalue, ofValue, if_neg (by omega), if_neg (by omega),
      nearest_value hpos h]
  rw [shortest]
  generalize (List.range 17).flatMap _ = tries
  cases hfind : tries.find? fun d : Decimal =>
      ofDecimal negative d.digits d.exponent == .finite negative mantissa exponent with
  | none => exact hexact
  | some d =>
    have hreads := List.find?_some hfind
    exact beq_iff_eq.mp hreads

end ClassChart.Binary64
