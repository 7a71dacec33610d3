import ClassChart.Json.Parser
import ClassChart.Json.Printer
import ClassChart.Proofs.Rounding

/-!
# Numbers in writing and back

The text of a number, with anything behind it that does not go on with the number, is read back as
the number. A floating point number is written as a numeral of the value of its shortest decimal,
and a numeral is read as the number nearest to its value.

## Main definitions

* `Ends`: what may stand behind a number
* `Numeral`: digits before a point, digits after it, and an exponent

## Main results

* `number_intText`: whole numbers are read back
* `unsigned_numeral`: a numeral is read as the number nearest to its value
* `number_finite`: proper finite numbers are read back
-/

namespace ClassChart.Json

/-! ## Digits -/

/-- No digit comes next. -/
def NoDigit (rest : List Char) : Prop :=
  ∀ c ∈ rest.head?, c.isDigit = false

/-- What comes next does not go on with a number. -/
def Ends (rest : List Char) : Prop :=
  ∀ c ∈ rest.head?, c.isDigit = false ∧ c ≠ '.' ∧ c ≠ 'e' ∧ c ≠ 'E'

theorem Ends.noDigit {rest : List Char} (h : Ends rest) : NoDigit rest :=
  fun c hc => (h c hc).1

theorem digits_append {ds rest : List Char} (hds : ∀ c ∈ ds, c.isDigit = true)
    (hrest : NoDigit rest) : digits (ds ++ rest) = (ds, rest) := by
  rw [digits, List.takeWhile_append_of_pos hds, List.dropWhile_append_of_pos hds]
  cases rest with
  | nil => simp
  | cons c rest =>
    have hc : c.isDigit = false := hrest c rfl
    simp [hc]

theorem digitsValue_eq (ds : List Char) : digitsValue ds = Nat.ofDigitChars 10 ds 0 := by
  rw [digitsValue, Nat.ofDigitChars_eq_foldl]
  simp only [Nat.mul_comm]
  rfl

theorem digitsValue_append (ds es : List Char) :
    digitsValue (ds ++ es) = digitsValue ds * 10 ^ es.length + digitsValue es := by
  rw [digitsValue_eq, digitsValue_eq, digitsValue_eq, Nat.ofDigitChars_append,
    Nat.ofDigitChars_eq_ofDigitChars_zero, Nat.mul_comm]

@[simp]
theorem digitsValue_zeros (n : Nat) : digitsValue (List.replicate n '0') = 0 := by
  rw [digitsValue_eq, Nat.ofDigitChars_replicate_zero, Nat.mul_zero]

theorem isDigit_of_mem_zeros {n : Nat} (c : Char) (h : c ∈ List.replicate n '0') :
    c.isDigit = true := by
  rw [List.eq_of_mem_replicate h]
  decide

@[simp]
theorem digitsValue_toDigits (n : Nat) : digitsValue (Nat.toDigits 10 n) = n := by
  rw [digitsValue_eq, Nat.ofDigitChars_ten_toDigits]

/-- Digits of a whole number in writing: a zero alone, or digits of which the first is not zero. -/
def IsWhole : List Char → Prop
  | [] => False
  | c :: cs => (∀ d ∈ c :: cs, d.isDigit = true) ∧ (c = '0' → cs = [])

theorem wholeDigits?_append {ds rest : List Char} (h : IsWhole ds) (hrest : NoDigit rest) :
    wholeDigits? (ds ++ rest) = some (ds, rest) := by
  cases ds with
  | nil => exact h.elim
  | cons c cs =>
    by_cases hc : c = '0'
    · rw [hc, h.2 hc]
      rfl
    · have hdigit := h.1 c List.mem_cons_self
      have hdigits := digits_append h.1 hrest
      rw [List.cons_append] at hdigits ⊢
      rw [wholeDigits?, if_pos hdigit, hdigits]
      exact hc

/-- The digits of a number do not start with a zero, unless it is zero. -/
theorem head_toDigits {n : Nat} (h : 0 < n) : ∃ c cs, Nat.toDigits 10 n = c :: cs ∧ c ≠ '0' := by
  induction n using Nat.strongRecOn with
  | _ n ih =>
    rw [Nat.toDigits_eq_if (by decide)]
    split
    · exact ⟨n.digitChar, [], rfl, by rw [Ne, Nat.digitChar_eq_zero]; omega⟩
    · obtain ⟨c, cs, hcs, hc⟩ := ih (n / 10) (by omega) (by omega)
      exact ⟨c, cs ++ [(n % 10).digitChar], by rw [hcs, List.cons_append], hc⟩

theorem isDigit_toDigits (n : Nat) : ∀ c ∈ Nat.toDigits 10 n, c.isDigit = true :=
  fun _ hc => Nat.isDigit_of_mem_toDigits (by decide) (by decide) hc

theorem isWhole_toDigits (n : Nat) : IsWhole (Nat.toDigits 10 n) := by
  have hdigits := isDigit_toDigits n
  rcases Nat.eq_zero_or_pos n with rfl | hn
  · exact ⟨by simp, fun _ => rfl⟩
  · obtain ⟨c, cs, hcs, hc⟩ := head_toDigits hn
    rw [hcs] at hdigits ⊢
    exact ⟨hdigits, fun h => absurd h hc⟩

/-! ## Whole numbers -/

theorem fractionDigits_of_ends {rest : List Char} (h : Ends rest) :
    fractionDigits rest = ([], rest) := by
  cases rest with
  | nil => rfl
  | cons c rest =>
    have hc := h c rfl
    rw [fractionDigits]
    exact fun _ heq => hc.2.1 (List.cons.inj heq).1

theorem exponent?_of_ends {rest : List Char} (h : Ends rest) : exponent? rest = (none, rest) := by
  cases rest with
  | nil => rfl
  | cons c rest =>
    have hc := h c rfl
    rw [exponent?, if_neg (by rintro (h | h) <;> simp [h] at hc)]

theorem number_minus (cs : List Char) : number ('-' :: cs) = unsigned true cs := rfl

/-- A number without a sign is read as such. -/
theorem number_of_isWhole {ds : List Char} (h : IsWhole ds) (rest : List Char) :
    number (ds ++ rest) = unsigned false (ds ++ rest) := by
  cases ds with
  | nil => exact h.elim
  | cons c cs =>
    have hdigit := h.1 c List.mem_cons_self
    rw [List.cons_append, number]
    rintro cs' heq
    rw [(List.cons.inj heq).1] at hdigit
    exact absurd hdigit (by decide)

/-- A number by what is read of it. -/
theorem unsigned_of_parts (negative : Bool) {cs whole fraction rest₁ rest₂ rest₃ : List Char}
    {power : Option Int} (hwhole : wholeDigits? cs = some (whole, rest₁))
    (hfraction : fractionDigits rest₁ = (fraction, rest₂))
    (hpower : exponent? rest₂ = (power, rest₃)) :
    unsigned negative cs =
      if fraction.isEmpty && power.isNone then (integer negative whole).map (·, rest₃)
      else .ok (.float (.ofDecimal negative (digitsValue (whole ++ fraction))
        (power.getD 0 - fraction.length)), rest₃) := by
  simp only [unsigned, hwhole, orMalformed, bind, Except.bind, hfraction, hpower]
  split
  · cases integer negative whole <;> rfl
  · rfl

theorem unsigned_whole (negative : Bool) {ds rest : List Char} (hds : IsWhole ds)
    (hlength : ds.length ≤ maxIntegerDigits) (hrest : Ends rest) :
    unsigned negative (ds ++ rest) =
      .ok (.int (if negative then -digitsValue ds else digitsValue ds), rest) := by
  rw [unsigned_of_parts negative (wholeDigits?_append hds hrest.noDigit)
    (fractionDigits_of_ends hrest) (exponent?_of_ends hrest), integer, if_pos hlength]
  rfl

/-- **Whole numbers are read back**, if they do not have too many digits. -/
theorem number_intText {i : Int} (h : (Nat.toDigits 10 i.natAbs).length ≤ maxIntegerDigits)
    {rest : List Char} (hrest : Ends rest) :
    number (intText i ++ rest) = .ok (.int i, rest) := by
  have hwhole := isWhole_toDigits i.natAbs
  rw [intText]
  by_cases hneg : i < 0
  · rw [if_pos hneg, List.singleton_append, List.cons_append, number_minus,
      unsigned_whole true hwhole h hrest, digitsValue_toDigits, if_pos rfl]
    congr 3
    omega
  · rw [if_neg hneg, List.nil_append, number_of_isWhole hwhole,
      unsigned_whole false hwhole h hrest, digitsValue_toDigits, if_neg Bool.false_ne_true]
    congr 3
    omega

/-! ## Numerals -/

/-- A number in writing, without its sign. -/
structure Numeral where
  whole : List Char
  fraction : List Char
  power : Option Int

namespace Numeral

/-- The fraction with the point before it. -/
def fractionText (n : Numeral) : List Char :=
  if n.fraction.isEmpty then [] else '.' :: n.fraction

/-- The exponent, if there is one. -/
def powerText (n : Numeral) : List Char :=
  n.power.elim [] Binary64.exponentText

/-- The text of a numeral. -/
def text (n : Numeral) : List Char :=
  n.whole ++ n.fractionText ++ n.powerText

/-- The digits of a numeral, without the point. -/
def digits (n : Numeral) : Nat :=
  digitsValue (n.whole ++ n.fraction)

/-- The power of ten of the last digit. -/
def scale (n : Numeral) : Int :=
  n.power.getD 0 - n.fraction.length

/-- The value of a numeral. -/
def value (n : Numeral) : ℚ :=
  Binary64.decimalValue n.digits n.scale

/-- The numerals that are read as floating point numbers. -/
structure IsProper (n : Numeral) : Prop where
  whole : IsWhole n.whole
  fraction : ∀ c ∈ n.fraction, c.isDigit = true
  notInt : n.fraction ≠ [] ∨ n.power ≠ none

end Numeral

/-- Neither a digit nor a point comes next. -/
def NoFraction (rest : List Char) : Prop :=
  ∀ c ∈ rest.head?, c.isDigit = false ∧ c ≠ '.'

theorem fractionDigits_append {n : Numeral} (h : ∀ c ∈ n.fraction, c.isDigit = true)
    {rest : List Char} (hrest : NoFraction rest) :
    fractionDigits (n.fractionText ++ rest) = (n.fraction, rest) := by
  rw [Numeral.fractionText]
  cases hfraction : n.fraction with
  | nil =>
    cases rest with
    | nil => rfl
    | cons c rest =>
      have hc := hrest c rfl
      rw [List.isEmpty_nil, if_pos rfl, List.nil_append, fractionDigits]
      exact fun _ heq => hc.2 (List.cons.inj heq).1
  | cons c cs =>
    have hdigits : digits (c :: cs ++ rest) = (c :: cs, rest) :=
      digits_append (hfraction ▸ h) fun c hc => (hrest c hc).1
    rw [List.isEmpty_cons, if_neg Bool.false_ne_true, List.cons_append, fractionDigits, hdigits]
    rfl

/-- An exponent is read back. -/
theorem exponent?_exponentText (power : Int) {rest : List Char} (hrest : NoDigit rest) :
    exponent? (Binary64.exponentText power ++ rest) = (some power, rest) := by
  have htoDigits := isDigit_toDigits power.natAbs
  have hvalue := digitsValue_toDigits power.natAbs
  have hne : Nat.toDigits 10 power.natAbs ≠ [] := Nat.toDigits_ne_nil
  simp only [Binary64.exponentText]
  -- only that zeros come first matters, not how many
  generalize 2 - (Nat.toDigits 10 power.natAbs).length = zeros
  generalize Nat.toDigits 10 power.natAbs = ds at htoDigits hvalue hne
  have hdigits : ∀ c ∈ List.replicate zeros '0' ++ ds, c.isDigit = true := fun c hc =>
    (List.mem_append.mp hc).elim (isDigit_of_mem_zeros c) (htoDigits c)
  have hempty : (List.replicate zeros '0' ++ ds).isEmpty = false := by
    simp [hne]
  have hpadded : digitsValue (List.replicate zeros '0' ++ ds) = power.natAbs := by
    rw [digitsValue_append, digitsValue_zeros, hvalue, Nat.zero_mul, Nat.zero_add]
  by_cases hneg : power < 0
  · simp only [if_pos hneg, List.cons_append, exponent?, exponentSign, true_or, if_true,
      digits_append hdigits hrest, hempty, hpadded, Bool.false_eq_true, if_false]
    congr 2
    omega
  · simp only [if_neg hneg, List.cons_append, exponent?, exponentSign, true_or, if_true,
      digits_append hdigits hrest, hempty, hpadded, Bool.false_eq_true, if_false]
    congr 2
    omega

theorem NoFraction.of_powerText (n : Numeral) {rest : List Char} (hrest : Ends rest) :
    NoFraction (n.powerText ++ rest) := by
  intro c hc
  rw [Numeral.powerText] at hc
  cases hpower : n.power with
  | none =>
    rw [hpower] at hc
    exact ⟨(hrest c hc).1, (hrest c hc).2.1⟩
  | some power =>
    rw [hpower, Option.elim_some, Binary64.exponentText] at hc
    obtain rfl : 'e' = c := by simpa using hc
    decide

theorem exponent?_powerText (n : Numeral) {rest : List Char} (hrest : Ends rest) :
    exponent? (n.powerText ++ rest) = (n.power, rest) := by
  rw [Numeral.powerText]
  cases n.power with
  | none => exact exponent?_of_ends hrest
  | some power => exact exponent?_exponentText power hrest.noDigit

/-- **A numeral is read as the number nearest to its value.** -/
theorem unsigned_numeral (negative : Bool) {n : Numeral} (h : n.IsProper) {rest : List Char}
    (hrest : Ends rest) :
    unsigned negative (n.text ++ rest) = .ok (.float (.ofDecimal negative n.digits n.scale), rest) := by
  have hpower := NoFraction.of_powerText n hrest
  have hfraction := fractionDigits_append h.fraction hpower
  have hnext : NoDigit (n.fractionText ++ (n.powerText ++ rest)) := by
    intro c hc
    rw [Numeral.fractionText] at hc
    split at hc
    · exact (hpower c hc).1
    · obtain rfl : '.' = c := by simpa using hc
      decide
  rw [Numeral.text, List.append_assoc, List.append_assoc,
    unsigned_of_parts negative (wholeDigits?_append h.whole hnext) hfraction
      (exponent?_powerText n hrest), if_neg]
  · rfl
  · -- it is not taken for an integer, as it has a fraction or an exponent
    rw [Bool.and_eq_true, List.isEmpty_iff, Option.isNone_iff_eq_none]
    rintro ⟨hnil, hnone⟩
    exact h.notInt.elim (· hnil) (· hnone)

/-! ## Floating point numbers -/

open Binary64 (decimalValue)

/-- Zeros behind the digits are a power of ten. -/
theorem digitsValue_append_zeros (ds : List Char) (n : Nat) :
    digitsValue (ds ++ List.replicate n '0') = digitsValue ds * 10 ^ n := by
  rw [digitsValue_append, digitsValue_zeros, List.length_replicate, Nat.add_zero]

/-- A power of ten can be moved from the digits to the exponent. -/
theorem decimalValue_mul_pow (digits n : Nat) (exponent : Int) :
    decimalValue (digits * 10 ^ n) exponent = decimalValue digits (exponent + n) := by
  rw [decimalValue, decimalValue, zpow_add₀ (by norm_num), zpow_natCast, Nat.cast_mul, Nat.cast_pow,
    Nat.cast_ofNat]
  ring

/-- The significant digits of a number: the first is not zero. -/
structure IsSignificant (ds : List Char) : Prop where
  isDigit : ∀ c ∈ ds, c.isDigit = true
  head : ∃ c cs, ds = c :: cs ∧ c ≠ '0'

theorem IsSignificant.take {ds : List Char} (h : IsSignificant ds) {n : Nat} (hn : 0 < n) :
    IsWhole (ds.take n) := by
  obtain ⟨c, cs, rfl, hc⟩ := h.head
  obtain ⟨m, rfl⟩ := Nat.exists_eq_succ_of_ne_zero hn.ne'
  rw [List.take_succ_cons]
  exact ⟨fun d hd => h.isDigit d (List.mem_of_mem_take (i := m + 1) hd), fun h => absurd h hc⟩

theorem IsSignificant.append_zeros {ds : List Char} (h : IsSignificant ds) (n : Nat) :
    IsWhole (ds ++ List.replicate n '0') := by
  have hdigits : ∀ c ∈ ds ++ List.replicate n '0', c.isDigit = true := fun c hc =>
    (List.mem_append.mp hc).elim (h.isDigit c) (isDigit_of_mem_zeros c)
  obtain ⟨c, cs, rfl, hc⟩ := h.head
  exact ⟨hdigits, fun h => absurd h hc⟩

/-- The digits of a decimal without the zeros they end in keep its value. -/
theorem scientific_spec {d : Decimal} (h : 0 < d.digits) :
    IsSignificant d.scientific.1 ∧
      decimalValue (digitsValue d.scientific.1) (d.scientific.2 + 1 - d.scientific.1.length) =
        decimalValue d.digits d.exponent := by
  obtain ⟨c, cs, hcs, hc⟩ := head_toDigits h
  have hdigits := isDigit_toDigits d.digits
  have hvalue := digitsValue_toDigits d.digits
  simp only [Decimal.scientific]
  generalize Nat.toDigits 10 d.digits = ds at *
  -- the digits are the significant ones with zeros behind them
  have hzeros : ∃ n, ds = (ds.reverse.dropWhile (· == '0')).reverse ++ List.replicate n '0' := by
    refine ⟨(ds.reverse.takeWhile (· == '0')).length, ?_⟩
    have htake : ds.reverse.takeWhile (· == '0') =
        List.replicate (ds.reverse.takeWhile (· == '0')).length '0' :=
      List.eq_replicate_iff.mpr ⟨rfl, fun b hb =>
        beq_iff_eq.mp (List.all_eq_true.mp List.all_takeWhile b hb)⟩
    have hsplit := congrArg List.reverse
      (List.takeWhile_append_dropWhile (p := (· == '0')) (l := ds.reverse))
    rw [List.reverse_reverse, List.reverse_append] at hsplit
    conv_lhs => rw [← hsplit, htake, List.reverse_replicate]
  obtain ⟨n, hn⟩ := hzeros
  generalize (ds.reverse.dropWhile (· == '0')).reverse = significant at hn
  refine ⟨⟨?_, ?_⟩, ?_⟩
  · intro b hb
    exact hdigits b (hn ▸ List.mem_append_left _ hb)
  · cases significant with
    | nil =>
      have hmem : c ∈ List.replicate n '0' := by
        rw [← List.nil_append (List.replicate n '0'), ← hn, hcs]
        exact List.mem_cons_self
      exact absurd (List.eq_of_mem_replicate hmem) hc
    | cons b bs =>
      rw [hcs, List.cons_append] at hn
      exact ⟨b, bs, rfl, (List.cons.inj hn).1 ▸ hc⟩
  · have hlength : ds.length = significant.length + n := by
      rw [hn, List.length_append, List.length_replicate]
    rw [← hvalue, hlength]
    conv_rhs => rw [hn, digitsValue_append_zeros, decimalValue_mul_pow]
    congr 1
    omega

/-- A text is a numeral of a value that is read as a floating point number. -/
def IsNumeralOf (text : List Char) (value : ℚ) : Prop :=
  ∃ n : Numeral, n.IsProper ∧ n.text = text ∧ n.value = value

section Positional

variable {ds : List Char} (h : IsSignificant ds)
include h

theorem IsSignificant.ne_nil : ds ≠ [] := by
  obtain ⟨c, cs, rfl, -⟩ := h.head
  exact List.cons_ne_nil c cs

/-- Below one, zeros stand between the point and the digits. -/
theorem isNumeralOf_positional_of_neg {power : Int} (hneg : power < 0) :
    IsNumeralOf (Binary64.positional ds power)
      (decimalValue (digitsValue ds) (power + 1 - ds.length)) := by
  refine ⟨⟨['0'], List.replicate (-power - 1).toNat '0' ++ ds, none⟩, ⟨?_, ?_, ?_⟩, ?_, ?_⟩
  · exact ⟨by simp, fun _ => rfl⟩
  · intro c hc
    exact (List.mem_append.mp hc).elim (isDigit_of_mem_zeros c) (h.isDigit c)
  · exact .inl (by simp [h.ne_nil])
  · simp [Numeral.text, Numeral.fractionText, Numeral.powerText, Binary64.positional, hneg,
      h.ne_nil]
  · have hdigits : digitsValue ('0' :: (List.replicate (-power - 1).toNat '0' ++ ds)) =
        digitsValue ds := by
      rw [← List.cons_append, ← List.replicate_succ, digitsValue_append, digitsValue_zeros,
        Nat.zero_mul, Nat.zero_add]
    rw [Numeral.value, Numeral.digits, Numeral.scale, List.singleton_append, hdigits]
    congr 1
    simp only [Option.getD_none, List.length_append, List.length_replicate]
    omega

/-- With all digits before the point, zeros fill the place up to it, and one stands behind it. -/
theorem isNumeralOf_positional_of_le {k : Nat} (hlength : ds.length ≤ k + 1) :
    IsNumeralOf (Binary64.positional ds k)
      (decimalValue (digitsValue ds) (k + 1 - ds.length)) := by
  have htake : (ds ++ List.replicate (k + 1 - ds.length) '0').take (k + 1) =
      ds ++ List.replicate (k + 1 - ds.length) '0' := by
    apply List.take_of_length_le
    simp
    omega
  have hdrop : (ds ++ List.replicate (k + 1 - ds.length) '0').drop (k + 1) = [] := by
    apply List.drop_of_length_le
    simp
    omega
  refine ⟨⟨ds ++ List.replicate (k + 1 - ds.length) '0', ['0'], none⟩, ⟨?_, ?_, ?_⟩, ?_, ?_⟩
  · exact h.append_zeros _
  · simp
  · exact .inl (List.cons_ne_nil _ _)
  · rw [Binary64.positional, if_neg (by omega), Int.toNat_natCast]
    simp [Numeral.text, Numeral.fractionText, Numeral.powerText, htake, hdrop]
  · -- the zero behind the point is one more zero behind the digits
    have hpad : ds ++ List.replicate (k + 1 - ds.length) '0' ++ ['0'] =
        ds ++ List.replicate (k + 1 - ds.length + 1) '0' := by
      rw [List.append_assoc, ← List.replicate_succ']
    rw [Numeral.value, Numeral.digits, Numeral.scale, hpad, digitsValue_append_zeros,
      decimalValue_mul_pow]
    congr 1
    simp only [Option.getD_none, List.length_singleton]
    omega

/-- With digits on both sides of the point, no zeros are added. -/
theorem isNumeralOf_positional_of_lt {k : Nat} (hlength : k + 1 < ds.length) :
    IsNumeralOf (Binary64.positional ds k)
      (decimalValue (digitsValue ds) (k + 1 - ds.length)) := by
  have hpad : k + 1 - ds.length = 0 := by omega
  have hdrop : ds.drop (k + 1) ≠ [] := by
    rw [Ne, List.drop_eq_nil_iff]
    omega
  refine ⟨⟨ds.take (k + 1), ds.drop (k + 1), none⟩, ⟨?_, ?_, ?_⟩, ?_, ?_⟩
  · exact h.take (Nat.succ_pos k)
  · exact fun c hc => h.isDigit c (List.mem_of_mem_drop hc)
  · exact .inl hdrop
  · rw [Binary64.positional, if_neg (by omega), Int.toNat_natCast]
    simp [Numeral.text, Numeral.fractionText, Numeral.powerText, hpad, Nat.not_le.mpr hlength]
  · rw [Numeral.value, Numeral.digits, Numeral.scale, List.take_append_drop]
    congr 1
    simp only [Option.getD_none, List.length_drop]
    omega

/-- The positional form of significant digits is a numeral of their value. -/
theorem isNumeralOf_positional (power : Int) :
    IsNumeralOf (Binary64.positional ds power)
      (decimalValue (digitsValue ds) (power + 1 - ds.length)) := by
  by_cases hneg : power < 0
  · exact isNumeralOf_positional_of_neg h hneg
  · obtain ⟨k, rfl⟩ := Int.eq_ofNat_of_zero_le (Int.not_lt.mp hneg)
    rcases Nat.lt_or_ge (k + 1) ds.length with hlength | hlength
    · exact isNumeralOf_positional_of_lt h hlength
    · exact isNumeralOf_positional_of_le h hlength

/-- The scientific form of significant digits is a numeral of their value. -/
theorem isNumeralOf_scientific (power : Int) :
    IsNumeralOf (Binary64.scientific ds power)
      (decimalValue (digitsValue ds) (power + 1 - ds.length)) := by
  refine ⟨⟨ds.take 1, ds.drop 1, some power⟩, ⟨?_, ?_, ?_⟩, rfl, ?_⟩
  · exact h.take Nat.one_pos
  · exact fun c hc => h.isDigit c (List.mem_of_mem_drop hc)
  · exact .inr (by simp)
  · rw [Numeral.value, Numeral.digits, Numeral.scale, List.take_append_drop]
    congr 1
    obtain ⟨c, cs, rfl, -⟩ := h.head
    simp only [Option.getD_some, List.length_drop, List.length_cons]
    omega

end Positional

/-- The text of a finite number is a numeral that reads as the number. -/
theorem exists_numeral_magnitudeText {negative : Bool} {mantissa : Nat} {exponent : Int}
    (h : (Binary64.finite negative mantissa exponent).IsProper) :
    ∃ n : Numeral, n.IsProper ∧ n.text = Binary64.magnitudeText negative mantissa exponent ∧
      Binary64.ofDecimal negative n.digits n.scale = .finite negative mantissa exponent := by
  rcases Nat.eq_zero_or_pos mantissa with rfl | hpos
  · -- zero has a text of its own
    have hexponent : exponent = Binary64.minExponent := h.2.2.2 (by norm_num)
    refine ⟨⟨['0'], ['0'], none⟩, ⟨⟨by simp, fun _ => rfl⟩, by simp, .inl (by simp)⟩, rfl, ?_⟩
    rw [hexponent]
    rfl
  · have hreads := Binary64.ofDecimal_shortest hpos h
    have hdigits : 0 < (Binary64.shortest negative mantissa exponent).digits := by
      by_contra hzero
      rw [Nat.eq_zero_of_not_pos hzero, Binary64.ofDecimal, if_pos rfl, Binary64.zero,
        Binary64.finite.injEq] at hreads
      omega
    obtain ⟨hsignificant, hvalue⟩ := scientific_spec hdigits
    -- both forms are numerals of the value of the shortest decimal
    have hform : IsNumeralOf (Binary64.magnitudeText negative mantissa exponent)
        (decimalValue (Binary64.shortest negative mantissa exponent).digits
          (Binary64.shortest negative mantissa exponent).exponent) := by
      rw [Binary64.magnitudeText, if_neg hpos.ne', ← hvalue]
      simp only
      split
      · exact isNumeralOf_positional hsignificant _
      · exact isNumeralOf_scientific hsignificant _
    obtain ⟨n, hproper, htext, hn⟩ := hform
    exact ⟨n, hproper, htext, (Binary64.ofDecimal_congr negative hn).trans hreads⟩

/-- **Finite numbers are read back.** -/
theorem number_finite {negative : Bool} {mantissa : Nat} {exponent : Int}
    (h : (Binary64.finite negative mantissa exponent).IsProper) {rest : List Char}
    (hrest : Ends rest) :
    number ((Binary64.finite negative mantissa exponent).text specialNames ++ rest) =
      .ok (.float (.finite negative mantissa exponent), rest) := by
  obtain ⟨n, hproper, htext, hreads⟩ := exists_numeral_magnitudeText h
  have hunsigned := unsigned_numeral negative hproper hrest
  rw [hreads] at hunsigned
  rw [Binary64.text, ← htext]
  cases negative with
  | true => exact hunsigned
  | false =>
    rw [← hunsigned]
    simp only [Bool.false_eq_true, if_false, List.nil_append, Numeral.text, List.append_assoc]
    exact number_of_isWhole hproper.whole _

end ClassChart.Json
