import ClassChart.Json.Parser
import ClassChart.Json.Printer
import Mathlib.Data.List.Chain

/-!
# Escaped text and back

A text in quotes is read back as the text, unless it has two lone surrogates next to each other that
would be a pair: those are read as one character. No text that was read has such two.

## Main definitions

* `Symbol.units`: the code units of a symbol
* `RawText.IsPaired`: texts in which no lone surrogates are a pair

## Main results

* `string?_stringChars`: such texts are read back
* `isPaired_of_string?`: what is read is such a text
-/

namespace ClassChart

/-- The code units of a symbol: two for a character beyond the first plane. -/
def Symbol.units : Symbol → List Nat
  | .char c =>
    if c.toNat < 0x10000 then [c.toNat]
    else [0xD800 + (c.toNat - 0x10000) / 0x400, 0xDC00 + (c.toNat - 0x10000) % 0x400]
  | .half index => [(Symbol.half index).code]

/-- No two lone surrogates next to each other are a pair. -/
def RawText.IsPaired (t : RawText) : Prop :=
  t.IsChain fun a b => ¬ (Json.isHigh a.code = true ∧ Json.isLow b.code = true)

instance (t : RawText) : Decidable t.IsPaired :=
  inferInstanceAs (Decidable (t.IsChain _))

namespace Json

open Text (hex hexDigit hexValue?)

/-! ## Code points -/

theorem isHigh_toNat (c : Char) : isHigh c.toNat = false := by
  have hvalid := c.valid
  rw [isHigh, Bool.and_eq_false_iff, decide_eq_false_iff_not, decide_eq_false_iff_not]
  rcases hvalid with h | h
  · exact .inl (Nat.not_le.mpr h)
  · exact .inr (by have : 0xDFFF < c.toNat := h.1; omega)

theorem isLow_toNat (c : Char) : isLow c.toNat = false := by
  have hvalid := c.valid
  rw [isLow, Bool.and_eq_false_iff, decide_eq_false_iff_not, decide_eq_false_iff_not]
  rcases hvalid with h | h
  · exact .inl (by have : c.toNat < 0xD800 := h; omega)
  · exact .inr (by have : 0xDFFF < c.toNat := h.1; omega)

theorem ofCode_code (s : Symbol) : Symbol.ofCode s.code = s := by
  cases s with
  | char c =>
    have hvalid := c.valid
    rw [Symbol.ofCode, dif_neg, Symbol.code, Char.ofNat_toNat]
    rintro ⟨hlow, hhigh⟩
    simp only [Symbol.code, Symbol.firstHalf] at hlow hhigh
    rcases hvalid with h | h
    · have : c.toNat < 0xD800 := h
      omega
    · have : 0xDFFF < c.toNat := h.1
      omega
  | half index =>
    have hindex : Symbol.firstHalf + index.val - Symbol.firstHalf = index.val :=
      Nat.add_sub_cancel_left _ _
    simp only [Symbol.ofCode, Symbol.code, hindex]
    rw [dif_pos ⟨Nat.le_add_right _ _, index.isLt⟩]

/-- A code outside the surrogates is that of a character, and one among them is kept. -/
theorem code_ofCode_cases (n : Nat) :
    (Symbol.ofCode n).code = n ∨ ∃ c, Symbol.ofCode n = .char c := by
  rw [Symbol.ofCode]
  split
  · rename_i h
    exact .inl (Nat.add_sub_cancel' h.1)
  · exact .inr ⟨_, rfl⟩

/-! ## Reading escapes -/

theorem hexValue?_hexDigit (n : Nat) : hexValue? (hexDigit n) = some (n % 16) := by
  have hall : ∀ d : Fin 16, hexValue? (hexDigit d) = some d.val := by decide
  have hmod : hexDigit n = hexDigit (n % 16) := by simp [hexDigit]
  rw [hmod]
  exact hall ⟨n % 16, Nat.mod_lt n (by decide)⟩

theorem codes?_escapeUnit {n : Nat} (h : n < 0x10000) (rest : List Char) :
    codes? (escapeUnit n ++ rest) = (codes? rest).map fun p => (n :: p.1, p.2) := by
  have hunit : unit? (hexDigit (n / 16 / 16 / 16)) (hexDigit (n / 16 / 16)) (hexDigit (n / 16))
      (hexDigit n) = some n := by
    simp only [unit?, hexValue?_hexDigit, Option.pure_def, Option.bind_eq_bind, Option.bind_some,
      Option.some.injEq]
    omega
  have htext : escapeUnit n ++ rest = '\\' :: 'u' :: hexDigit (n / 16 / 16 / 16) ::
      hexDigit (n / 16 / 16) :: hexDigit (n / 16) :: hexDigit n :: rest := rfl
  rw [htext, codes?, hunit]
  cases codes? rest <;> rfl

/-- A one-letter escape is read as the character it stands for. -/
theorem codes?_shortEscape {e c : Char} (h : shortEscape? e = some c) (rest : List Char) :
    codes? ('\\' :: e :: rest) = (codes? rest).map fun p => (c.toNat :: p.1, p.2) := by
  have hu : e ≠ 'u' := by
    rintro rfl
    cases h
  rw [codes?, h]
  · cases codes? rest <;> rfl
  · exact fun _ _ _ _ _ heq => absurd heq hu

/-- A printable character is read as itself. -/
theorem codes?_plain {c : Char} (hquote : c ≠ '"') (hslash : c ≠ '\\') (hlow : ' ' ≤ c)
    (rest : List Char) :
    codes? (c :: rest) = (codes? rest).map fun p => (c.toNat :: p.1, p.2) := by
  rw [codes?, if_neg]
  · cases codes? rest <;> rfl
  · rintro (h | h)
    · exact absurd hlow (Char.not_le.mpr h)
    · exact hslash h
  all_goals grind

/-- The three forms of a character: a one-letter escape, itself, or its escaped units. -/
theorem escapeChar_cases (c : Char) :
    (∃ e, shortEscape? e = some c ∧ escapeChar c = ['\\', e]) ∨
      (c ≠ '"' ∧ c ≠ '\\' ∧ ' ' ≤ c ∧ c ≤ '~' ∧ escapeChar c = [c]) ∨
      escapeChar c = (Symbol.char c).units.flatMap escapeUnit := by
  by_cases hshort : c ∈ ['"', '\\', '\n', '\r', '\t', '\x08', '\x0c']
  · simp only [List.mem_cons, List.not_mem_nil, or_false] at hshort
    rcases hshort with rfl | rfl | rfl | rfl | rfl | rfl | rfl <;> exact .inl ⟨_, rfl, rfl⟩
  · simp only [List.mem_cons, List.not_mem_nil, or_false, not_or] at hshort
    obtain ⟨hquote, hslash, hn, hr, ht, hb, hf⟩ := hshort
    rw [escapeChar, if_neg hquote, if_neg hslash, if_neg hn, if_neg hr, if_neg ht, if_neg hb,
      if_neg hf]
    right
    by_cases hprintable : ' ' ≤ c ∧ c ≤ '~'
    · rw [if_pos hprintable]
      exact .inl ⟨hquote, hslash, hprintable.1, hprintable.2, rfl⟩
    · rw [if_neg hprintable, Symbol.units]
      split <;> simp

/-- A character of the first plane is one unit, any other a pair of surrogates. -/
theorem units_char_cases (c : Char) :
    (Symbol.char c).units = [c.toNat] ∧ c.toNat < 0x10000 ∨
      ∃ high low, (Symbol.char c).units = [high, low] ∧ isHigh high = true ∧ isLow low = true ∧
        Char.ofNat (0x10000 + (high - 0xD800) * 0x400 + (low - 0xDC00)) = c := by
  rw [Symbol.units]
  by_cases hplane : c.toNat < 0x10000
  · rw [if_pos hplane]
    exact .inl ⟨rfl, hplane⟩
  · rw [if_neg hplane]
    have hmax : c.toNat < 0x110000 := by
      rcases c.valid with h | h
      · have : c.toNat < 0xD800 := h
        omega
      · exact h.2
    have hjoined : 0x10000 + (0xD800 + (c.toNat - 0x10000) / 0x400 - 0xD800) * 0x400 +
        (0xDC00 + (c.toNat - 0x10000) % 0x400 - 0xDC00) = c.toNat := by omega
    refine .inr ⟨_, _, rfl, ?_, ?_, ?_⟩
    · simp only [isHigh, Bool.and_eq_true, decide_eq_true_eq]
      omega
    · simp only [isLow, Bool.and_eq_true, decide_eq_true_eq]
      omega
    · rw [hjoined, Char.ofNat_toNat]

theorem lt_of_isHigh {n : Nat} (h : isHigh n = true) : n < 0x10000 := by
  simp only [isHigh, Bool.and_eq_true, decide_eq_true_eq] at h
  omega

theorem lt_of_isLow {n : Nat} (h : isLow n = true) : n < 0x10000 := by
  simp only [isLow, Bool.and_eq_true, decide_eq_true_eq] at h
  omega

theorem units_lt (s : Symbol) : ∀ n ∈ s.units, n < 0x10000 := by
  cases s with
  | char c =>
    rcases units_char_cases c with ⟨hunits, hplane⟩ | ⟨high, low, hunits, hhigh, hlow, -⟩
    · rw [hunits, List.forall_mem_singleton]
      exact hplane
    · rw [hunits, List.forall_mem_cons, List.forall_mem_singleton]
      exact ⟨lt_of_isHigh hhigh, lt_of_isLow hlow⟩
  | half index =>
    rw [Symbol.units, List.forall_mem_singleton, Symbol.code, Symbol.firstHalf]
    omega

theorem codes?_units {units : List Nat} (h : ∀ n ∈ units, n < 0x10000) (rest : List Char) :
    codes? (units.flatMap escapeUnit ++ rest) = (codes? rest).map fun p => (units ++ p.1, p.2) := by
  induction units with
  | nil => simp
  | cons n units ih =>
    obtain ⟨hn, hunits⟩ := List.forall_mem_cons.mp h
    rw [List.flatMap_cons, List.append_assoc, codes?_escapeUnit hn, ih hunits, Option.map_map]
    rfl

/-- The form of a symbol is read as the units of the symbol. -/
theorem codes?_escapeSymbol (s : Symbol) (rest : List Char) :
    codes? (escapeSymbol s ++ rest) = (codes? rest).map fun p => (s.units ++ p.1, p.2) := by
  cases s with
  | half index =>
    have hform : escapeSymbol (.half index) = (Symbol.half index).units.flatMap escapeUnit := by
      rw [escapeSymbol, Symbol.units, List.flatMap_singleton]
    rw [hform]
    exact codes?_units (units_lt _) rest
  | char c =>
    rw [escapeSymbol]
    -- a short escape, the character itself, or its units as numbers
    rcases escapeChar_cases c with ⟨e, he, hform⟩ | ⟨hquote, hslash, hlow, hhigh, hform⟩ | hform
    · have hunits : (Symbol.char c).units = [c.toNat] := by
        rw [Symbol.units, if_pos]
        revert he
        unfold shortEscape?
        split <;> rintro ⟨⟩ <;> decide
      rw [hform, hunits]
      exact codes?_shortEscape he rest
    · have hunits : (Symbol.char c).units = [c.toNat] := by
        have hbound : c.toNat ≤ '~'.toNat := hhigh
        have htilde : '~'.toNat = 0x7E := by decide
        rw [Symbol.units, if_pos (by omega)]
      rw [hform, hunits]
      exact codes?_plain hquote hslash hlow rest
    · rw [hform]
      exact codes?_units (units_lt _) rest

/-- A text with its closing quote is read as the units of the text. -/
theorem codes?_text (t : RawText) (rest : List Char) :
    codes? (t.flatMap escapeSymbol ++ '"' :: rest) = some (t.flatMap Symbol.units, rest) := by
  induction t with
  | nil => rfl
  | cons s t ih =>
    rw [List.flatMap_cons, List.flatMap_cons, List.append_assoc, codes?_escapeSymbol, ih]
    rfl

/-! ## Pairs of surrogates -/

/-- A unit that is not the first of a pair is a symbol of its own. -/
theorem joinPairs_cons {n : Nat} {codes : List Nat}
    (h : ∀ m ∈ codes.head?, ¬ (isHigh n = true ∧ isLow m = true)) :
    joinPairs (n :: codes) = .ofCode n :: joinPairs codes := by
  cases codes with
  | nil => rfl
  | cons m codes =>
    rw [joinPairs, if_neg]
    rw [Bool.and_eq_true]
    exact h m rfl

/-- The first unit of a text is the second half of a pair only if its first symbol is. -/
theorem isLow_head_units {s : Symbol} {t : RawText} {n : Nat}
    (hn : n ∈ ((s :: t).flatMap Symbol.units).head?) (h : isLow n = true) : isLow s.code = true := by
  rw [List.flatMap_cons] at hn
  cases s with
  | half index =>
    obtain rfl : (Symbol.half index).code = n := by simpa [Symbol.units] using hn
    exact h
  | char c =>
    rcases units_char_cases c with ⟨hunits, -⟩ | ⟨high, low, hunits, hhigh, -, -⟩
    · obtain rfl : c.toNat = n := by simpa [hunits] using hn
      exact h
    · obtain rfl : high = n := by simpa [hunits] using hn
      simp only [isHigh, isLow, Bool.and_eq_true, decide_eq_true_eq] at hhigh h
      omega

/-- The units of a text without pairs of lone surrogates are joined to the text. -/
theorem joinPairs_units {t : RawText} (h : t.IsPaired) : joinPairs (t.flatMap Symbol.units) = t := by
  induction t with
  | nil => rfl
  | cons s t ih =>
    have ht : RawText.IsPaired t := h.tail
    -- a symbol of one unit, which is no first half before a second one
    have hsingle (hunits : s.units = [s.code]) :
        joinPairs ((s :: t).flatMap Symbol.units) = s :: t := by
      rw [List.flatMap_cons, hunits, List.singleton_append, joinPairs_cons, ofCode_code, ih ht]
      rintro m hm ⟨hhigh, hlow⟩
      cases t with
      | nil => simp at hm
      | cons s' t => exact h.rel ⟨hhigh, isLow_head_units hm hlow⟩
    cases s with
    | half index => exact hsingle rfl
    | char c =>
      rcases units_char_cases c with ⟨hunits, -⟩ | ⟨high, low, hunits, hhigh, hlow, hchar⟩
      · exact hsingle hunits
      · rw [List.flatMap_cons, hunits, List.cons_append, List.singleton_append, joinPairs, hhigh,
          hlow, Bool.and_self, if_pos rfl, hchar, ih ht]

/-- **Texts without pairs of lone surrogates are read back.** -/
theorem string?_stringChars {t : RawText} (h : t.IsPaired) (rest : List Char) :
    string? (t.flatMap escapeSymbol ++ '"' :: rest) = some (t, rest) := by
  rw [string?, codes?_text]
  simp only [Option.bind_eq_bind, Option.bind_some, joinPairs_units h]
  rfl

/-! ## What is read -/

/-- The first symbol of joined units is the second half of a pair only if the first unit is. -/
theorem isLow_head_joinPairs {n : Nat} {codes : List Nat} {s : Symbol}
    (hs : s ∈ (joinPairs (n :: codes)).head?) (h : isLow s.code = true) : isLow n = true := by
  -- a character is never a half
  have hchar (c : Char) (hc : s = .char c) : isLow n = true := by
    rw [hc, Symbol.code, isLow_toNat] at h
    cases h
  have hofCode (hn : s = .ofCode n) : isLow n = true := by
    rcases code_ofCode_cases n with hcode | ⟨c, hc⟩
    · rwa [hn, hcode] at h
    · exact hchar c (hn.trans hc)
  cases codes with
  | nil => exact hofCode (by simpa [joinPairs, eq_comm] using hs)
  | cons m codes =>
    rw [joinPairs] at hs
    split at hs
    · exact hchar _ (by simpa [eq_comm] using hs)
    · exact hofCode (by simpa [eq_comm] using hs)

theorem isPaired_joinPairs (codes : List Nat) : RawText.IsPaired (joinPairs codes) := by
  induction codes using joinPairs.induct with
  | case1 => exact .nil
  | case2 code => exact .singleton _
  -- a pair was joined to a character, which is no half
  | case3 high low rest hpair ih =>
    rw [joinPairs, if_pos hpair]
    refine List.isChain_cons.mpr ⟨fun s _ => ?_, ih⟩
    rintro ⟨hhigh, -⟩
    rw [Symbol.code, isHigh_toNat] at hhigh
    cases hhigh
  | case4 high low rest hpair ih =>
    rw [joinPairs, if_neg hpair]
    refine List.isChain_cons.mpr ⟨fun s hs => ?_, ih⟩
    -- had the next text a low half in front, the codes would have been a pair
    rintro ⟨hhigh, hlow⟩
    rcases code_ofCode_cases high with hcode | ⟨c, hc⟩
    · rw [hcode] at hhigh
      exact hpair (by rw [hhigh, isLow_head_joinPairs hs hlow]; rfl)
    · rw [hc, Symbol.code, isHigh_toNat] at hhigh
      cases hhigh

/-- **What is read has no pairs of lone surrogates.** -/
theorem isPaired_of_string? {cs rest : List Char} {t : RawText} (h : string? cs = some (t, rest)) :
    t.IsPaired := by
  rw [string?] at h
  cases hcodes : codes? cs with
  | none => simp [hcodes] at h
  | some p =>
    simp only [hcodes, Option.bind_eq_bind, Option.bind_some, Option.pure_def, Option.some.injEq,
      Prod.mk.injEq] at h
    rw [← h.1]
    exact isPaired_joinPairs _

end Json

end ClassChart
