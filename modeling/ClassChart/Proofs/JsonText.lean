import ClassChart.Proofs.EscapedText
import ClassChart.Proofs.NumberText
import ClassChart.Proofs.ObjectFields

/-!
# JSON values in writing and back

The text of a value is read back as the value, in every layout, if the names in each object differ,
its whole numbers do not have too many digits, its floating point numbers are those of the format,
and no lone surrogates in its texts are a pair. Every value that was read is such a value.

## Main definitions

* `IsFaithful`: the values that are read back

## Main results

* `value_chars`: reading a value with anything behind it
* `parse_text`: the text of a faithful value denotes the value
* `isFaithful_of_parse`: what is read is faithful
-/

namespace ClassChart.Json

mutual

/-- Whether a value is the one that its text denotes. -/
def IsFaithful : Json → Prop
  | .int i => (Nat.toDigits 10 i.natAbs).length ≤ maxIntegerDigits
  | .float x => x.IsProper
  | .str s => s.IsPaired
  | .arr items => AreFaithful items
  | .obj fields => (Object.names fields).Nodup ∧ HasFaithful fields
  | _ => True

/-- Whether all items are faithful. -/
def AreFaithful : List Json → Prop
  | [] => True
  | v :: rest => v.IsFaithful ∧ AreFaithful rest

/-- Whether the names and values of all fields are faithful. -/
def HasFaithful : List (RawText × Json) → Prop
  | [] => True
  | (name, v) :: rest => name.IsPaired ∧ v.IsFaithful ∧ HasFaithful rest

end

mutual

/-- Decides whether a value is faithful. -/
def decideFaithful : (v : Json) → Decidable v.IsFaithful
  | .null => isTrue trivial
  | .bool _ => isTrue trivial
  | .int i => inferInstanceAs (Decidable ((Nat.toDigits 10 i.natAbs).length ≤ maxIntegerDigits))
  | .float x => inferInstanceAs (Decidable x.IsProper)
  | .str s => inferInstanceAs (Decidable s.IsPaired)
  | .arr items => decideItems items
  | .obj fields => @instDecidableAnd _ _ _ (decideFields fields)

/-- Decides whether all items are faithful. -/
def decideItems : (vs : List Json) → Decidable (AreFaithful vs)
  | [] => isTrue trivial
  | v :: rest => @instDecidableAnd _ _ (decideFaithful v) (decideItems rest)

/-- Decides whether the names and values of all fields are faithful. -/
def decideFields : (fs : List (RawText × Json)) → Decidable (HasFaithful fs)
  | [] => isTrue trivial
  | (name, v) :: rest =>
    @instDecidableAnd name.IsPaired _ _ (@instDecidableAnd _ _ (decideFaithful v) (decideFields rest))

end

instance (v : Json) : Decidable v.IsFaithful := decideFaithful v

/-! ## Between tokens -/

theorem skipSpace_append {gap : List Char} (h : ∀ c ∈ gap, isSpace c = true) (cs : List Char) :
    skipSpace (gap ++ cs) = skipSpace cs :=
  List.dropWhile_append_of_pos h

theorem skipSpace_cons {c : Char} (h : isSpace c = false) (cs : List Char) :
    skipSpace (c :: cs) = c :: cs :=
  List.dropWhile_cons_of_neg (by simp [h])

theorem isSpace_lineBreak (layout : Layout) (level : Nat) :
    ∀ c ∈ layout.lineBreak level, isSpace c = true := by
  intro c hc
  cases layout with
  | line => simp [Layout.lineBreak] at hc
  | indented step =>
    rcases List.mem_cons.mp hc with rfl | hc
    · rfl
    · rw [List.eq_of_mem_replicate hc]
      rfl

theorem exists_comma (layout : Layout) (level : Nat) :
    ∃ gap, layout.comma level = ',' :: gap ∧ ∀ c ∈ gap, isSpace c = true := by
  cases layout with
  | line => exact ⟨[' '], rfl, by simp [isSpace]⟩
  | indented step => exact ⟨_, rfl, isSpace_lineBreak (.indented step) level⟩

/-- A number may stand before a line break and a closing bracket. -/
theorem ends_lineBreak (layout : Layout) (level : Nat) {c : Char} (hc : c = ']' ∨ c = '\x7d')
    (rest : List Char) : Ends (layout.lineBreak level ++ c :: rest) := by
  intro d hd
  cases layout with
  | line =>
    obtain rfl : c = d := by simpa [Layout.lineBreak] using hd
    rcases hc with rfl | rfl <;> decide
  | indented step =>
    obtain rfl : '\n' = d := by simpa [Layout.lineBreak] using hd
    decide

theorem ends_comma (layout : Layout) (level : Nat) (rest : List Char) :
    Ends (layout.comma level ++ rest) := by
  obtain ⟨gap, hcomma, -⟩ := exists_comma layout level
  intro d hd
  obtain rfl : ',' = d := by simpa [hcomma] using hd
  decide

/-! ## Values that are not nested -/

/-- A number starts with a digit, or with a minus before one. -/
theorem unsigned_start {negative : Bool} {cs : List Char} {r : Json × List Char}
    (h : unsigned negative cs = .ok r) : ∃ d ds, cs = d :: ds ∧ d.isDigit = true := by
  cases cs with
  | nil => cases h
  | cons d ds =>
    refine ⟨d, ds, rfl, ?_⟩
    by_contra hdigit
    have hnone : wholeDigits? (d :: ds) = none := by
      rw [wholeDigits?, if_neg hdigit]
      rintro rfl
      exact hdigit (by decide)
    rw [unsigned, hnone] at h
    cases h

theorem number_start {cs : List Char} {r : Json × List Char} (h : number cs = .ok r) :
    (∃ d ds, cs = d :: ds ∧ d.isDigit = true) ∨
      ∃ d ds, cs = '-' :: d :: ds ∧ d.isDigit = true := by
  by_cases hminus : ∃ ds, cs = '-' :: ds
  · obtain ⟨ds, rfl⟩ := hminus
    obtain ⟨d, ds, rfl, hd⟩ := unsigned_start (h : unsigned true ds = .ok r)
    exact .inr ⟨d, ds, rfl, hd⟩
  · rw [number] at h
    · exact .inl (unsigned_start h)
    · exact fun ds heq => hminus ⟨ds, heq⟩

/-- The words for values have no digits. -/
theorem isDigit_namedValues :
    ∀ p ∈ namedValues, 2 ≤ p.1.length ∧ ∀ c ∈ p.1, c.isDigit = false := by
  simp [namedValues, Char.isDigit]

/-- No word is a number. -/
theorem atom_of_number {cs : List Char} {r : Json × List Char} (h : number cs = .ok r) :
    atom cs = .ok r := by
  -- a number has a digit among its first two characters, and a word does not
  obtain ⟨d, hd, hdigit⟩ : ∃ d ∈ cs.take 2, d.isDigit = true := by
    rcases number_start h with ⟨d, ds, rfl, hd⟩ | ⟨d, ds, rfl, hd⟩
    · exact ⟨d, List.mem_cons_self, hd⟩
    · exact ⟨d, List.mem_cons_of_mem _ List.mem_cons_self, hd⟩
  have hword : ∀ p ∈ namedValues, word? p.1 cs = none := by
    intro p hp
    obtain ⟨hlength, hno⟩ := isDigit_namedValues p hp
    rw [word?, if_neg]
    intro hprefix
    have hname := List.prefix_iff_eq_take.mp (List.isPrefixOf_iff_prefix.mp hprefix)
    have hmem : d ∈ p.1 := by
      rw [hname]
      exact List.take_subset_take_left cs hlength hd
    rw [hno d hmem] at hdigit
    cases hdigit
  unfold atom
  split
  · rename_i hfound
    obtain ⟨p, hp, hfirst⟩ := List.exists_of_findSome?_eq_some hfound
    simp [hword p hp] at hfirst
  · exact h

/-- A number is read as such. -/
theorem value_of_number {cs : List Char} {r : Json × List Char} (h : number cs = .ok r)
    (depth : Nat) : value (depth + 1) cs = .ok r := by
  have hhead (c : Char) (hc : c = '"' ∨ c = '[' ∨ c = '\x7b') (rest : List Char) : cs ≠ c :: rest := by
    rintro rfl
    rcases number_start h with ⟨d, ds, heq, hd⟩ | ⟨d, ds, heq, -⟩
    · rw [← (List.cons.inj heq).1] at hd
      rcases hc with rfl | rfl | rfl <;> exact absurd hd (by decide)
    · have heq := (List.cons.inj heq).1
      rcases hc with rfl | rfl | rfl <;> exact absurd heq (by decide)
  rw [value]
  · exact atom_of_number h
  · exact hhead _ (.inl rfl)
  · exact hhead _ (.inr (.inl rfl))
  · exact hhead _ (.inr (.inr rfl))

/-- Floating point numbers are read back. -/
theorem value_float {x : Binary64} (h : x.IsProper) {rest : List Char} (hrest : Ends rest)
    (depth : Nat) : value (depth + 1) (x.text specialNames ++ rest) = .ok (.float x, rest) := by
  cases x with
  | nan => rfl
  | infinite negative => cases negative <;> rfl
  | finite negative mantissa exponent => exact value_of_number (number_finite h hrest) depth

/-! ## Nested values -/

theorem value_string {s : RawText} (h : s.IsPaired) (rest : List Char) (depth : Nat) :
    value (depth + 1) (stringChars s ++ rest) = .ok (.str s, rest) := by
  have htext : stringChars s ++ rest = '"' :: (s.flatMap escapeSymbol ++ '"' :: rest) := by
    simp [stringChars]
  rw [htext, value, string?_stringChars h]
  rfl

/-- An array that is not empty is read item by item. -/
theorem value_array {cs cs' : List Char} {c : Char} (h : skipSpace cs = c :: cs') (hc : c ≠ ']')
    (depth : Nat) :
    value (depth + 1) ('[' :: cs) = (items depth (c :: cs')).map fun p => (.arr p.1, p.2) := by
  rw [value]
  simp only [h]
  split
  · rename_i heq
    exact absurd (List.cons.inj heq).1 hc
  · cases items depth (c :: cs') <;> rfl

/-- An object that is not empty is read field by field. -/
theorem value_object {cs cs' : List Char} {c : Char} (h : skipSpace cs = c :: cs') (hc : c ≠ '\x7d')
    (depth : Nat) :
    value (depth + 1) ('\x7b' :: cs) =
      (fields depth (c :: cs')).map fun p => (.obj (Object.ofFields p.1), p.2) := by
  rw [value]
  simp only [h]
  split
  · rename_i heq
    exact absurd (List.cons.inj heq).1 hc
  · cases fields depth (c :: cs') <;> rfl

theorem items_last {depth : Nat} {cs rest rest' : List Char} {v : Json}
    (hv : value depth cs = .ok (v, rest)) (hrest : skipSpace rest = ']' :: rest') :
    items (depth + 1) cs = .ok ([v], rest') := by
  simp only [items, hv, bind, Except.bind, hrest]
  rfl

theorem items_next {depth : Nat} {cs rest rest' rest'' : List Char} {v : Json} {vs : List Json}
    (hv : value depth cs = .ok (v, rest)) (hrest : skipSpace rest = ',' :: rest')
    (hvs : items depth (skipSpace rest') = .ok (vs, rest'')) :
    items (depth + 1) cs = .ok (v :: vs, rest'') := by
  simp only [items, hv, bind, Except.bind, hrest, hvs]
  rfl

/-- The name of a field and the colon after it. -/
theorem stringChars_colon (name : RawText) (cs : List Char) :
    stringChars name ++ ':' :: ' ' :: cs =
      '"' :: (name.flatMap escapeSymbol ++ '"' :: ':' :: ' ' :: cs) := by
  simp [stringChars]

theorem skipSpace_colon (cs : List Char) : skipSpace (':' :: cs) = ':' :: cs :=
  skipSpace_cons rfl cs

theorem skipSpace_blank {c : Char} (hc : isSpace c = false) (cs : List Char) :
    skipSpace (' ' :: c :: cs) = c :: cs :=
  skipSpace_cons hc cs

theorem fields_last {name : RawText} (hname : name.IsPaired) {depth : Nat} {c : Char}
    (hc : isSpace c = false) {cs rest rest' : List Char} {v : Json}
    (hv : value depth (c :: cs) = .ok (v, rest)) (hrest : skipSpace rest = '\x7d' :: rest') :
    fields (depth + 1) (stringChars name ++ ':' :: ' ' :: c :: cs) = .ok ([(name, v)], rest') := by
  rw [stringChars_colon, fields]
  simp only [string?_stringChars hname, orMalformed, bind, Except.bind, skipSpace_colon,
    skipSpace_blank hc, hv, hrest]
  rfl

theorem fields_next {name : RawText} (hname : name.IsPaired) {depth : Nat} {c : Char}
    (hc : isSpace c = false) {cs rest rest' rest'' : List Char} {v : Json}
    {others : List (RawText × Json)} (hv : value depth (c :: cs) = .ok (v, rest))
    (hrest : skipSpace rest = ',' :: rest')
    (hothers : fields depth (skipSpace rest') = .ok (others, rest'')) :
    fields (depth + 1) (stringChars name ++ ':' :: ' ' :: c :: cs) =
      .ok ((name, v) :: others, rest'') := by
  rw [stringChars_colon, fields]
  simp only [string?_stringChars hname, orMalformed, bind, Except.bind, skipSpace_colon,
    skipSpace_blank hc, hv, hrest, hothers]
  rfl

/-- A digit is neither white space nor a closing bracket. -/
theorem isSpace_of_isDigit {c : Char} (hc : c.isDigit = true) : isSpace c = false ∧ c ≠ ']' := by
  refine ⟨?_, ?_⟩
  · by_contra hspace
    simp only [isSpace, Bool.or_eq_true, beq_iff_eq, Bool.not_eq_false] at hspace
    rcases hspace with ((rfl | rfl) | rfl) | rfl <;> exact absurd hc (by decide)
  · rintro rfl
    exact absurd hc (by decide)

theorem exists_start_of_number {cs : List Char} {r : Json × List Char} (h : number cs = .ok r) :
    ∃ c cs', cs = c :: cs' ∧ isSpace c = false ∧ c ≠ ']' := by
  rcases number_start h with ⟨d, ds, rfl, hd⟩ | ⟨d, ds, rfl, -⟩
  · exact ⟨d, ds, rfl, isSpace_of_isDigit hd⟩
  · exact ⟨'-', d :: ds, rfl, by decide⟩

/-- The text of a value starts with a token that is no closing bracket. -/
theorem chars_start {v : Json} (h : v.IsFaithful) (layout : Layout) (level : Nat) :
    ∃ c cs, v.chars layout level = c :: cs ∧ isSpace c = false ∧ c ≠ ']' := by
  have hnil : Ends [] := nofun
  cases v with
  | null => exact ⟨'n', _, rfl, by decide⟩
  | bool b =>
    cases b
    · exact ⟨'f', _, rfl, by decide⟩
    · exact ⟨'t', _, rfl, by decide⟩
  | int i =>
    -- the text of a number starts as numbers are read
    have hread := number_intText h hnil
    rw [List.append_nil] at hread
    exact exists_start_of_number hread
  | float x =>
    cases x with
    | nan => exact ⟨'N', _, rfl, by decide⟩
    | infinite negative =>
      cases negative
      · exact ⟨'I', _, rfl, by decide⟩
      · exact ⟨'-', _, rfl, by decide⟩
    | finite negative mantissa exponent =>
      have hproper : (Binary64.finite negative mantissa exponent).IsProper := h
      have hread := number_finite hproper hnil
      rw [List.append_nil] at hread
      exact exists_start_of_number hread
  | str s => exact ⟨'"', _, rfl, by decide⟩
  | arr items =>
    rw [chars, Layout.brackets]
    split
    · exact ⟨'[', _, rfl, by decide⟩
    · exact ⟨'[', _, rfl, by decide⟩
  | obj fields =>
    rw [chars, Layout.brackets]
    split
    · exact ⟨'\x7b', _, rfl, by decide⟩
    · exact ⟨'\x7b', _, rfl, by decide⟩

/-- The texts of the items of an array, with what stands between them. -/
def joinedItems (layout : Layout) (level : Nat) (vs : List Json) : List Char :=
  (layout.comma (level + 1)).intercalate (itemChars layout level vs)

/-- The texts of the fields of an object, with what stands between them. -/
def joinedFields (layout : Layout) (level : Nat) (fs : List (RawText × Json)) : List Char :=
  (layout.comma (level + 1)).intercalate (fieldChars layout level fs)

theorem joinedItems_cons_cons (layout : Layout) (level : Nat) (v w : Json) (vs : List Json) :
    joinedItems layout level (v :: w :: vs) =
      v.chars layout (level + 1) ++ (layout.comma (level + 1) ++ joinedItems layout level (w :: vs)) := by
  simp only [joinedItems, itemChars, List.intercalate_cons_cons, List.append_assoc]

theorem joinedFields_cons_cons (layout : Layout) (level : Nat) (f g : RawText × Json)
    (fs : List (RawText × Json)) :
    joinedFields layout level (f :: g :: fs) =
      stringChars f.1 ++ ':' :: ' ' :: f.2.chars layout (level + 1) ++
        (layout.comma (level + 1) ++ joinedFields layout level (g :: fs)) := by
  simp only [joinedFields, fieldChars, List.intercalate_cons_cons, List.append_assoc]

/-- The text of an array that is not empty. -/
theorem chars_arr_cons (layout : Layout) (level : Nat) (v : Json) (vs : List Json) :
    (arr (v :: vs)).chars layout level =
      '[' :: (layout.lineBreak (level + 1) ++
        (joinedItems layout level (v :: vs) ++ (layout.lineBreak level ++ [']']))) := by
  rw [chars, Layout.brackets, if_neg (by simp [itemChars]), ← joinedItems]
  simp only [List.cons_append, List.append_assoc]

theorem chars_obj_cons (layout : Layout) (level : Nat) (f : RawText × Json)
    (fs : List (RawText × Json)) :
    (obj (f :: fs)).chars layout level =
      '\x7b' :: (layout.lineBreak (level + 1) ++
        (joinedFields layout level (f :: fs) ++ (layout.lineBreak level ++ ['\x7d']))) := by
  rw [chars, Layout.brackets, if_neg (by simp [fieldChars]), ← joinedFields]
  simp only [List.cons_append, List.append_assoc]

theorem joinedItems_start {v : Json} (h : v.IsFaithful) (layout : Layout) (level : Nat)
    (vs : List Json) :
    ∃ c cs, joinedItems layout level (v :: vs) = c :: cs ∧ isSpace c = false ∧ c ≠ ']' := by
  obtain ⟨c, cs, hcs, hc⟩ := chars_start h layout (level + 1)
  cases vs with
  | nil => exact ⟨c, cs, by simp [joinedItems, itemChars, hcs], hc⟩
  | cons w vs =>
    rw [joinedItems_cons_cons, hcs]
    exact ⟨c, _, rfl, hc⟩

theorem joinedFields_start (layout : Layout) (level : Nat) (f : RawText × Json)
    (fs : List (RawText × Json)) : ∃ cs, joinedFields layout level (f :: fs) = '"' :: cs := by
  cases fs with
  | nil => exact ⟨_, by simp [joinedFields, fieldChars, stringChars]; rfl⟩
  | cons g fs =>
    rw [joinedFields_cons_cons]
    exact ⟨_, rfl⟩

/-- A comma before a token, and what is between them. -/
theorem skipSpace_comma (layout : Layout) (level : Nat) {c : Char} (hc : isSpace c = false)
    (cs : List Char) :
    ∃ rest, skipSpace (layout.comma level ++ c :: cs) = ',' :: rest ∧ skipSpace rest = c :: cs := by
  obtain ⟨gap, hcomma, hgap⟩ := exists_comma layout level
  refine ⟨gap ++ c :: cs, ?_, ?_⟩
  · rw [hcomma]
    exact skipSpace_cons rfl _
  · rw [skipSpace_append hgap, skipSpace_cons hc]

theorem skipSpace_closing (layout : Layout) (level : Nat) {c : Char} (hc : isSpace c = false)
    (cs : List Char) : skipSpace (layout.lineBreak level ++ c :: cs) = c :: cs := by
  rw [skipSpace_append (isSpace_lineBreak layout level), skipSpace_cons hc]

theorem length_comma_pos (layout : Layout) (level : Nat) : 0 < (layout.comma level).length := by
  obtain ⟨gap, hcomma, -⟩ := exists_comma layout level
  rw [hcomma]
  exact Nat.succ_pos _

/-- A value is read back from its text in a layout, whatever stands behind it. The readers nest at
most twice for each character. -/
def ReadsBack (layout : Layout) (v : Json) : Prop :=
  ∀ (level depth : Nat) (rest : List Char), 2 * (v.chars layout level).length < depth → Ends rest →
    value depth (v.chars layout level ++ rest) = .ok (v, rest)

/-- Reading the items of an array, up to its closing bracket. -/
theorem items_joinedItems {layout : Layout} {v : Json} {vs : List Json}
    (hfaithful : AreFaithful (v :: vs)) (hread : ∀ w ∈ v :: vs, ReadsBack layout w)
    {level depth : Nat} (hdepth : 2 * (joinedItems layout level (v :: vs)).length + 1 < depth)
    (rest : List Char) :
    items depth (joinedItems layout level (v :: vs) ++ (layout.lineBreak level ++ ']' :: rest)) =
      .ok (v :: vs, rest) := by
  obtain ⟨depth, rfl⟩ := Nat.exists_eq_succ_of_ne_zero (Nat.ne_zero_of_lt hdepth)
  induction vs generalizing v depth with
  | nil =>
    have htext : joinedItems layout level [v] = v.chars layout (level + 1) :=
      List.intercalate_singleton
    rw [htext] at hdepth ⊢
    have hv := hread v List.mem_cons_self (level + 1) depth _ (by omega)
      (ends_lineBreak layout level (.inl rfl) rest)
    exact items_last hv (skipSpace_closing layout level rfl rest)
  | cons w vs ih =>
    obtain ⟨c, cs, hstart, hc, -⟩ := joinedItems_start hfaithful.2.1 layout level vs
    -- the text of the rest is shorter by the comma, which pays for one more nested reader
    have hlength := congrArg List.length (joinedItems_cons_cons layout level v w vs)
    have hcomma := length_comma_pos layout (level + 1)
    simp only [List.length_append] at hlength
    obtain ⟨depth, rfl⟩ := Nat.exists_eq_succ_of_ne_zero (n := depth) (by omega)
    have hothers := ih hfaithful.2 (fun u hu => hread u (List.mem_cons_of_mem v hu)) depth (by omega)
    rw [joinedItems_cons_cons, List.append_assoc, List.append_assoc]
    rw [hstart, List.cons_append] at hothers ⊢
    generalize cs ++ (layout.lineBreak level ++ ']' :: rest) = tail at hothers ⊢
    have hv := hread v List.mem_cons_self (level + 1) (depth + 1) _ (by omega)
      (ends_comma layout (level + 1) (c :: tail))
    obtain ⟨next, hnext, hskip⟩ := skipSpace_comma layout (level + 1) hc tail
    exact items_next hv hnext (hskip ▸ hothers)

/-- Reading the fields of an object, up to its closing bracket. -/
theorem fields_joinedFields {layout : Layout} {f : RawText × Json} {fs : List (RawText × Json)}
    (hfaithful : HasFaithful (f :: fs)) (hread : ∀ g ∈ f :: fs, ReadsBack layout g.2)
    {level depth : Nat} (hdepth : 2 * (joinedFields layout level (f :: fs)).length + 1 < depth)
    (rest : List Char) :
    fields depth
        (joinedFields layout level (f :: fs) ++ (layout.lineBreak level ++ '\x7d' :: rest)) =
      .ok (f :: fs, rest) := by
  obtain ⟨depth, rfl⟩ := Nat.exists_eq_succ_of_ne_zero (Nat.ne_zero_of_lt hdepth)
  induction fs generalizing f depth with
  | nil =>
    obtain ⟨hname, hvalue, -⟩ := hfaithful
    obtain ⟨c, cs, hstart, hc, -⟩ := chars_start hvalue layout (level + 1)
    have htext : joinedFields layout level [f] =
        stringChars f.1 ++ ':' :: ' ' :: f.2.chars layout (level + 1) :=
      List.intercalate_singleton
    rw [htext] at hdepth ⊢
    simp only [List.length_append, List.length_cons] at hdepth
    have hv := hread f List.mem_cons_self (level + 1) depth _ (by omega)
      (ends_lineBreak layout level (.inr rfl) rest)
    rw [hstart] at hv ⊢
    simp only [List.append_assoc, List.cons_append] at hv ⊢
    exact fields_last hname hc hv (skipSpace_closing layout level rfl rest)
  | cons g fs ih =>
    obtain ⟨hname, hvalue, hothersFaithful⟩ := hfaithful
    obtain ⟨c, cs, hstart, hc, -⟩ := chars_start hvalue layout (level + 1)
    obtain ⟨cs', hstart'⟩ := joinedFields_start layout level g fs
    -- as for items, the comma pays for one more nested reader
    have hlength := congrArg List.length (joinedFields_cons_cons layout level f g fs)
    have hcomma := length_comma_pos layout (level + 1)
    simp only [List.length_append, List.length_cons] at hlength
    obtain ⟨depth, rfl⟩ := Nat.exists_eq_succ_of_ne_zero (n := depth) (by omega)
    have hothers := ih hothersFaithful (fun u hu => hread u (List.mem_cons_of_mem f hu)) depth
      (by omega)
    rw [joinedFields_cons_cons]
    rw [hstart'] at hothers ⊢
    simp only [List.append_assoc, List.cons_append] at hothers ⊢
    generalize cs' ++ (layout.lineBreak level ++ '\x7d' :: rest) = tail at hothers ⊢
    have hv := hread f List.mem_cons_self (level + 1) (depth + 1) _ (by omega)
      (ends_comma layout (level + 1) ('"' :: tail))
    have hquote : isSpace '"' = false := rfl
    obtain ⟨next, hnext, hskip⟩ := skipSpace_comma layout (level + 1) hquote tail
    rw [hstart, List.cons_append] at hv ⊢
    exact fields_next hname hc hv hnext (hskip ▸ hothers)

theorem readsBack_arr {layout : Layout} {vs : List Json} (hfaithful : AreFaithful vs)
    (hread : ∀ v ∈ vs, ReadsBack layout v) : ReadsBack layout (.arr vs) := by
  intro level depth rest hdepth _
  obtain ⟨depth, rfl⟩ := Nat.exists_eq_succ_of_ne_zero (Nat.ne_zero_of_lt hdepth)
  cases vs with
  | nil => rfl
  | cons v vs =>
    obtain ⟨c, cs, hstart, hc, hclosing⟩ := joinedItems_start hfaithful.1 layout level vs
    rw [chars_arr_cons] at hdepth ⊢
    simp only [List.length_append, List.length_cons] at hdepth
    have hitems := @items_joinedItems layout v vs hfaithful hread level depth (by omega) rest
    rw [List.cons_append]
    simp only [List.append_assoc, List.singleton_append]
    rw [hstart, List.cons_append] at hitems ⊢
    rw [value_array (skipSpace_closing layout (level + 1) hc _) hclosing, hitems]
    rfl

theorem readsBack_obj {layout : Layout} {fs : List (RawText × Json)}
    (hnames : (Object.names fs).Nodup) (hfaithful : HasFaithful fs)
    (hread : ∀ f ∈ fs, ReadsBack layout f.2) : ReadsBack layout (.obj fs) := by
  intro level depth rest hdepth _
  obtain ⟨depth, rfl⟩ := Nat.exists_eq_succ_of_ne_zero (Nat.ne_zero_of_lt hdepth)
  cases fs with
  | nil => rfl
  | cons f fs =>
    obtain ⟨cs, hstart⟩ := joinedFields_start layout level f fs
    rw [chars_obj_cons] at hdepth ⊢
    simp only [List.length_append, List.length_cons] at hdepth
    have hfields := @fields_joinedFields layout f fs hfaithful hread level depth (by omega) rest
    rw [List.cons_append]
    simp only [List.append_assoc, List.singleton_append]
    rw [hstart, List.cons_append] at hfields ⊢
    rw [value_object (skipSpace_closing layout (level + 1) rfl _) (by decide), hfields]
    simp only [Except.map, Object.ofFields_of_nodup hnames]

mutual

/-- **Faithful values are read back.** -/
theorem readsBack (layout : Layout) : ∀ {v : Json}, v.IsFaithful → ReadsBack layout v
  | .null, _ => fun _ depth _ hdepth _ => by
    obtain ⟨depth, rfl⟩ := Nat.exists_eq_succ_of_ne_zero (Nat.ne_zero_of_lt hdepth)
    rfl
  | .bool b, _ => fun _ depth _ hdepth _ => by
    obtain ⟨depth, rfl⟩ := Nat.exists_eq_succ_of_ne_zero (Nat.ne_zero_of_lt hdepth)
    cases b <;> rfl
  | .int i, h => fun _ depth _ hdepth hrest => by
    obtain ⟨depth, rfl⟩ := Nat.exists_eq_succ_of_ne_zero (Nat.ne_zero_of_lt hdepth)
    exact value_of_number (number_intText h hrest) depth
  | .float x, h => fun _ depth _ hdepth hrest => by
    obtain ⟨depth, rfl⟩ := Nat.exists_eq_succ_of_ne_zero (Nat.ne_zero_of_lt hdepth)
    exact value_float h hrest depth
  | .str s, h => fun _ depth rest hdepth _ => by
    obtain ⟨depth, rfl⟩ := Nat.exists_eq_succ_of_ne_zero (Nat.ne_zero_of_lt hdepth)
    exact value_string h rest depth
  | .arr vs, h => readsBack_arr h (readsBack_items layout h)
  | .obj fs, h => readsBack_obj h.1 h.2 (readsBack_fields layout h.2)

theorem readsBack_items (layout : Layout) :
    ∀ {vs : List Json}, AreFaithful vs → ∀ v ∈ vs, ReadsBack layout v
  | [], _ => nofun
  | _ :: _, h => List.forall_mem_cons.mpr ⟨readsBack layout h.1, readsBack_items layout h.2⟩

theorem readsBack_fields (layout : Layout) :
    ∀ {fs : List (RawText × Json)}, HasFaithful fs → ∀ f ∈ fs, ReadsBack layout f.2
  | [], _ => nofun
  | (_, _) :: _, h =>
    List.forall_mem_cons.mpr ⟨readsBack layout h.2.1, readsBack_fields layout h.2.2⟩

end

/-- **The text of a faithful value denotes the value.** -/
theorem parse_text (layout : Layout) {v : Json} (h : v.IsFaithful) :
    parse (v.text layout) = .ok v := by
  obtain ⟨c, cs, hstart, hc, -⟩ := chars_start h layout 0
  have hread := readsBack layout h 0 (2 * (v.chars layout 0).length + 2) [] (by omega) nofun
  rw [List.append_nil] at hread
  have hskip : skipSpace (v.chars layout 0) = v.chars layout 0 := by
    rw [hstart, skipSpace_cons hc]
  simp only [parse, text, String.toList_ofList, parseChars, hskip, hread, bind, Except.bind]
  rfl

/-! ## What is read -/

theorem exists_of_bind_ok {α β : Type} {x : Except ReadFault α} {f : α → Except ReadFault β} {b : β}
    (h : (x >>= f) = .ok b) : ∃ a, x = .ok a ∧ f a = .ok b := by
  cases x with
  | error fault => cases h
  | ok a => exact ⟨a, rfl, h⟩

theorem eq_some_of_orMalformed {α : Type} {x : Option α} {a : α} (h : orMalformed x = .ok a) :
    x = some a := by
  cases x with
  | none => cases h
  | some b => rw [Except.ok.inj h]

theorem hasFaithful_iff {fs : List (RawText × Json)} :
    HasFaithful fs ↔ ∀ f ∈ fs, f.1.IsPaired ∧ f.2.IsFaithful := by
  induction fs with
  | nil => simp [HasFaithful]
  | cons f fs ih => rw [HasFaithful, ih, List.forall_mem_cons, and_assoc]

theorem wholeDigits?_spec {cs ds rest : List Char} (h : wholeDigits? cs = some (ds, rest)) :
    ds ≠ [] ∧ ∀ c ∈ ds, c.isDigit = true := by
  unfold wholeDigits? at h
  split at h
  · obtain ⟨rfl, -⟩ := Prod.mk.inj (Option.some.inj h)
    exact ⟨List.cons_ne_nil _ _, by simp⟩
  · split at h
    · rename_i c rest' _ hc
      obtain ⟨rfl, -⟩ := Prod.mk.inj (Option.some.inj h)
      exact ⟨by simp [hc], fun d hd => List.all_eq_true.mp List.all_takeWhile d hd⟩
    · cases h
  · cases h

theorem digitsValue_lt {ds : List Char} (h : ∀ c ∈ ds, c.isDigit = true) :
    digitsValue ds < 10 ^ ds.length := by
  induction ds using List.reverseRecOn with
  | nil => exact Nat.one_pos
  | append_singleton ds c ih =>
    have hds := ih fun d hd => h d (List.mem_append_left _ hd)
    have hc : digitsValue [c] < 10 := by
      have hdigit := h c (List.mem_append_right _ List.mem_cons_self)
      simp only [Char.isDigit, Bool.and_eq_true, decide_eq_true_eq] at hdigit
      have hle : c.toNat ≤ 57 := hdigit.2
      simp only [digitsValue, List.foldl_cons, List.foldl_nil]
      omega
    rw [digitsValue_append, List.length_append, List.length_singleton, pow_one, pow_succ]
    omega

/-- A whole number that was read has no more digits than there were. -/
theorem isFaithful_of_integer {negative : Bool} {ds : List Char} {v : Json} (hne : ds ≠ [])
    (hds : ∀ c ∈ ds, c.isDigit = true) (h : integer negative ds = .ok v) : v.IsFaithful := by
  rw [integer] at h
  split at h
  · rename_i hlength
    obtain rfl := Except.ok.inj h
    have hdigits : (Nat.toDigits 10 (digitsValue ds)).length ≤ ds.length :=
      (Nat.length_toDigits_le_iff (by decide) (List.length_pos_iff.mpr hne)).mpr (digitsValue_lt hds)
    have habs : (if negative = true then -(digitsValue ds : Int) else digitsValue ds).natAbs =
        digitsValue ds := by
      split <;> omega
    rw [IsFaithful, habs]
    omega
  · cases h

theorem isFaithful_of_unsigned {negative : Bool} {cs rest : List Char} {v : Json}
    (h : unsigned negative cs = .ok (v, rest)) : v.IsFaithful := by
  rw [unsigned] at h
  obtain ⟨⟨whole, rest₁⟩, hwhole, h⟩ := exists_of_bind_ok h
  obtain ⟨hne, hdigits⟩ := wholeDigits?_spec (eq_some_of_orMalformed hwhole)
  simp only at h
  split at h
  · obtain ⟨n, hn, h⟩ := exists_of_bind_ok h
    obtain ⟨rfl, -⟩ := Prod.mk.inj (Except.ok.inj h)
    exact isFaithful_of_integer hne hdigits hn
  · obtain ⟨rfl, -⟩ := Prod.mk.inj (Except.ok.inj h)
    exact Binary64.ofDecimal_isProper _ _ _

theorem isFaithful_namedValues : ∀ p ∈ namedValues, p.2.IsFaithful := by
  simp [namedValues, IsFaithful, Binary64.IsProper]

theorem isFaithful_of_atom {cs rest : List Char} {v : Json} (h : atom cs = .ok (v, rest)) :
    v.IsFaithful := by
  unfold atom at h
  split at h
  · rename_i found hfound
    obtain ⟨p, hp, hword⟩ := List.exists_of_findSome?_eq_some hfound
    obtain ⟨rest', -, hrest⟩ := Option.map_eq_some_iff.mp hword
    rw [Except.ok.injEq, ← hrest, Prod.mk.injEq] at h
    exact h.1 ▸ isFaithful_namedValues p hp
  · unfold number at h
    split at h
    · exact isFaithful_of_unsigned h
    · exact isFaithful_of_unsigned h

/-- An object read from faithful fields is faithful. -/
theorem isFaithful_ofFields {fs : List (RawText × Json)} (h : HasFaithful fs) :
    (obj (Object.ofFields fs)).IsFaithful := by
  have hnil : (Object.names []).Nodup := List.nodup_nil
  refine ⟨Object.nodup_merge hnil fs, ?_⟩
  rw [hasFaithful_iff] at h ⊢
  exact Object.forall_mem_merge nofun h

section Readers

variable {depth : Nat} {cs rest : List Char}

/-- What is read as a value, by what is read between the brackets of arrays and objects. -/
theorem isFaithful_of_value
    (hitems : ∀ {cs vs rest}, items depth cs = .ok (vs, rest) → AreFaithful vs)
    (hfields : ∀ {cs fs rest}, fields depth cs = .ok (fs, rest) → HasFaithful fs) {v : Json}
    (h : value (depth + 1) cs = .ok (v, rest)) : v.IsFaithful := by
  unfold value at h
  split at h
  · obtain ⟨⟨s, rest'⟩, hs, h⟩ := exists_of_bind_ok h
    obtain ⟨rfl, -⟩ := Prod.mk.inj (Except.ok.inj h)
    exact isPaired_of_string? (eq_some_of_orMalformed hs)
  · split at h
    · obtain ⟨rfl, -⟩ := Prod.mk.inj (Except.ok.inj h)
      trivial
    · obtain ⟨⟨vs, rest'⟩, hvs, h⟩ := exists_of_bind_ok h
      obtain ⟨rfl, -⟩ := Prod.mk.inj (Except.ok.inj h)
      exact hitems hvs
  · split at h
    · obtain ⟨rfl, -⟩ := Prod.mk.inj (Except.ok.inj h)
      exact ⟨List.nodup_nil, trivial⟩
    · obtain ⟨⟨fs, rest'⟩, hfs, h⟩ := exists_of_bind_ok h
      obtain ⟨rfl, -⟩ := Prod.mk.inj (Except.ok.inj h)
      exact isFaithful_ofFields (hfields hfs)
  · exact isFaithful_of_atom h

theorem areFaithful_of_items
    (hvalue : ∀ {cs v rest}, value depth cs = .ok (v, rest) → v.IsFaithful)
    (hitems : ∀ {cs vs rest}, items depth cs = .ok (vs, rest) → AreFaithful vs) {vs : List Json}
    (h : items (depth + 1) cs = .ok (vs, rest)) : AreFaithful vs := by
  unfold items at h
  obtain ⟨⟨v, rest'⟩, hv, h⟩ := exists_of_bind_ok h
  simp only at h
  split at h
  · obtain ⟨rfl, -⟩ := Prod.mk.inj (Except.ok.inj h)
    exact ⟨hvalue hv, trivial⟩
  · obtain ⟨⟨others, rest''⟩, hothers, h⟩ := exists_of_bind_ok h
    obtain ⟨rfl, -⟩ := Prod.mk.inj (Except.ok.inj h)
    exact ⟨hvalue hv, hitems hothers⟩
  · cases h

theorem hasFaithful_of_fields
    (hvalue : ∀ {cs v rest}, value depth cs = .ok (v, rest) → v.IsFaithful)
    (hfields : ∀ {cs fs rest}, fields depth cs = .ok (fs, rest) → HasFaithful fs)
    {fs : List (RawText × Json)} (h : fields (depth + 1) cs = .ok (fs, rest)) : HasFaithful fs := by
  unfold fields at h
  split at h
  · obtain ⟨⟨name, rest₁⟩, hname, h⟩ := exists_of_bind_ok h
    have hpaired := isPaired_of_string? (eq_some_of_orMalformed hname)
    simp only at h
    split at h
    · obtain ⟨⟨v, rest₂⟩, hv, h⟩ := exists_of_bind_ok h
      simp only at h
      split at h
      · obtain ⟨rfl, -⟩ := Prod.mk.inj (Except.ok.inj h)
        exact ⟨hpaired, hvalue hv, trivial⟩
      · obtain ⟨⟨others, rest₃⟩, hothers, h⟩ := exists_of_bind_ok h
        obtain ⟨rfl, -⟩ := Prod.mk.inj (Except.ok.inj h)
        exact ⟨hpaired, hvalue hv, hfields hothers⟩
      · cases h
    · cases h
  · cases h

/-- What the readers return, by the depth to which they may nest. -/
theorem isFaithful_readers (depth : Nat) :
    (∀ {cs v rest}, value depth cs = .ok (v, rest) → v.IsFaithful) ∧
      (∀ {cs vs rest}, items depth cs = .ok (vs, rest) → AreFaithful vs) ∧
      ∀ {cs fs rest}, fields depth cs = .ok (fs, rest) → HasFaithful fs := by
  induction depth with
  | zero => exact ⟨nofun, nofun, nofun⟩
  | succ depth ih =>
    obtain ⟨ihValue, ihItems, ihFields⟩ := ih
    exact ⟨isFaithful_of_value ihItems ihFields, areFaithful_of_items ihValue ihItems,
      hasFaithful_of_fields ihValue ihFields⟩

end Readers

/-- **What is read is faithful.** -/
theorem isFaithful_of_parse {s : String} {v : Json} (h : parse s = .ok v) : v.IsFaithful := by
  rw [parse, parseChars] at h
  obtain ⟨⟨w, rest⟩, hw, h⟩ := exists_of_bind_ok h
  simp only at h
  split at h
  · obtain rfl := Except.ok.inj h
    exact (isFaithful_readers _).1 hw
  · cases h

end ClassChart.Json
