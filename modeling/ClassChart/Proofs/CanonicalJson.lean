import ClassChart.Proofs.JsonText
import ClassChart.Text.Codes

/-!
# Canonical JSON text

Sorting the fields of a value changes none of them and keeps it faithful, so the canonical text of a
faithful value denotes the value with its fields sorted. The text consists of printable ASCII and
ends of lines. In particular it has no terminal codes, and printing it leaves it as it is.

## Main definitions

* `isPlain`, `ArePlain`: the characters that JSON text consists of

## Main results

* `find?_sortedObject`: a field of a sorted object
* `isFaithful_sorted`: sorting keeps values faithful
* `arePlain_chars`: JSON text is plain
* `parse_text_line`: a line with the text of a faithful value denotes the value
* `dropCodes_of_arePlain`: printing leaves plain text as it is
-/

namespace ClassChart

/-! ## Sorted fields -/

namespace Object

/-- With different names in it an object is a look-up table. -/
theorem find?_eq_some_iff {o : Object} (h : o.names.Nodup) {name : RawText} {v : Json} :
    o.find? name = some v ↔ (name, v) ∈ o := by
  induction o with
  | nil => simp [find?]
  | cons field rest ih =>
    obtain ⟨hfield, hrest⟩ := List.nodup_cons.mp h
    rw [find?_cons, List.mem_cons]
    split
    · rename_i heq
      subst heq
      -- the name is that of the first field, so no later field has it
      have hnot : (field.1, v) ∉ rest := fun hmem => hfield (List.mem_map.mpr ⟨_, hmem, rfl⟩)
      rw [or_iff_left hnot, Option.some.injEq]
      constructor
      · rintro rfl
        rfl
      · intro heq
        rw [← heq]
    · rename_i hne
      rw [ih hrest, or_iff_right]
      rintro rfl
      exact hne rfl

/-- The order of the fields does not matter for looking them up. -/
theorem find?_of_perm {o p : Object} (hperm : o.Perm p) (h : o.names.Nodup) (name : RawText) :
    p.find? name = o.find? name := by
  have hp : p.names.Nodup := (hperm.map Prod.fst).nodup_iff.mp h
  apply Option.ext
  intro v
  rw [find?_eq_some_iff hp, find?_eq_some_iff h, hperm.mem_iff]

end Object

namespace Json

theorem sortedFields_eq_map (fields : Object) :
    sortedFields fields = fields.map fun field => (field.1, field.2.sorted) := by
  induction fields with
  | nil => rfl
  | cons field rest ih => rw [sortedFields, ih, List.map_cons]

/-- The fields of an object in the order of their names. -/
def sortedObject (fields : Object) : Object :=
  (sortedFields fields).mergeSort fun a b => RawText.le a.1 b.1

theorem sortedObject_perm (fields : Object) :
    (sortedObject fields).Perm (fields.map fun field => (field.1, field.2.sorted)) := by
  rw [← sortedFields_eq_map]
  exact List.mergeSort_perm _ _

theorem names_map_sorted (fields : Object) :
    Object.names (fields.map fun field => (field.1, field.2.sorted)) = Object.names fields := by
  rw [Object.names, List.map_map]
  rfl

theorem nodup_sortedObject {fields : Object} (h : (Object.names fields).Nodup) :
    (Object.names (sortedObject fields)).Nodup := by
  rw [← names_map_sorted] at h
  exact ((sortedObject_perm fields).map Prod.fst).nodup_iff.mpr h

/-- **A field of a sorted object** is the sorted field of the object. -/
theorem find?_sortedObject {fields : Object} (h : (Object.names fields).Nodup) (name : RawText) :
    Object.find? (sortedObject fields) name = (Object.find? fields name).map sorted := by
  have hmap : Object.find? (fields.map fun field => (field.1, field.2.sorted)) name =
      (Object.find? fields name).map sorted := by
    clear h
    induction fields with
    | nil => rfl
    | cons field rest ih =>
      rw [List.map_cons, Object.find?_cons, Object.find?_cons, ih]
      split <;> rfl
  rw [← names_map_sorted] at h
  rw [← hmap, Object.find?_of_perm (sortedObject_perm fields).symm h]

mutual

/-- **Sorting keeps values faithful.** -/
theorem isFaithful_sorted : ∀ {v : Json}, v.IsFaithful → v.sorted.IsFaithful
  | .null, h | .bool _, h | .int _, h | .float _, h | .str _, h => h
  | .arr _, h => areFaithful_sortedItems h
  | .obj fields, h => by
    refine ⟨nodup_sortedObject h.1, ?_⟩
    have hfields := hasFaithful_sortedFields h.2
    rw [hasFaithful_iff] at hfields ⊢
    intro field hfield
    exact hfields field ((List.mergeSort_perm _ _).mem_iff.mp hfield)

theorem areFaithful_sortedItems : ∀ {vs : List Json}, AreFaithful vs → AreFaithful (sortedItems vs)
  | [], _ => trivial
  | _ :: _, h => ⟨isFaithful_sorted h.1, areFaithful_sortedItems h.2⟩

theorem hasFaithful_sortedFields :
    ∀ {fields : List (RawText × Json)}, HasFaithful fields → HasFaithful (sortedFields fields)
  | [], _ => trivial
  | (_, _) :: _, h => ⟨h.1, isFaithful_sorted h.2.1, hasFaithful_sortedFields h.2.2⟩

end

/-! ## Lines of text -/

/-- A line with the text of a faithful value denotes the value. -/
theorem parse_text_line (layout : Layout) {v : Json} (h : v.IsFaithful) :
    parse (v.text layout ++ "\n") = .ok v := by
  obtain ⟨c, cs, hstart, hc, -⟩ := chars_start h layout 0
  have hends : Ends ['\n'] := by
    intro d hd
    obtain rfl : '\n' = d := by simpa using hd
    decide
  have hread := readsBack layout h 0 (2 * (v.chars layout 0 ++ ['\n']).length + 2) ['\n']
    (by rw [List.length_append]; omega) hends
  have hskip : skipSpace (v.chars layout 0 ++ ['\n']) = v.chars layout 0 ++ ['\n'] := by
    rw [hstart, List.cons_append, skipSpace_cons hc]
  have htext : (v.text layout ++ "\n").toList = v.chars layout 0 ++ ['\n'] := by
    rw [String.toList_append, text, String.toList_ofList]
    rfl
  simp only [parse, htext, parseChars, hskip, hread, bind, Except.bind]
  rfl

/-! ## Plain text -/

/-- Whether a character may stand in JSON text: printable ASCII, and ends of lines. -/
def isPlain (c : Char) : Bool :=
  c == '\n' || (' ' ≤ c && c ≤ '~')

/-- A text of plain characters. -/
def ArePlain (cs : List Char) : Prop :=
  ∀ c ∈ cs, isPlain c = true

instance (cs : List Char) : Decidable (ArePlain cs) :=
  decidable_of_iff (cs.all isPlain = true) List.all_eq_true

@[simp] theorem arePlain_nil : ArePlain [] :=
  nofun

@[simp] theorem arePlain_cons {c : Char} {cs : List Char} :
    ArePlain (c :: cs) ↔ isPlain c = true ∧ ArePlain cs :=
  List.forall_mem_cons

@[simp] theorem arePlain_append {cs ds : List Char} :
    ArePlain (cs ++ ds) ↔ ArePlain cs ∧ ArePlain ds :=
  List.forall_mem_append

theorem ArePlain.of_subset {cs ds : List Char} (h : ArePlain ds) (hsub : cs ⊆ ds) : ArePlain cs :=
  fun c hc => h c (hsub hc)

theorem arePlain_replicate {c : Char} (h : isPlain c = true) (n : Nat) :
    ArePlain (List.replicate n c) :=
  fun _ hd => List.eq_of_mem_replicate hd ▸ h

theorem ArePlain.intercalate {between : List Char} (hbetween : ArePlain between)
    {texts : List (List Char)} (h : ∀ cs ∈ texts, ArePlain cs) :
    ArePlain (between.intercalate texts) := by
  induction texts with
  | nil => exact arePlain_nil
  | cons cs rest ih =>
    obtain ⟨hcs, hrest⟩ := List.forall_mem_cons.mp h
    cases rest with
    | nil => rwa [List.intercalate_singleton]
    | cons ds rest =>
      rw [List.intercalate_cons_cons]
      exact arePlain_append.mpr ⟨arePlain_append.mpr ⟨hcs, hbetween⟩, ih hrest⟩

/-! ### Numbers -/

theorem isPlain_of_isDigit {c : Char} (h : c.isDigit = true) : isPlain c = true := by
  simp only [Char.isDigit, Bool.and_eq_true, decide_eq_true_eq] at h
  simp only [isPlain, Bool.or_eq_true, Bool.and_eq_true, decide_eq_true_eq]
  exact .inr ⟨Nat.le_trans (by decide) h.1, Nat.le_trans h.2 (by decide)⟩

theorem arePlain_toDigits (n : Nat) : ArePlain (Nat.toDigits 10 n) :=
  fun c hc => isPlain_of_isDigit (isDigit_toDigits n c hc)

theorem arePlain_sign (negative : Bool) : ArePlain (if negative then ['-'] else []) := by
  cases negative <;> decide

theorem arePlain_intText (i : Int) : ArePlain (intText i) := by
  refine arePlain_append.mpr ⟨?_, arePlain_toDigits _⟩
  split <;> decide

theorem arePlain_decimal_scientific (d : Decimal) : ArePlain d.scientific.1 := by
  intro c hc
  rw [Decimal.scientific, List.mem_reverse] at hc
  exact arePlain_toDigits d.digits c (List.mem_reverse.mp ((List.dropWhile_sublist _).subset hc))

theorem arePlain_positional {digits : List Char} (h : ArePlain digits) (exponent : Int) :
    ArePlain (Binary64.positional digits exponent) := by
  have hzeros := arePlain_replicate (c := '0') rfl
  rw [Binary64.positional]
  split
  · exact arePlain_append.mpr ⟨by simpa using ⟨rfl, rfl, hzeros _⟩, h⟩
  · have hpadded := arePlain_append.mpr ⟨h, hzeros (exponent.toNat + 1 - digits.length)⟩
    refine arePlain_append.mpr ⟨hpadded.of_subset (List.take_subset _ _), ?_⟩
    refine arePlain_cons.mpr ⟨rfl, ?_⟩
    split
    · decide
    · exact hpadded.of_subset (List.drop_subset _ _)

theorem arePlain_exponentText (exponent : Int) : ArePlain (Binary64.exponentText exponent) := by
  refine arePlain_append.mpr ⟨?_, arePlain_toDigits _⟩
  refine arePlain_cons.mpr ⟨rfl, arePlain_cons.mpr ⟨?_, arePlain_replicate rfl _⟩⟩
  split <;> rfl

theorem arePlain_scientific {digits : List Char} (h : ArePlain digits) (exponent : Int) :
    ArePlain (Binary64.scientific digits exponent) := by
  refine arePlain_append.mpr ⟨arePlain_append.mpr ⟨?_, ?_⟩, arePlain_exponentText exponent⟩
  · exact h.of_subset (List.take_subset _ _)
  · split
    · exact arePlain_nil
    · exact arePlain_cons.mpr ⟨rfl, h.of_subset (List.drop_subset _ _)⟩

theorem arePlain_float (x : Binary64) : ArePlain (x.text specialNames) := by
  cases x with
  | nan => decide
  | infinite negative => exact arePlain_append.mpr ⟨arePlain_sign negative, by decide⟩
  | finite negative mantissa exponent =>
    refine arePlain_append.mpr ⟨arePlain_sign negative, ?_⟩
    rw [Binary64.magnitudeText]
    split
    · decide
    · simp only
      split
      · exact arePlain_positional (arePlain_decimal_scientific _) _
      · exact arePlain_scientific (arePlain_decimal_scientific _) _

/-! ### Strings -/

theorem isPlain_hexDigit (n : Nat) : isPlain (Text.hexDigit n) = true := by
  have hall : ∀ d : Fin 16, isPlain (Text.hexDigit d) = true := by decide
  have hmod : Text.hexDigit n = Text.hexDigit (n % 16) := by simp [Text.hexDigit]
  rw [hmod]
  exact hall ⟨n % 16, Nat.mod_lt n (by decide)⟩

theorem arePlain_hex (width n : Nat) : ArePlain (Text.hex width n) := by
  induction width generalizing n with
  | zero => exact arePlain_nil
  | succ width ih =>
    exact arePlain_append.mpr ⟨ih _, arePlain_cons.mpr ⟨isPlain_hexDigit n, arePlain_nil⟩⟩

theorem arePlain_escapeUnit (n : Nat) : ArePlain (escapeUnit n) :=
  arePlain_cons.mpr ⟨rfl, arePlain_cons.mpr ⟨rfl, arePlain_hex 4 n⟩⟩

theorem isPlain_of_shortEscape? {e c : Char} (h : shortEscape? e = some c) : isPlain e = true := by
  unfold shortEscape? at h
  split at h
  case h_9 => cases h
  all_goals rfl

theorem arePlain_escapeSymbol (s : Symbol) : ArePlain (escapeSymbol s) := by
  cases s with
  | half index => exact arePlain_escapeUnit _
  | char c =>
    rw [escapeSymbol]
    rcases escapeChar_cases c with ⟨e, he, heq⟩ | ⟨-, -, hlow, hhigh, heq⟩ | heq
    · rw [heq]
      exact arePlain_cons.mpr ⟨rfl, arePlain_cons.mpr ⟨isPlain_of_shortEscape? he, arePlain_nil⟩⟩
    · have hplain : isPlain c = true := by simp [isPlain, hlow, hhigh]
      rw [heq]
      exact arePlain_cons.mpr ⟨hplain, arePlain_nil⟩
    · rw [heq]
      intro d hd
      obtain ⟨n, -, hd⟩ := List.mem_flatMap.mp hd
      exact arePlain_escapeUnit n d hd

theorem arePlain_stringChars (t : RawText) : ArePlain (stringChars t) := by
  refine arePlain_append.mpr ⟨arePlain_cons.mpr ⟨rfl, ?_⟩, by decide⟩
  intro c hc
  obtain ⟨symbol, -, hc⟩ := List.mem_flatMap.mp hc
  exact arePlain_escapeSymbol symbol c hc

/-! ### Values -/

theorem Layout.arePlain_lineBreak (layout : Layout) (level : Nat) :
    ArePlain (layout.lineBreak level) := by
  cases layout with
  | line => exact arePlain_nil
  | indented step => exact arePlain_cons.mpr ⟨rfl, arePlain_replicate rfl _⟩

theorem Layout.arePlain_comma (layout : Layout) (level : Nat) : ArePlain (layout.comma level) := by
  cases layout with
  | line => simp [comma, isPlain]
  | indented step => exact arePlain_cons.mpr ⟨rfl, arePlain_lineBreak (.indented step) level⟩

theorem Layout.arePlain_brackets (layout : Layout) (level : Nat) {opening closing : Char}
    (hopening : isPlain opening = true) (hclosing : isPlain closing = true)
    {items : List (List Char)} (h : ∀ cs ∈ items, ArePlain cs) :
    ArePlain (layout.brackets level opening closing items) := by
  rw [brackets]
  split
  · simp [hopening, hclosing]
  · have hitems := (layout.arePlain_comma (level + 1)).intercalate h
    simp [hopening, hclosing, hitems, arePlain_lineBreak]

mutual

/-- **JSON text is plain.** -/
theorem arePlain_chars (layout : Layout) : ∀ (level : Nat) (v : Json), ArePlain (v.chars layout level)
  | _, .null => (by decide : ArePlain "null".toList)
  | _, .bool true => (by decide : ArePlain "true".toList)
  | _, .bool false => (by decide : ArePlain "false".toList)
  | _, .int i => arePlain_intText i
  | _, .float x => arePlain_float x
  | _, .str s => arePlain_stringChars s
  | level, .arr items => layout.arePlain_brackets level rfl rfl (arePlain_itemChars layout level items)
  | level, .obj fields =>
    layout.arePlain_brackets level rfl rfl (arePlain_fieldChars layout level fields)

theorem arePlain_itemChars (layout : Layout) (level : Nat) :
    ∀ (items : List Json), ∀ cs ∈ itemChars layout level items, ArePlain cs
  | [] => nofun
  | v :: rest => List.forall_mem_cons.mpr
    ⟨arePlain_chars layout (level + 1) v, arePlain_itemChars layout level rest⟩

theorem arePlain_fieldChars (layout : Layout) (level : Nat) :
    ∀ (fields : List (RawText × Json)), ∀ cs ∈ fieldChars layout level fields, ArePlain cs
  | [] => nofun
  | (name, v) :: rest => by
    refine List.forall_mem_cons.mpr ⟨?_, arePlain_fieldChars layout level rest⟩
    refine arePlain_append.mpr ⟨arePlain_stringChars name, ?_⟩
    refine arePlain_cons.mpr ⟨rfl, arePlain_cons.mpr ⟨rfl, ?_⟩⟩
    exact arePlain_chars layout (level + 1) v

end

/-- Canonical text is plain. -/
theorem arePlain_canonical (v : Json) : ArePlain v.canonical.toList := by
  rw [canonical, text, String.toList_ofList]
  exact arePlain_chars _ 0 _

end Json

/-! ## Printing -/

/-- A text without the sign that terminal codes start with has none. -/
theorem Text.dropCodes_of_notMem {t : RawText} (h : .char escapeSign ∉ t) : dropCodes t = t := by
  rw [dropCodes]
  induction t with
  | nil => rfl
  | cons symbol rest ih =>
    obtain ⟨hsymbol, hrest⟩ := not_or.mp (mt List.mem_cons.mpr h)
    cases symbol with
    | half index => rw [dropCodesAfter, ih hrest, releaseCode]; rfl
    | char c =>
      have hne : c ≠ escapeSign := fun heq => hsymbol (heq ▸ rfl)
      have hcontinues : continuesCode [] c = false := beq_eq_false_iff_ne.mpr hne
      rw [dropCodesAfter, ih hrest, hcontinues, if_neg hne]
      rfl

/-- **Printing leaves plain text as it is.** -/
theorem Text.dropCodes_of_arePlain {s : String} (h : Json.ArePlain s.toList) :
    dropCodes (RawText.ofString s) = RawText.ofString s := by
  apply dropCodes_of_notMem
  intro hmem
  obtain ⟨c, hc, heq⟩ := List.mem_map.mp hmem
  have hplain := h c hc
  rw [Symbol.char.inj heq] at hplain
  exact absurd hplain (by decide)

end ClassChart
