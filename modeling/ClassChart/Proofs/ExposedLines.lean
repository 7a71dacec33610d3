import ClassChart.Proofs.Rendering

/-!
# Lines that stand alone

A text with line breaks in it takes several lines where it is written. A line stands alone there if
it has a break on both sides, in the text or around it. Where other text stands beside, that may
keep a line from standing alone: a symbol that the line does not have keeps both sides of it apart.

## Main definitions

* `Exposed`, `Shown`: a line stands alone in a text
* `IsBare`: a line without any of the marks that are drawn between texts
* `IsSeparator`: a text of such marks

## Main results

* `exposed_append_cons`: a symbol that a line has not keeps what is before and behind it apart
* `Text.mem_lines_iff`: the lines of a text are those that are exposed in it
* `IsBare.shown_append`, `IsBare.shown_intercalate`: what texts with separators between them show
-/

namespace ClassChart

/-! ## Lines that stand alone -/

/-- Whether a symbol ends a line. -/
def Symbol.isBreak (x : Symbol) : Bool :=
  x.isCharWith Text.isLineBreak

/-- A line break, or the end of a text where that counts as one. -/
def IsEdge (edge : Bool) : Option Symbol → Prop
  | some x => x.isBreak = true
  | none => edge = true

/-- **A line stands alone in a text.** It has a line break on both sides. The start of the text
counts as one if it `opens` a line, and its end if it `closes` one. -/
def Exposed (line : RawText) (opens closes : Bool) (t : RawText) : Prop :=
  ∃ front back, t = front ++ (line ++ back) ∧ IsEdge opens front.getLast? ∧
    IsEdge closes back.head?

section Exposed

variable {line t a b : RawText} {x : Symbol} {opens closes : Bool}

theorem isEdge_getLast? (a : RawText) (x : Symbol) (b : RawText) :
    IsEdge opens (a ++ x :: b).getLast? ↔ IsEdge x.isBreak b.getLast? := by
  cases hlast : b.getLast? with
  | none =>
    rw [List.getLast?_eq_none_iff.mp hlast, List.getLast?_concat]
    exact Iff.rfl
  | some y =>
    have hfront : (a ++ x :: b).getLast? = some y := by
      rw [List.getLast?_append, List.getLast?_cons, hlast]
      rfl
    rw [hfront]
    exact Iff.rfl

theorem isEdge_head? (a : RawText) (x : Symbol) (b : RawText) :
    IsEdge closes (a ++ x :: b).head? ↔ IsEdge x.isBreak a.head? := by
  cases a with
  | nil => exact Iff.rfl
  | cons y a => exact Iff.rfl

theorem not_exposed_nil (hline : line ≠ []) : ¬Exposed line opens closes [] := by
  rintro ⟨front, back, ht, -, -⟩
  simp_all

/-- **A symbol that a line has not keeps what is before and behind it apart.** The line is exposed
on one of the sides, of which the symbol is an edge if it is a line break. -/
theorem exposed_append_cons (hline : line ≠ []) (hx : x ∉ line) :
    Exposed line opens closes (a ++ x :: b) ↔
      Exposed line opens x.isBreak a ∨ Exposed line x.isBreak closes b := by
  constructor
  · rintro ⟨front, back, ht, hfront, hback⟩
    rcases List.append_eq_append_iff.mp ht with ⟨as, rfl, hb⟩ | ⟨bs, rfl, hb⟩
    · -- the line starts behind the symbol
      rcases List.cons_eq_append_iff.mp hb with ⟨rfl, hb⟩ | ⟨as', rfl, rfl⟩
      · obtain ⟨y, line', rfl⟩ := List.exists_cons_of_ne_nil hline
        cases hb
        simp at hx
      · exact .inr ⟨as', back, rfl, (isEdge_getLast? a x as').mp hfront, hback⟩
    · -- the line starts before the symbol, and so it ends there too
      rcases List.append_eq_append_iff.mp hb with ⟨cs, rfl, rfl⟩ | ⟨cs, rfl, hcs⟩
      · exact .inl ⟨front, cs, rfl, hfront, (isEdge_head? cs x b).mp hback⟩
      · rcases List.cons_eq_append_iff.mp hcs with ⟨rfl, rfl⟩ | ⟨cs', rfl, -⟩
        · refine .inl ⟨front, [], by simp, hfront, ?_⟩
          exact (isEdge_head? [] x b).mp hback
        · simp at hx
  · rintro (⟨front, back, rfl, hfront, hback⟩ | ⟨front, back, rfl, hfront, hback⟩)
    · refine ⟨front, back ++ x :: b, by simp, hfront, (isEdge_head? back x b).mpr hback⟩
    · refine ⟨a ++ x :: front, back, by simp, (isEdge_getLast? a x front).mpr hfront, hback⟩

/-- Where there is no line break, only a whole text stands alone, if it opens and closes a line. -/
theorem exposed_of_isUnbroken (ht : t.IsUnbroken) :
    Exposed line opens closes t ↔ line = t ∧ opens = true ∧ closes = true := by
  constructor
  · rintro ⟨front, back, rfl, hfront, hback⟩
    have hedge {edge : Bool} {o : Option Symbol} (ho : ∀ x ∈ o, x ∈ front ++ (line ++ back))
        (h : IsEdge edge o) : o = none ∧ edge = true := by
      cases o with
      | none => exact ⟨rfl, h⟩
      | some x => exact absurd h (by simp [IsEdge, Symbol.isBreak, ht x (ho x rfl)])
    obtain ⟨hfront, hopens⟩ := hedge (fun x hx => by simp [List.mem_of_getLast? hx]) hfront
    obtain ⟨hback, hcloses⟩ := hedge (fun x hx => by simp [List.mem_of_head? hx]) hback
    rw [List.getLast?_eq_none_iff.mp hfront, List.head?_eq_none_iff.mp hback]
    exact ⟨by simp, hopens, hcloses⟩
  · rintro ⟨rfl, rfl, rfl⟩
    exact ⟨[], [], by simp, rfl, rfl⟩

end Exposed

namespace Text

/-- A text has no line break, or a first one. -/
theorem isUnbroken_or_exists_break (t : RawText) :
    t.IsUnbroken ∨ ∃ (a : RawText) (x : Symbol) (b : RawText),
      t = a ++ x :: b ∧ a.IsUnbroken ∧ x.isBreak = true := by
  induction t with
  | nil => exact .inl fun x hx => by cases hx
  | cons y t ih =>
    cases hy : y.isBreak with
    | true => exact .inr ⟨[], y, t, rfl, (fun x hx => by cases hx), hy⟩
    | false =>
      rcases ih with ih | ⟨a, x, b, rfl, ha, hx⟩
      · exact .inl (List.forall_mem_cons.mpr ⟨hy, ih⟩)
      · exact .inr ⟨y :: a, x, b, rfl, List.forall_mem_cons.mpr ⟨hy, ha⟩, hx⟩

/-- A symbol that is no line break is read with what follows. -/
theorem lines_cons {x : Symbol} (hx : x.isBreak = false) (t : RawText) :
    lines (x :: t) = match lines t with
      | [] => [[x]]
      | l :: ls => (x :: l) :: ls := by
  have hreturn : x ≠ .char '\r' := by
    rintro rfl
    simp [Symbol.isBreak, Symbol.isCharWith, isLineBreak] at hx
  rw [lines.eq_3 _ _ (fun _ hsymbol _ => hreturn hsymbol), ← Symbol.isBreak, hx]
  rfl

theorem lines_of_isUnbroken {t : RawText} (hne : t ≠ []) (ht : t.IsUnbroken) : lines t = [t] := by
  induction t with
  | nil => exact absurd rfl hne
  | cons x t ih =>
    obtain ⟨hx, ht⟩ := List.forall_mem_cons.mp ht
    rw [lines_cons hx]
    cases t with
    | nil => rfl
    | cons y t => rw [ih (by simp) ht]

/-- Up to its first break a text is one line. Of two symbols that are one break, the second is an
empty line for itself, which does not matter to other lines. -/
theorem lines_append_break {a : RawText} {x : Symbol} (ha : a.IsUnbroken) (hx : x.isBreak = true)
    (b : RawText) : ∃ ls, lines (a ++ x :: b) = a :: ls ∧
      ∀ line, line ≠ [] → (line ∈ ls ↔ line ∈ lines b) := by
  induction a with
  | nil =>
    rw [List.nil_append]
    by_cases hpair : ∃ rest, x = .char '\r' ∧ b = .char '\n' :: rest
    · obtain ⟨rest, rfl, rfl⟩ := hpair
      have hfeed : lines (.char '\n' :: rest) = [] :: lines rest :=
        lines_append_feed ha rest
      refine ⟨lines rest, lines.eq_2 rest, fun line hline => ?_⟩
      rw [hfeed, List.mem_cons, or_iff_right hline]
    · refine ⟨lines b, ?_, fun line _ => Iff.rfl⟩
      rw [lines.eq_3 _ _ (fun rest hreturn hfeed => hpair ⟨rest, hreturn, hfeed⟩)]
      exact if_pos hx
  | cons y a ih =>
    obtain ⟨hy, ha⟩ := List.forall_mem_cons.mp ha
    obtain ⟨ls, hls, hmem⟩ := ih ha
    refine ⟨ls, ?_, hmem⟩
    rw [List.cons_append, lines_cons hy, hls]

/-- **The lines of a text are those that are exposed in it**, empty ones apart. -/
theorem mem_lines_iff {line : RawText} (hne : line ≠ []) (hline : line.IsUnbroken) (t : RawText) :
    line ∈ lines t ↔ Exposed line true true t := by
  -- by the first line break, as the lines behind it are those of a shorter text
  induction hlength : t.length using Nat.strongRecOn generalizing t with
  | ind n ih =>
    rcases isUnbroken_or_exists_break t with ht | ⟨a, x, b, rfl, ha, hx⟩
    · rw [exposed_of_isUnbroken ht]
      by_cases hempty : t = []
      · simp [hempty, lines, hne]
      · rw [lines_of_isUnbroken hempty ht]
        simp
    · have hmem : x ∉ line := fun h => by simp [hline x h, Symbol.isBreak] at hx
      have hshort : b.length < n := by
        simp only [List.length_append, List.length_cons] at hlength
        omega
      obtain ⟨ls, hls, hrest⟩ := lines_append_break ha hx b
      rw [exposed_append_cons hne hmem, hx, exposed_of_isUnbroken ha, hls, List.mem_cons,
        hrest line hne, ih b.length hshort b rfl]
      simp

end Text

/-! ## Marks between texts -/

/-- The marks that are drawn between texts, and the symbols of margins. -/
def isMark (c : Char) : Bool :=
  [' ', '\t', '(', ')', ':', ',', '<', '>', '=', '|', '-', '+', '#', '\x7b', '\x7d'].contains c

/-- **A bare line** is not empty, and has neither line breaks nor marks. -/
structure IsBare (line : RawText) : Prop where
  ne_nil : line ≠ []
  unbroken : line.IsUnbroken
  unmarked : ∀ c, .char c ∈ line → isMark c = false

/-- A text of marks that is drawn between other texts. -/
def IsSeparator (sep : String) : Prop :=
  sep ≠ "" ∧ Over isMark sep

instance (sep : String) : Decidable (IsSeparator sep) :=
  inferInstanceAs (Decidable (sep ≠ "" ∧ Over isMark sep))

theorem isUnbroken_of_isMark {c : Char} (h : isMark c = true) : isUnbroken c = true := by
  have hmarks : Over isUnbroken " \t():,<>=|-+#\x7b\x7d" := by decide
  exact hmarks c (List.contains_iff_mem.mp h)

theorem isBreak_of_isMark {c : Char} (h : isMark c = true) : (Symbol.char c).isBreak = false := by
  simpa [isUnbroken, Symbol.isBreak, Symbol.isCharWith] using isUnbroken_of_isMark h

/-- A string without line breaks and marks is bare. -/
theorem isBare_ofString {s : String} (hne : s ≠ "") (h : Over isUnbroken s)
    (hmarks : Over (fun c => !isMark c) s) : IsBare s where
  ne_nil hnil := hne (by simpa [RawText.ofString] using hnil)
  unbroken := RawText.isUnbroken_ofString h
  unmarked c hc := by
    obtain ⟨d, hd, heq⟩ := List.mem_map.mp hc
    simpa [Symbol.char.inj heq] using hmarks d hd

/-- A line stands alone in a string. -/
def Shown (line : RawText) (opens closes : Bool) (s : String) : Prop :=
  Exposed line opens closes (RawText.ofString s)

theorem RawText.ofString_append (s t : String) : ofString (s ++ t) = ofString s ++ ofString t := by
  simp [ofString]

section Shown

variable {line : RawText} (hline : IsBare line) {opens closes : Bool} {sep s t : String}

include hline

/-- A mark keeps what is before and behind it apart. -/
theorem IsBare.exposed_mark {c : Char} (hc : isMark c = true) (a b : RawText) :
    Exposed line opens closes (a ++ .char c :: b) ↔
      Exposed line opens false a ∨ Exposed line false closes b := by
  have hmem : Symbol.char c ∉ line := fun h => by simp [hline.unmarked c h] at hc
  rw [exposed_append_cons hline.ne_nil hmem, isBreak_of_isMark hc]

theorem IsBare.exposed_marks {marks : List Char} (hmarks : ∀ c ∈ marks, isMark c = true)
    (b : RawText) :
    Exposed line false closes (marks.map .char ++ b) ↔ Exposed line false closes b := by
  induction marks with
  | nil => exact Iff.rfl
  | cons c marks ih =>
    obtain ⟨hc, hmarks⟩ := List.forall_mem_cons.mp hmarks
    rw [List.map_cons, List.cons_append, ← List.nil_append (_ :: _), hline.exposed_mark hc,
      ih hmarks]
    exact or_iff_right (not_exposed_nil hline.ne_nil)

theorem IsBare.not_shown_empty : ¬Shown line opens closes "" :=
  not_exposed_nil hline.ne_nil

/-- **A separator keeps texts apart**: neither reaches the end of a line there. -/
theorem IsBare.shown_append (hsep : IsSeparator sep) (s t : String) :
    Shown line opens closes (s ++ (sep ++ t)) ↔
      Shown line opens false s ∨ Shown line false closes t := by
  obtain ⟨hne, hmarks⟩ := hsep
  unfold Shown
  rw [RawText.ofString_append, RawText.ofString_append]
  cases hchars : sep.toList with
  | nil => exact absurd (String.toList_eq_nil_iff.mp hchars) hne
  | cons c marks =>
    rw [Over, hchars] at hmarks
    obtain ⟨hc, hmarks⟩ := List.forall_mem_cons.mp hmarks
    have hsep : RawText.ofString sep = .char c :: marks.map .char := by
      simp [RawText.ofString, hchars]
    rw [hsep, List.cons_append, hline.exposed_mark hc, hline.exposed_marks hmarks]

theorem IsBare.shown_cons (hsep : IsSeparator sep) (t : String) :
    Shown line opens closes (sep ++ t) ↔ Shown line false closes t := by
  rw [← String.empty_append (s := sep ++ t), hline.shown_append hsep]
  exact or_iff_right hline.not_shown_empty

theorem IsBare.shown_concat (hsep : IsSeparator sep) (s : String) :
    Shown line opens closes (s ++ sep) ↔ Shown line opens false s := by
  rw [← String.append_empty (s := sep), hline.shown_append hsep]
  exact or_iff_left hline.not_shown_empty

omit hline in
theorem not_shown_of_over (hs : Over isUnbroken s) (h : ¬(opens = true ∧ closes = true)) :
    ¬Shown line opens closes s := by
  unfold Shown
  rw [exposed_of_isUnbroken (RawText.isUnbroken_ofString hs)]
  exact fun hshown => h hshown.2

theorem IsBare.not_shown_separator (hsep : IsSeparator sep) : ¬Shown line opens closes sep := by
  rw [← String.append_empty (s := sep), hline.shown_cons hsep]
  exact hline.not_shown_empty

/-- Of texts with separators between them, one shows the line. Only the first can reach the start of
a line and only the last its end. -/
theorem IsBare.shown_intercalate {α : Type} {f : α → String} {p : α → Prop} {as : List α}
    (hsep : IsSeparator sep)
    (h : ∀ a ∈ as, ∀ o c, (o = true → opens = true) → (c = true → closes = true) →
      (Shown line o c (f a) ↔ p a)) :
    Shown line opens closes (sep.intercalate (as.map f)) ↔ ∃ a ∈ as, p a := by
  induction as generalizing opens with
  | nil => simpa using hline.not_shown_empty
  | cons a as ih =>
    obtain ⟨ha, has⟩ := List.forall_mem_cons.mp h
    cases as with
    | nil => simpa using ha opens closes id id
    | cons b as =>
      -- behind the separator nothing reaches the start of the line any more
      have hrest : Shown line false closes (sep.intercalate ((b :: as).map f)) ↔
          ∃ a ∈ b :: as, p a :=
        ih fun a ha o c ho hc => has a ha o c (fun h => absurd (ho h) (by simp)) hc
      rw [List.map_cons] at hrest
      rw [List.map_cons, List.map_cons, String.intercalate_cons_cons, String.append_assoc,
        hline.shown_append hsep, ha opens false id (by simp), hrest]
      simp

theorem IsBare.shown_words (hsep : IsSeparator sep) (words : List String) :
    Shown line false false (sep.intercalate words) ↔ ∃ w ∈ words, Shown line false false w := by
  have hword : ∀ w ∈ words, ∀ o c, (o = true → false = true) → (c = true → false = true) →
      (Shown line o c (id w) ↔ Shown line false false w) := by
    intro w _ o c ho hc
    rw [Bool.eq_false_iff.mpr fun h => absurd (ho h) (by simp),
      Bool.eq_false_iff.mpr fun h => absurd (hc h) (by simp), id]
  have hwords := hline.shown_intercalate hsep hword
  rwa [List.map_id] at hwords

end Shown

end ClassChart
