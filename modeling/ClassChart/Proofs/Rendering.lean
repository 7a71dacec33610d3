import ClassChart.Text.Blank
import ClassChart.Proofs.LineLayout

/-!
# The lines of a rendering

A rendering is split into lines after it was written, so a text with a line break in it gives more
lines than were drawn. Where no text has one, the lines are those of the layout, each behind its
margin. A title is split into words, which have all of it but the blanks.

## Main definitions

* `Over p s`: all characters of `s` satisfy `p`
* `Text.IsWord`: a text that is a word
* `RawText.times`: a text so many times over
* `indented`, `printed`: a line at a depth, and the lines of a layout at their depths

## Main results

* `Text.lines_flatMap`: lines without breaks, each ended by a line feed, are read back
* `Text.flatten_words`: the words of a text are the text without blanks
* `Declaration.writes_eq`: what a drawing writes
* `Declaration.render_eq_printed`: a rendering without stray line breaks is the printed layout
-/

namespace ClassChart

/-! ## Texts over a class of characters -/

section Over

variable {p q : Char → Bool} {s t : String}

/-- All characters of a text satisfy `p`. -/
def Over (p : Char → Bool) (s : String) : Prop :=
  ∀ c ∈ s.toList, p c = true

instance : Decidable (Over p s) :=
  decidable_of_iff (s.toList.all p = true) List.all_eq_true

@[simp] theorem over_append : Over p (s ++ t) ↔ Over p s ∧ Over p t := by
  simp only [Over, String.toList_append, List.mem_append, or_imp, forall_and]

theorem Over.mono (hpq : ∀ c, p c = true → q c = true) (h : Over p s) : Over q s :=
  fun c hc => hpq c (h c hc)

theorem over_intercalate (hs : Over p s) :
    ∀ {words : List String}, (∀ w ∈ words, Over p w) → Over p (s.intercalate words)
  | [], _ => by simp [Over]
  | [w], h => by simpa using h w
  | w :: v :: words, h => by
    rw [String.intercalate_cons_cons, over_append, over_append]
    refine ⟨⟨h w (by simp), hs⟩, over_intercalate hs fun u hu => h u ?_⟩
    exact List.mem_cons_of_mem w hu

end Over

/-! ## Splitting into lines -/

/-- Whether a character stays on its line. -/
def isUnbroken (x : Char) : Bool :=
  !Text.isLineBreak x

/-- Whether no symbol of a raw text breaks a line. -/
def RawText.IsUnbroken (line : RawText) : Prop :=
  ∀ symbol ∈ line, symbol.isCharWith Text.isLineBreak = false

namespace RawText

theorem isUnbroken_append {a b : RawText} : IsUnbroken (a ++ b) ↔ IsUnbroken a ∧ IsUnbroken b := by
  simp only [IsUnbroken, List.mem_append, or_imp, forall_and]

theorem isUnbroken_ofString {s : String} (h : Over isUnbroken s) :
    IsUnbroken (ofString s) := by
  intro symbol hsymbol
  obtain ⟨c, hc, rfl⟩ := List.mem_map.mp hsymbol
  simpa [Symbol.isCharWith, isUnbroken] using h c hc

/-- A text so many times over. A negative number counts as zero. -/
def times (t : RawText) (n : Int) : RawText :=
  (List.replicate n.toNat t).flatten

theorem mem_of_mem_times {t : RawText} {n : Int} {symbol : Symbol} (h : symbol ∈ t.times n) :
    symbol ∈ t := by
  obtain ⟨unit, hunit, hmem⟩ := List.mem_flatten.mp h
  rwa [List.eq_of_mem_replicate hunit] at hmem

end RawText

/-- The margin is the unit of indentation, once for each level. -/
theorem Pen.margin_eq_times (indent : RawText) (depth : Int) :
    margin indent depth = indent.times depth := by
  unfold margin RawText.times
  split
  · simp_all
  · rfl

namespace Text

/-- A line without breaks is read up to the line feed after it. -/
theorem lines_append_feed {line : RawText} (h : line.IsUnbroken) (rest : RawText) :
    lines (line ++ .char '\n' :: rest) = line :: lines rest := by
  induction line with
  | nil => simp [lines, Symbol.isCharWith, isLineBreak]
  | cons symbol line ih =>
    have hbreak : symbol.isCharWith isLineBreak = false := h symbol (by simp)
    -- The clause for two symbols needs a carriage return in front, which is a break.
    have hreturn : symbol ≠ .char '\r' := by
      rintro rfl
      simp [Symbol.isCharWith, isLineBreak] at hbreak
    have hline := ih fun s hs => h s (List.mem_cons_of_mem symbol hs)
    rw [List.cons_append, lines.eq_3 _ _ (fun _ hsymbol _ => hreturn hsymbol), hbreak, hline]
    rfl

/-- **Lines without breaks, each ended by a line feed, are read back.** -/
theorem lines_flatMap {ls : List RawText} (h : ∀ line ∈ ls, line.IsUnbroken) :
    lines (ls.flatMap (· ++ [.char '\n'])) = ls := by
  induction ls with
  | nil => rfl
  | cons line ls ih =>
    have hrest := ih fun l hl => h l (List.mem_cons_of_mem line hl)
    rw [List.flatMap_cons, List.append_assoc, List.singleton_append,
      lines_append_feed (h line List.mem_cons_self), hrest]

/-- A line has no symbol that the text does not have. -/
theorem mem_of_mem_lines {t line : RawText} (hline : line ∈ lines t) {symbol : Symbol}
    (h : symbol ∈ line) : symbol ∈ t := by
  fun_induction lines t generalizing line with
  | case1 => cases hline
  | case2 rest ih =>
    rcases List.mem_cons.mp hline with rfl | hline
    · cases h
    · exact List.mem_cons_of_mem _ (List.mem_cons_of_mem _ (ih hline h))
  | case3 first rest _ _ ih =>
    rcases List.mem_cons.mp hline with rfl | hline
    · cases h
    · exact List.mem_cons_of_mem _ (ih hline h)
  | case4 first rest _ _ hnil ih =>
    rw [List.mem_singleton.mp hline, List.mem_singleton] at h
    exact List.mem_cons.mpr (.inl h)
  -- the symbol goes in front of the first line of the rest
  | case5 first rest _ _ l ls hcons ih =>
    rw [hcons] at ih
    rcases List.mem_cons.mp hline with rfl | hline
    · rcases List.mem_cons.mp h with rfl | h
      · exact List.mem_cons_self
      · exact List.mem_cons_of_mem _ (ih List.mem_cons_self h)
    · exact List.mem_cons_of_mem _ (ih (List.mem_cons_of_mem _ hline) h)

/-- No line has a break in it. -/
theorem isUnbroken_of_mem_lines {t line : RawText} (h : line ∈ lines t) : line.IsUnbroken := by
  fun_induction lines t generalizing line with
  | case1 => cases h
  | case2 rest ih =>
    rcases List.mem_cons.mp h with rfl | h
    · intro x hx
      cases hx
    · exact ih h
  | case3 symbol rest _ hbreak ih =>
    rcases List.mem_cons.mp h with rfl | h
    · intro x hx
      cases hx
    · exact ih h
  | case4 symbol rest _ hbreak hlines ih =>
    rw [List.mem_singleton.mp h]
    exact List.forall_mem_singleton.mpr (by simpa using hbreak)
  | case5 symbol rest _ hbreak l ls hlines ih =>
    rw [hlines] at ih
    rcases List.mem_cons.mp h with rfl | h
    · exact List.forall_mem_cons.mpr ⟨by simpa using hbreak, ih List.mem_cons_self⟩
    · exact ih (List.mem_cons_of_mem l h)

end Text

/-! ## Splitting into words -/

namespace Text

/-- **The words of a text are the text without blanks**, one word after the other. -/
theorem flatten_words (t : RawText) :
    (words t).flatten = t.filter fun symbol => !symbol.isCharWith isBlank := by
  -- what is not blank is kept in front of what is kept of the rest
  have hletter {a : Symbol} (ha : ¬a.isCharWith isBlank = true) (rest : RawText) :
      (a :: rest).filter (fun symbol => !symbol.isCharWith isBlank) =
        a :: rest.filter fun symbol => !symbol.isCharWith isBlank :=
    List.filter_cons_of_pos (by simpa using ha)
  fun_induction words t with
  | case1 => rfl
  | case2 a rest hblank ih => rw [ih, List.filter_cons_of_neg (by simp [hblank])]
  | case3 a ha => rw [hletter ha]; rfl
  | case4 a ha b rest _ ih => rw [List.flatten_cons, ih, hletter ha]; rfl
  | case5 a ha b rest hb hwords ih =>
    -- there is at least the word that `b` is in
    rw [hwords, hletter hb] at ih
    cases ih
  | case6 a ha b rest _ v vs hwords ih =>
    rw [hwords] at ih ⊢
    rw [hletter ha, ← ih]
    rfl

theorem ne_nil_of_mem_words {t w : RawText} (h : w ∈ words t) : w ≠ [] := by
  fun_induction words t generalizing w with
  | case1 => cases h
  | case2 a rest _ ih => exact ih h
  | case3 a _ => simp [List.mem_singleton.mp h]
  | case4 a _ b rest _ ih =>
    rcases List.mem_cons.mp h with rfl | h
    · simp
    · exact ih h
  | case5 a _ b rest _ hwords ih =>
    rw [hwords] at h
    simp [List.mem_singleton.mp h]
  | case6 a _ b rest _ v vs hwords ih =>
    rw [hwords] at h ih
    rcases List.mem_cons.mp h with rfl | h
    · simp
    · exact ih (List.mem_cons_of_mem v h)

/-- A symbol of a word is a symbol of the text that is not blank. -/
theorem mem_of_mem_words {t w : RawText} (hw : w ∈ words t) {symbol : Symbol} (h : symbol ∈ w) :
    symbol ∈ t ∧ symbol.isCharWith isBlank = false := by
  have hmem := List.mem_flatten_of_mem hw h
  rw [flatten_words, List.mem_filter] at hmem
  exact ⟨hmem.1, by simpa using hmem.2⟩

/-- A text that is a word: it is not empty, and no symbol of it is blank. -/
structure IsWord (w : RawText) : Prop where
  ne_nil : w ≠ []
  letters : ∀ symbol ∈ w, symbol.isCharWith isBlank = false

/-- The words of a text are words. -/
theorem isWord_of_mem_words {t w : RawText} (h : w ∈ words t) : IsWord w :=
  ⟨ne_nil_of_mem_words h, fun _ hsymbol => (mem_of_mem_words h hsymbol).2⟩

end Text

/-! ## Printed layouts -/

/-- A line at a depth. -/
def indented (indent : RawText) (depth : Int) (text : String) : RawText :=
  indent.times depth ++ RawText.ofString text

/-- The lines of a layout, each indented by its level. -/
def printed (indent : RawText) (depth : Int) (layout : List (Nat × String)) : List RawText :=
  layout.map fun (level, text) => indented indent (depth + level) text

section Printed

variable (indent : RawText) (depth : Int)

theorem printed_cons (level : Nat) (text : String) (ls : List (Nat × String)) :
    printed indent depth ((level, text) :: ls) =
      indented indent (depth + level) text :: printed indent depth ls := rfl

theorem printed_append (ls ms : List (Nat × String)) :
    printed indent depth (ls ++ ms) = printed indent depth ls ++ printed indent depth ms :=
  List.map_append

/-- Lines a level deeper are the lines at a depth of one more. -/
theorem printed_deeper (ls : List (Nat × String)) :
    printed indent depth (deeper ls) = printed indent (depth + 1) ls := by
  simp only [printed, deeper, List.map_map]
  refine List.map_congr_left fun l _ => ?_
  have hlevel : depth + ((l.1 + 1 : Nat) : Int) = depth + 1 + l.1 := by omega
  simp only [Function.comp_apply, hlevel]

theorem printed_level (texts : List String) :
    printed indent depth (level texts) = texts.map (indented indent depth) := by
  simp [printed, level, Function.comp_def]

end Printed

/-- A pen without limits puts out the printed lines, each with a line feed. -/
theorem Pen.output_unlimited (pen : Pen) (h : pen.limits = none) (layout : List (Nat × String)) :
    (pen.output layout).1 = (printed pen.indent pen.depth layout).map (· ++ [.char '\n']) := by
  induction layout with
  | nil => rfl
  | cons l ls ih =>
    have hrefusal : (pen.shift l.1).refusal? = none := by simp [refusal?, shift, h]
    simp only [output, hrefusal, ih, printed, List.map_cons, List.cons.injEq, and_true]
    simp [lineText, indented, margin_eq_times, shift, RawText.ofString]

namespace Declaration

/-- **What a drawing writes**: its layout from the left edge, a line feed after each line. -/
theorem writes_eq (indent : RawText) (d : Declaration) :
    d.writes indent = (printed indent 0 d.layout).map (· ++ [.char '\n']) := by
  have hdraw := Draw.emit_unlimited d.layout { indent } rfl
  rw [← draw_eq_emit] at hdraw
  have hwrites : d.writes indent = (Pen.output { indent } d.layout).1 :=
    congrArg (fun result => result.2.sink.writes) hdraw
  rw [hwrites, Pen.output_unlimited _ rfl]

/-- **A rendering without stray line breaks is the printed layout.** -/
theorem render_eq_printed {indent : RawText} {d : Declaration} (hindent : indent.IsUnbroken)
    (hlayout : ∀ l ∈ d.layout, Over isUnbroken l.2) :
    d.render indent = printed indent 0 d.layout := by
  rw [render, writes_eq, ← List.flatMap_def]
  refine Text.lines_flatMap fun line hline => ?_
  obtain ⟨l, hl, rfl⟩ := List.mem_map.mp hline
  refine RawText.isUnbroken_append.mpr ⟨?_, RawText.isUnbroken_ofString (hlayout l hl)⟩
  exact fun symbol hsymbol => hindent symbol (RawText.mem_of_mem_times hsymbol)

end Declaration

end ClassChart
