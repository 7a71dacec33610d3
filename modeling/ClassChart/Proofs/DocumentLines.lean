import ClassChart.Proofs.DocumentFrame

/-!
# The lines of a document

A document is put together from lines and read line by line. What a drawing has on one line has no
line break left in it, so each line comes back as it was put in, empty lines among them. A title is
taken apart into its words first, and as every line break is blank, none is left in it and no word
is lost.

## Main results

* `Text.words_append`: a word ends at the first blank behind it
* `Text.words_intercalate`: words with a blank between them are read back
* `lines_document`: the lines of a document are those that it is put together from
-/

namespace ClassChart

/-! ## Words -/

namespace Text

theorem words_cons_blank {a : Symbol} (ha : a.isCharWith isBlank = true) (t : RawText) :
    words (a :: t) = words t := by
  cases t with
  | nil => simp [words, ha]
  | cons b t => simp [words, ha]

/-- **A word ends at the first blank behind it**, or at the end of the text. -/
theorem words_append {w : RawText} (hw : IsWord w) {t : RawText}
    (ht : ∀ symbol ∈ t.head?, symbol.isCharWith isBlank = true) : words (w ++ t) = w :: words t := by
  obtain ⟨hne, hletters⟩ := hw
  induction w with
  | nil => exact absurd rfl hne
  | cons a w ih =>
    obtain ⟨ha, hrest⟩ := List.forall_mem_cons.mp hletters
    cases w with
    | nil =>
      cases t with
      | nil => simp [words, ha]
      | cons b t => simp [words, ha, ht b rfl]
    | cons b w =>
      -- the letter behind `a` is no blank either, so `a` is put in front of the word it starts
      have hb : b.isCharWith isBlank = false := hrest b List.mem_cons_self
      have hword := ih (List.cons_ne_nil b w) hrest
      rw [List.cons_append] at hword ⊢
      simp [words, ha, hb, hword]

/-- A word and what stands behind a blank after it. -/
theorem words_append_space {w : RawText} (hw : IsWord w) (t : RawText) :
    words (w ++ .char ' ' :: t) = w :: words t := by
  have hblank : (Symbol.char ' ').isCharWith isBlank = true := by decide
  rw [words_append hw (by simp [hblank]), words_cons_blank hblank]

/-- **Words with a blank between them are read back.** -/
theorem words_intercalate :
    ∀ {ws : List RawText}, (∀ w ∈ ws, IsWord w) → words ([.char ' '].intercalate ws) = ws
  | [], _ => rfl
  | [w], h => by
    have hword : words (w ++ []) = w :: words [] := words_append (h w List.mem_cons_self) (by simp)
    rw [List.append_nil] at hword
    rw [List.intercalate_singleton, hword, words]
  | w :: v :: ws, h => by
    obtain ⟨hw, hrest⟩ := List.forall_mem_cons.mp h
    rw [List.intercalate_cons_cons, List.append_assoc, List.singleton_append, words_append_space hw,
      words_intercalate hrest]

end Text

/-- **A title line has the words of the title**, after the word that says what it is. -/
theorem words_titleLine (title : RawText) :
    Text.words (titleLine title) = RawText.ofString "title" :: Text.words title := by
  have hkeyword : Text.IsWord (RawText.ofString "title") := ⟨by decide, by decide +kernel⟩
  have hspace : titleLine title =
      RawText.ofString "title" ++ .char ' ' :: [.char ' '].intercalate (Text.words title) := rfl
  rw [hspace, Text.words_append_space hkeyword,
    Text.words_intercalate fun w hw => Text.isWord_of_mem_words hw]

/-! ## Lines -/

/-- There is one title line, unless the title is missing or empty. -/
theorem titleLines_eq (title : Option RawText) :
    titleLines title = if title.getD [] = [] then [] else [titleLine (title.getD [])] := by
  cases title with
  | none => rfl
  | some t => simp only [titleLines, Option.getD_some, List.isEmpty_iff]

/-- **No line of a document is lost and no two are merged.** Read line by line, a document without a
frame is the drawing, and a framed one is the opening line, a title line if there is a title, the
drawing and the closing line. No title breaks its line, and its words are all there, in order. -/
theorem lines_document (d : Declaration) (indent : RawText) (title : Option RawText)
    (framed : Bool) :
    Text.lines (document (d.render indent) title framed) =
        (if framed then
          RawText.ofString "@startuml" ::
            (if title.getD [] = [] then [] else [titleLine (title.getD [])]) ++
              d.render indent ++ [RawText.ofString "@enduml"]
        else d.render indent) ∧
      ∀ t : RawText, (∀ symbol ∈ titleLine t, symbol.isCharWith Text.isLineBreak = false) ∧
        Text.words (titleLine t) = RawText.ofString "title" :: Text.words t := by
  constructor
  · rw [document, Text.lines_flatMap (unbroken_documentLines d indent title framed), documentLines,
      titleLines_eq]
    rfl
  · intro t
    exact ⟨isUnbroken_titleLine t, words_titleLine t⟩

end ClassChart
