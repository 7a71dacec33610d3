import ClassChart.Text.Blank

/-!
# Diagram documents

A document is the lines of a drawing, in a frame if it is to stand alone. A title is set on one
line, whatever blanks and line breaks it was given with.

## Main definitions

* `titleLine`: the line that sets a title.
* `documentLines`, `document`: the lines and the text of a document.
-/

namespace ClassChart

/-- The line that sets a title, with one blank between words. -/
def titleLine (title : RawText) : RawText :=
  RawText.ofString "title " ++ [.char ' '].intercalate (Text.words title)

theorem mem_intercalate {symbol separator : Symbol} :
    ∀ {ws : List RawText}, symbol ∈ [separator].intercalate ws →
      symbol = separator ∨ ∃ w ∈ ws, symbol ∈ w
  | [], h => by simp at h
  | [w], h => .inr ⟨w, List.mem_singleton_self w, by simpa using h⟩
  | w :: v :: ws, h => by
    rw [List.intercalate_cons_cons, List.append_assoc, List.mem_append, List.singleton_append,
      List.mem_cons] at h
    rcases h with h | h | h
    · exact .inr ⟨w, List.mem_cons_self, h⟩
    · exact .inl h
    · rcases mem_intercalate h with h | ⟨u, hu, h⟩
      · exact .inl h
      · exact .inr ⟨u, List.mem_cons_of_mem w hu, h⟩

/-- A symbol of a title line stands in a word of the title, or before or between them. -/
theorem mem_titleLine {title : RawText} {symbol : Symbol} (h : symbol ∈ titleLine title) :
    symbol ∈ RawText.ofString "title " ∨ ∃ w ∈ Text.words title, symbol ∈ w := by
  rcases List.mem_append.mp h with h | h
  · exact .inl h
  · rcases mem_intercalate h with rfl | h
    · exact .inl (by decide)
    · exact .inr h

/-- The title line, unless there is no title or it is empty. -/
def titleLines : Option RawText → List RawText
  | some title => if title.isEmpty then [] else [titleLine title]
  | none => []

theorem exists_of_mem_titleLines {title : Option RawText} {line : RawText}
    (h : line ∈ titleLines title) : ∃ t ∈ title, line = titleLine t := by
  unfold titleLines at h
  split at h
  · split at h
    · cases h
    · exact ⟨_, rfl, List.mem_singleton.mp h⟩
  · cases h

/-- The line that opens the frame. -/
def frameStart : RawText := "@startuml"

/-- The line that closes the frame. -/
def frameEnd : RawText := "@enduml"

/-- The lines of a document. Only a framed one can have a title. -/
def documentLines (drawing : List RawText) (title : Option RawText) (framed : Bool) :
    List RawText :=
  if framed then frameStart :: titleLines title ++ drawing ++ [frameEnd] else drawing

/-- A line of a document is drawn, a title line, or a line of the frame. -/
theorem mem_documentLines {drawing : List RawText} {title : Option RawText} {framed : Bool}
    {line : RawText} (h : line ∈ documentLines drawing title framed) :
    line ∈ drawing ∨ line ∈ titleLines title ∨ line = frameStart ∨ line = frameEnd := by
  cases framed with
  | false => exact .inl h
  | true =>
    simp only [documentLines, if_true, List.mem_append, List.mem_cons, List.not_mem_nil,
      or_false] at h
    rcases h with ((h | h) | h) | h
    · exact .inr (.inr (.inl h))
    · exact .inr (.inl h)
    · exact .inl h
    · exact .inr (.inr (.inr h))

/-- The text of a document, with a line feed after each line. -/
def document (drawing : List RawText) (title : Option RawText) (framed : Bool) : RawText :=
  (documentLines drawing title framed).flatMap (· ++ [.char '\n'])

end ClassChart
