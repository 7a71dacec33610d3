import ClassChart.Proofs.Decoding
import ClassChart.Proofs.JobRuns
import ClassChart.Proofs.Walk

/-!
# The forms of a source file

Editors write the same text in different forms: with a byte order mark or without one, and with
different ends of lines. The text that is read from a file is the same for all forms, and so are its
declarations and its diagram. Both are those of the text itself, as the parser only ever sees the
text encoded anew.

## Main definitions

* `LineEnd`, `LineEnd.put`: the three ends of lines, and a text with one of them
* `FileForm`, `FileForm.bytes`: the forms in which a text can stand in a file

## Main results

* `LineEnd.unifyBreaks_put`: reading undoes the choice of line ends
* `Text.Utf8.dropMark_encode`: a text that does not start with the mark loses nothing
* `FileForm.decodeFile_bytes`: every form of a text is read as the text
* `parseFile_of_form`: the declarations and the diagram of a file do not depend on its form
-/

namespace ClassChart

open Text (Bytes unifyBreaks)
open Text.Utf8 (encode byteOrderMark dropMark decodeFile)

/-! ## Ends of lines -/

/-- What stands at the end of a line. -/
inductive LineEnd where
  | feed
  | returnFeed
  | carriageReturn
  deriving DecidableEq, Repr

namespace LineEnd

/-- The characters of a line end. -/
def chars : LineEnd → List Char
  | .feed => ['\n']
  | .returnFeed => ['\r', '\n']
  | .carriageReturn => ['\r']

/-- The characters of a text, where each line feed is replaced by the line end. -/
def putChars (lineEnd : LineEnd) (cs : List Char) : List Char :=
  cs.flatMap fun c => if c = '\n' then lineEnd.chars else [c]

/-- The text with each line feed replaced by the line end. -/
def put (lineEnd : LineEnd) (t : String) : String :=
  String.ofList (lineEnd.putChars t.toList)

theorem putChars_cons_feed (lineEnd : LineEnd) (cs : List Char) :
    lineEnd.putChars ('\n' :: cs) = lineEnd.chars ++ lineEnd.putChars cs := by
  rw [putChars, List.flatMap_cons, if_pos rfl, putChars]

theorem putChars_cons (lineEnd : LineEnd) {c : Char} (hc : c ≠ '\n') (cs : List Char) :
    lineEnd.putChars (c :: cs) = c :: lineEnd.putChars cs := by
  rw [putChars, List.flatMap_cons, if_neg hc, List.singleton_append, putChars]

/-- No line feed is left where carriage returns stand in for all of them. -/
theorem feed_notMem_putChars (cs : List Char) : '\n' ∉ carriageReturn.putChars cs := by
  intro hmem
  obtain ⟨c, -, hc⟩ := List.mem_flatMap.mp hmem
  split at hc
  · exact absurd hc (by decide)
  · rename_i hne
    exact hne (List.mem_singleton.mp hc).symm

/-- A line end is read as one line feed, whatever the text after it. -/
theorem unifyBreaks_chars_append (lineEnd : LineEnd) (cs : List Char) :
    unifyBreaks (lineEnd.chars ++ lineEnd.putChars cs) =
      '\n' :: unifyBreaks (lineEnd.putChars cs) := by
  cases lineEnd with
  | feed => rfl
  | returnFeed => rfl
  | carriageReturn =>
    -- a carriage return takes a line feed with it, but none can follow
    have hfeed := feed_notMem_putChars cs
    rw [chars, List.singleton_append]
    cases hrest : carriageReturn.putChars cs with
    | nil => rfl
    | cons c rest =>
      rw [hrest] at hfeed
      have hc : c ≠ '\n' := fun h => hfeed (h ▸ List.mem_cons_self)
      rw [Text.unifyBreaks.eq_3]
      rintro rest' h
      exact hc (List.cons.inj h).1

/-- **Reading undoes the choice of line ends**, if there were no carriage returns before it. -/
theorem unifyBreaks_put (lineEnd : LineEnd) {cs : List Char} (h : '\r' ∉ cs) :
    unifyBreaks (lineEnd.putChars cs) = cs := by
  induction cs with
  | nil => rfl
  | cons c cs ih =>
    obtain ⟨hc, hcs⟩ := not_or.mp (mt List.mem_cons.mpr h)
    by_cases hfeed : c = '\n'
    · subst hfeed
      rw [putChars_cons_feed, unifyBreaks_chars_append, ih hcs]
    · rw [putChars_cons lineEnd hfeed, Text.unifyBreaks.eq_4, ih hcs]
      · intro rest hreturn
        exact absurd hreturn.symm hc
      · intro hreturn
        exact hc hreturn.symm

/-- Line ends bring no other character to the front. -/
theorem head?_putChars {lineEnd : LineEnd} {cs : List Char} {c : Char} (hc : c ≠ '\r')
    (h : (lineEnd.putChars cs).head? = some c) : cs.head? = some c := by
  cases cs with
  | nil => cases h
  | cons d cs =>
    by_cases hd : d = '\n'
    · subst hd
      rw [putChars_cons_feed] at h
      cases lineEnd with
      | feed => exact h
      | returnFeed => exact absurd (Option.some.inj h).symm hc
      | carriageReturn => exact absurd (Option.some.inj h).symm hc
    · rwa [putChars_cons lineEnd hd] at h

end LineEnd

/-! ## The byte order mark -/

namespace Text.Utf8

/-- Only a text that starts with the mark has bytes that do. -/
theorem head?_of_encode_eq_mark {s : String} {rest : Bytes}
    (h : encode s = byteOrderMark ++ rest) : s.toList.head? = some '\ufeff' := by
  have hpieces : pieces (byteOrderMark ++ rest) = .char '\ufeff' :: pieces rest :=
    piecesAfter_encodeChar '\ufeff' rest
  rw [← h, pieces_encode] at hpieces
  cases hs : s.toList with
  | nil =>
    rw [hs] at hpieces
    cases hpieces
  | cons c cs =>
    rw [hs, List.map_cons] at hpieces
    rw [List.head?_cons, Piece.char.inj (List.cons.inj hpieces).1]

theorem dropMark_mark_append (bytes : Bytes) : dropMark (byteOrderMark ++ bytes) = bytes := by
  rw [dropMark]
  split
  case isTrue hcut =>
    obtain ⟨rest, hrest⟩ := List.isPrefixOf_iff_prefix.mp hcut
    rw [List.append_assoc, List.append_right_eq_self] at hrest
    exact (List.append_eq_nil_iff.mp hrest).1.symm
  case isFalse =>
    rw [if_pos (List.isPrefixOf_iff_prefix.mpr (List.prefix_append _ _))]
    rfl

/-- **A text that does not start with the mark loses nothing**: its bytes neither start with the mark
nor end within it. -/
theorem dropMark_encode {s : String} (h : s.toList.head? ≠ some '\ufeff') :
    dropMark (encode s) = encode s := by
  rw [dropMark]
  split
  case isTrue hcut =>
    obtain ⟨rest, hrest⟩ := List.isPrefixOf_iff_prefix.mp hcut
    have hnot : ¬ IsCutMark (encode s) := fun hcut => not_isValid_of_cutMark hcut ⟨s, rfl⟩
    -- the bytes are a beginning of the mark: none, one, two, or the mark itself
    rcases hbytes : encode s with - | ⟨b₁, - | ⟨b₂, - | ⟨b₃, bytes⟩⟩⟩
    · rfl
    all_goals
      rw [hbytes] at hrest hnot
      simp only [byteOrderMark, List.cons_append, List.nil_append, List.cons.injEq] at hrest
    · exact absurd (.inl (by rw [hrest.1])) hnot
    · exact absurd (.inr (by rw [hrest.1, hrest.2.1])) hnot
    · obtain ⟨rfl, rfl, rfl, -⟩ := hrest
      exact absurd (head?_of_encode_eq_mark hbytes) h
  case isFalse =>
    rw [if_neg]
    intro hmark
    obtain ⟨rest, hrest⟩ := List.isPrefixOf_iff_prefix.mp hmark
    exact h (head?_of_encode_eq_mark hrest.symm)

end Text.Utf8

/-! ## Forms of a file -/

/-- How a text stands in a file. -/
structure FileForm where
  /-- Whether there is a byte order mark before the text. -/
  marked : Bool
  lineEnd : LineEnd
  deriving DecidableEq, Repr

namespace FileForm

/-- The content of a file with the text in this form. -/
def bytes (form : FileForm) (t : String) : Bytes :=
  (if form.marked then byteOrderMark else []) ++ encode (form.lineEnd.put t)

/-- **Every form of a text is read as the text.** -/
theorem decodeFile_bytes (form : FileForm) {t : String} (hreturn : '\r' ∉ t.toList)
    (hmark : t.toList.head? ≠ some '\ufeff') : decodeFile (form.bytes t) = .ok t := by
  have hdrop : dropMark (form.bytes t) = encode (form.lineEnd.put t) := by
    rw [bytes]
    cases form.marked with
    | true => exact Text.Utf8.dropMark_mark_append _
    | false =>
      apply Text.Utf8.dropMark_encode
      intro hput
      rw [LineEnd.put, String.toList_ofList] at hput
      exact hmark (LineEnd.head?_putChars (by decide) hput)
  rw [decodeFile, hdrop, Text.Utf8.decode_eq_ok_iff.mpr rfl, Except.map, LineEnd.put,
    String.toList_ofList, LineEnd.unifyBreaks_put _ hreturn, String.ofList_toList]

end FileForm

/-! ## Reading a file in any form -/

variable (host : Host)

/-- The files play no part in the declarations of a source. -/
theorem parseSource_withFiles {source : Source} {content : Bytes}
    (h : source.bytes? = some content) (filePath : String) (w : World) (fs : Files) :
    (parseSource host source defaultLanguage filePath).on { w with files := fs } =
      (((parseSource host source defaultLanguage filePath).on w).1,
        { ((parseSource host source defaultLanguage filePath).on w).2 with files := fs }) := by
  have hparser : parserFor host { w with files := fs } = parserFor host w := rfl
  rw [parseSource_of_path host h, parseSource_of_path host h, hparser]
  cases parserFor host w with
  | error reason => simp only [World.withParser_withFiles]
  | ok parser =>
    simp only [Job.on_ofOutline, World.withParser_withFiles]
    rfl

/-- The path of a source is not drawn. -/
theorem generateFromSource_of_path {source : Source} {content : Bytes}
    (h : source.bytes? = some content) (filePath : String) (style : Style) (w : World) :
    ((generateFromSource host source defaultLanguage style).on w).1 =
      ((parseSource host source defaultLanguage filePath).on w).1.map (diagram style) := by
  rw [generateFromSource, ← map_eq_pure_bind, Job.on_map, parseSource_of_path host h,
    parseSource_of_path host h]
  cases parserFor host w with
  | error reason => rfl
  | ok parser =>
    simp only [Job.on_ofOutline, Syntax.outline_outcome]
    cases (Syntax.declarations content (parser content).root.children (pure [])).outcome <;> rfl

/-- A file whose text is known is read like the text. -/
theorem parseFile_on {p : Path} (hp : languageOf? p = some defaultLanguage) {w : World}
    {content : Bytes} {t : String} (hread : w.files.read p = .ok content)
    (hdecode : decodeFile content = .ok t) :
    (parseFile host p).on w = (parseSource host (.text t) defaultLanguage p.toText).on w := by
  have htext := readText_on p w
  simp only [hread, hdecode] at htext
  rw [parseFile_of_language host hp]
  exact Job.on_bind_ok htext

/-- **The form of a file does not matter.** Whatever form a text without carriage returns and without
a mark of its own has in a file, the file is read as the text is: with the same declarations, or the
same failure, and the same told. So its diagram is that of the text in every style. -/
theorem parseFile_of_form {t : String} (hreturn : '\r' ∉ t.toList)
    (hmark : t.toList.head? ≠ some '\ufeff') {p : Path} (hp : languageOf? p ≠ none) (w : World)
    {fs : Files} {form : FileForm} (hread : fs.read p = .ok (form.bytes t)) :
    (parseFile host p).on { w with files := fs } =
        (((parseSource host (.text t) defaultLanguage p.toText).on w).1,
          { ((parseSource host (.text t) defaultLanguage p.toText).on w).2 with files := fs }) ∧
      ∀ style, ((generateFromFile host p style).on { w with files := fs }).1 =
        ((generateFromSource host (.text t) defaultLanguage style).on w).1 := by
  have hlanguage := (languageOf?_eq p).resolve_left hp
  have hparse := parseFile_on host hlanguage (w := { w with files := fs }) hread
    (form.decodeFile_bytes hreturn hmark)
  rw [parseSource_withFiles host (Source.bytes?_text t)] at hparse
  refine ⟨hparse, ?_⟩
  intro style
  rw [generateFromFile, ← map_eq_pure_bind, Job.on_map, hparse,
    generateFromSource_of_path host (Source.bytes?_text t) p.toText]

/-- A class that the byte at an offset names. -/
def namedAt (start : Nat) : Node :=
  .mk ⟨"class_declaration", true, none, start, start + 1, 0⟩
    [.mk ⟨"identifier", true, some "name", start, start + 1, 0⟩ []]

/-- Surroundings in which the first and the third byte of a source name a class each. -/
def namingHost : Host where
  pack := .installed fun _ => .ok fun _ =>
    ⟨.mk ⟨"compilation_unit", true, none, 0, 3, 0⟩ [namedAt 0, namedAt 2], false⟩
  indentVariable := none
  now := ⟨2026, 1, 1, 0, 0, 0⟩

/-- A file system with one source. -/
def sourceOf (content : Bytes) : Files :=
  ⟨.file "x.cs" content .empty, []⟩

theorem parseFile_of_form_twoLines :
    ((generateFromFile namingHost ⟨.here, ["x.cs"]⟩ {}).on
        { files := sourceOf [0xEF, 0xBB, 0xBF, 0x41, 0x0A, 0x42] }).1 =
      .ok (RawText.ofString "@startuml\nclass A \x7b\n\x7d\nclass B \x7b\n\x7d\n@enduml\n") ∧
    ((generateFromFile namingHost ⟨.here, ["x.cs"]⟩ {}).on
        { files := sourceOf [0x41, 0x0D, 0x0A, 0x42] }).1 =
      .ok (RawText.ofString "@startuml\nclass A \x7b\n\x7d\nclass B \x7b\n\x7d\n@enduml\n") ∧
    ((generateFromFile namingHost ⟨.here, ["x.cs"]⟩ {}).on
        { files := sourceOf [0x41, 0x0D, 0x42] }).1 =
      .ok (RawText.ofString "@startuml\nclass A \x7b\n\x7d\nclass B \x7b\n\x7d\n@enduml\n") := by
  have hread (form : FileForm) : (sourceOf (form.bytes "A\nB")).read ⟨.here, ["x.cs"]⟩ =
      .ok (form.bytes "A\nB") := by
    rcases form with ⟨- | -, - | - | -⟩ <;> decide +kernel
  have hform (form : FileForm) := (parseFile_of_form namingHost (t := "A\nB") (by decide)
    (by decide) (by decide +kernel) { files := sourceOf [] } (hread form)).2 {}
  have hdiagram : ((generateFromSource namingHost (.text "A\nB") defaultLanguage {}).on
      { files := sourceOf [] }).1 = .ok (RawText.ofString
        "@startuml\nclass A \x7b\n\x7d\nclass B \x7b\n\x7d\n@enduml\n") := by
    decide +kernel
  refine ⟨?_, ?_, ?_⟩
  · exact (hform ⟨true, .feed⟩).trans hdiagram
  · exact (hform ⟨false, .returnFeed⟩).trans hdiagram
  · exact (hform ⟨false, .carriageReturn⟩).trans hdiagram

end ClassChart
