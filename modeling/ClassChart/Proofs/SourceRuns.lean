import ClassChart.Command.Generate
import ClassChart.Proofs.Decoding
import ClassChart.Proofs.SourceListing

/-!
# Runs over sources, step by step

A run over sources takes them one after the other. A source that is no text is skipped, a source with
a diagram is followed by its file, and without a grammar the run ends. What is told at the end is
always told.

## Main definitions

* `Files.IsReadableAt`: there is a file from which a text can be had
* `Command.DirectoryReport.skip`, `Command.DirectoryReport.wrote`: a report with one more source

## Main results

* `Command.generateSources_cons_of_undecodable`: the step over a source that is skipped
* `Command.generateSources_cons_of_diagram`: the step over a source with a diagram
* `Command.generateSources_cons_of_grammar`: the step at which the run ends for lack of a grammar
* `Command.generateDirectory_of_sources`: the run over a directory
-/

namespace ClassChart

/-- There is a file at the path from which a text can be had. -/
def Files.IsReadableAt (fs : Files) (p : Path) : Prop :=
  ∃ content, fs.read p = .ok content ∧ Text.Utf8.IsReadable content

theorem Files.isReadableAt_iff {fs : Files} {p : Path} {content : Text.Bytes}
    (hread : fs.read p = .ok content) :
    fs.IsReadableAt p ↔ ∃ text, Text.Utf8.decodeFile content = .ok text := by
  rw [Text.Utf8.exists_decodeFile_iff]
  constructor
  · rintro ⟨found, hfound, hreadable⟩
    rw [hread] at hfound
    cases hfound
    exact hreadable
  · exact fun h => ⟨content, hread, h⟩

instance (fs : Files) (p : Path) : Decidable (fs.IsReadableAt p) :=
  match h : fs.read p with
  | .ok content =>
    decidable_of_iff (Text.Utf8.IsReadable content)
      ((Files.isReadableAt_iff h).trans Text.Utf8.exists_decodeFile_iff).symm
  | .error _ => isFalse fun ⟨_, hread, _⟩ => by simp [h] at hread

theorem parserFor_congr (host : Host) {w next : World} (h : next.parsers = w.parsers) :
    parserFor host next = parserFor host w := by
  rw [parserFor, parserFor, h]

namespace Command

variable (host : Host)

/-- The report of a run over a directory is always told. -/
theorem speaks_printReport (json : Bool) (input : Path) (report : DirectoryReport) :
    (printReport host json input report).Speaks := by
  unfold printReport
  split
  · exact Job.speaks_printLine _
  · have hwritten : Job.Speaks (Job.printLines
        (report.written.map fun path => RawText.ofString ("Wrote " ++ path))) := by
      have hlines := Job.speaks_printLines (report.written.map ("Wrote " ++ ·))
      rwa [List.map_map] at hlines
    have hempty : Job.Speaks (if (report.written.isEmpty && report.skipped.isEmpty) = true then
        Job.printLine (RawText.ofString ("No source files found under " ++ input.toText))
        else pure ()) := by
      split
      · exact Job.speaks_printLine _
      · exact Job.speaks_pure
    refine .bind hwritten ?_
    simp only
    split
    · exact .bind (Job.speaks_complain _) hempty
    · exact hempty

/-! ## Steps -/

/-- The report with a source before it that is no text. -/
def DirectoryReport.skip (source : Path) (fault : Text.Utf8.Fault) (report : DirectoryReport) :
    DirectoryReport :=
  { report with skipped := ⟨source.toText, fault.message⟩ :: report.skipped }

/-- The report with a file before it that was written. -/
def DirectoryReport.wrote (target : Path) (report : DirectoryReport) : DirectoryReport :=
  { report with written := target.toText :: report.written }

variable {host} {input output : Path} {style : Style} {names : List String}
  {sources : List (List String)} {w : World} {content : Text.Bytes}

/-- A source that is no text is skipped. -/
theorem generateSources_cons_of_undecodable {fault : Text.Utf8.Fault}
    (hlanguage : languageOf? (input.join names) = some defaultLanguage)
    (hread : w.files.read (input.join names) = .ok content)
    (hdecode : Text.Utf8.decodeFile content = .error fault) :
    (generateSources host input output style (names :: sources)).on w =
      (.skip (input.join names) fault <$> generateSources host input output style sources).on
        (w.noting [.skippedSource (input.join names).toText (.undecodable fault)]) := by
  have hattempt := attempt_generateFromFile_on host hlanguage style w
  simp only [hread, hdecode] at hattempt
  rw [generateSources, Job.on_bind_ok hattempt, map_eq_pure_bind]
  simp only
  rw [Job.on_bind_ok (Job.on_notice _ w)]
  rfl

/-- Without a grammar the run ends at a source that is a text. -/
theorem generateSources_cons_of_grammar {text reason : String}
    (hlanguage : languageOf? (input.join names) = some defaultLanguage)
    (hread : w.files.read (input.join names) = .ok content)
    (hdecode : Text.Utf8.decodeFile content = .ok text)
    (hparser : parserFor host w = .error reason) :
    (generateSources host input output style (names :: sources)).on w =
      (.error (.reported (.grammarUnavailable defaultLanguage reason)), w.withParser host) := by
  have hattempt := attempt_generateFromFile_on host hlanguage style w
  simp only [hread, hdecode, hparser] at hattempt
  rw [generateSources, Job.on_bind_error hattempt]

/-- The diagram of a source is written before the others are. -/
theorem generateSources_cons_of_diagram {text : String} {parser : Parser} {unit : Declaration}
    (hlanguage : languageOf? (input.join names) = some defaultLanguage)
    (hread : w.files.read (input.join names) = .ok content)
    (hdecode : Text.Utf8.decodeFile content = .ok text)
    (hparser : parserFor host w = .ok parser)
    (hunit : (fileOutline parser (input.join names) text).outcome = .ok unit) :
    (generateSources host input output style (names :: sources)).on w =
      (writeDiagram (destination output names) (diagram style unit) >>= fun _ =>
        .wrote (destination output names) <$> generateSources host input output style sources).on
        ((w.withParser host).noting (fileOutline parser (input.join names) text).notices) := by
  have hattempt := attempt_generateFromFile_on host hlanguage style w
  simp only [hread, hdecode, hparser, hunit] at hattempt
  rw [generateSources, Job.on_bind_ok hattempt]
  simp only [map_eq_pure_bind]
  rfl

/-- A run over a directory is one over its sources, told at its end. -/
theorem generateDirectory_of_sources {json : Bool} (h : w.files.sourcesBelow input = .ok sources) :
    (generateDirectory host json input output style).on w =
      (do
        let report ← generateSources host input output style sources
        printReport host json input report
        return if report.skipped.isEmpty then 0 else partialExitCode : Job Int).on w := by
  have hlist : (Job.ofFileFault (w.files.sourcesBelow input)).on w = (.ok sources, w) := by
    rw [h]
    rfl
  rw [generateDirectory, Job.on_bind_ok (Job.on_files w), Job.on_bind_ok hlist]

end Command

end ClassChart
