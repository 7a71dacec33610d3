import ClassChart.Command.Run
import ClassChart.Proofs.SettingsLookup
import ClassChart.Proofs.SourceRuns
import ClassChart.Proofs.TypedPaths

/-!
# Errors in words leave no trace

A run that ends with an error in words has changed no file. Over a directory such an error can only
be that the grammar is missing, and as the grammar is missing from the start, it comes up at the
first source that can be read, before anything is written. For a file the errors come in a fixed
order: the extension, the content, the grammar.

## Main definitions

* `Job.Wordless`: jobs that load no parser and end with no error in words
* `Command.LacksGrammar`, `Command.FileError`: what the errors in words are about
* `Command.CanPrepare`: the settings of a run can be looked up

## Main results

* `Command.wordlessWithParser_generateSources`: a run over sources with a grammar
* `Command.generateSources_of_readable`, `Command.generateSources_of_unreadable`: a run over sources
  without a grammar
* `Command.reports_generateDirectory`, `Command.reports_generateFile`: the two ways of generating
* `Command.generate_own_errors`: when a run ends with an error in words, and what it leaves
-/

namespace ClassChart

/-! ## Jobs without errors in words -/

namespace Job

variable {α β : Type}

/-- A job that loads no parser and ends with no error in words. -/
structure Wordless (t : Job α) : Prop where
  parsers : ∀ w, (t.on w).2.parsers = w.parsers
  outcome : ∀ w e, (t.on w).1 ≠ .error (.reported e)

theorem Wordless.pure (a : α) : Wordless (Pure.pure a : Job α) :=
  ⟨fun _ => rfl, fun _ _ => nofun⟩

theorem Wordless.bind {t : Job α} {f : α → Job β} (ht : t.Wordless) (hf : ∀ a, (f a).Wordless) :
    (t >>= f).Wordless := by
  constructor
  · intro w
    have hparsers := ht.parsers w
    rw [on_bind]
    rcases hrun : t.on w with ⟨failure | a, next⟩ <;> rw [hrun] at hparsers
    · exact hparsers
    · exact ((hf a).parsers next).trans hparsers
  · intro w e
    have houtcome := ht.outcome w e
    rw [on_bind]
    rcases hrun : t.on w with ⟨failure | a, next⟩ <;> rw [hrun] at houtcome
    · exact fun h => houtcome (by simpa using h)
    · exact (hf a).outcome next e

theorem wordless_files : files.Wordless :=
  ⟨fun _ => rfl, fun _ _ => nofun⟩

theorem wordless_setFiles (fs : Files) : (setFiles fs).Wordless :=
  ⟨fun _ => rfl, fun _ _ => nofun⟩

theorem wordless_tell (e : Event) : (tell e).Wordless :=
  ⟨fun _ => rfl, fun _ _ => nofun⟩

theorem wordless_unencodable : (throw .unencodable : Job α).Wordless :=
  ⟨fun _ => rfl, fun _ _ => nofun⟩

theorem wordless_ofFileFault (x : Except FileFault α) : (ofFileFault x).Wordless := by
  cases x
  · exact ⟨fun _ => rfl, fun _ _ => nofun⟩
  · exact .pure _

theorem wordless_print (text : RawText) : (print text).Wordless := by
  unfold print
  split
  · exact wordless_tell _
  · exact wordless_unencodable

theorem Speaks.wordless {t : Job Unit} (h : t.Speaks) : t.Wordless := by
  constructor
  · intro w
    obtain ⟨events, hrun⟩ := h w
    rw [hrun, World.telling_parsers]
  · intro w e
    obtain ⟨events, hrun⟩ := h w
    rw [hrun]
    nofun

theorem wordless_writeBytes (p : Path) (content : Text.Bytes) : (writeBytes p content).Wordless :=
  .bind wordless_files fun _ => .bind (wordless_ofFileFault _) fun _ => wordless_setFiles _

theorem wordless_write (p : Path) (text : RawText) : (write p text).Wordless := by
  unfold write
  split
  · exact wordless_writeBytes p _
  · exact .bind (wordless_writeBytes p []) fun _ => wordless_unencodable

theorem wordless_makeDirs (p : Path) : (makeDirs p).Wordless :=
  .bind wordless_files fun _ => .bind (wordless_setFiles _) fun _ => wordless_ofFileFault _

/-- Where what comes after a job has no errors in words, these are those of the job. -/
theorem on_bind_eq_reported {t : Job α} {f : α → Job β} (hf : ∀ a, (f a).Wordless) {w next : World}
    {e : Error} :
    (t >>= f).on w = (.error (.reported e), next) ↔ t.on w = (.error (.reported e), next) := by
  rw [on_bind]
  rcases t.on w with ⟨failure | a, mid⟩
  · simp
  · simp only [Prod.mk.injEq, reduceCtorEq, false_and, iff_false]
    intro h
    exact (hf a).outcome mid e (by rw [h])

end Job

namespace Command

variable (host : Host)

theorem wordless_writeDiagram (p : Path) (text : RawText) : (writeDiagram p text).Wordless :=
  .bind (Job.wordless_makeDirs _) fun _ =>
    .bind (Job.wordless_write p text) fun _ => Job.wordless_tell _

/-! ## Sources -/

/-- A job that keeps the parser of sources and, with such a parser, ends with no error in words. -/
def WordlessWithParser {α : Type} (t : Job α) : Prop :=
  ∀ w parser, parserFor host w = .ok parser →
    parserFor host (t.on w).2 = .ok parser ∧ ∀ e, (t.on w).1 ≠ .error (.reported e)

variable {host}

theorem WordlessWithParser.of_wordless {α : Type} {t : Job α} (h : t.Wordless) :
    WordlessWithParser host t := by
  intro w parser hparser
  refine ⟨?_, h.outcome w⟩
  rw [parserFor_congr host (h.parsers w), hparser]

theorem WordlessWithParser.bind {α β : Type} {t : Job α} {f : α → Job β}
    (ht : WordlessWithParser host t) (hf : ∀ a, WordlessWithParser host (f a)) :
    WordlessWithParser host (t >>= f) := by
  intro w parser hparser
  obtain ⟨hnext, hout⟩ := ht w parser hparser
  rw [Job.on_bind]
  rcases hrun : t.on w with ⟨failure | a, next⟩ <;> rw [hrun] at hnext hout
  · exact ⟨hnext, fun e h => hout e (by simpa using h)⟩
  · exact hf a next parser hnext

theorem wordlessWithParser_attempt {p : Path} (hp : languageOf? p = some defaultLanguage)
    (style : Style) : WordlessWithParser host (Job.attempt (generateFromFile host p style)) := by
  intro w parser hparser
  rw [attempt_generateFromFile_on host hp]
  cases w.files.read p with
  | error fault => cases fault <;> exact ⟨hparser, fun _ => nofun⟩
  | ok content =>
    simp only
    cases Text.Utf8.decodeFile content with
    | error fault => exact ⟨hparser, fun _ => nofun⟩
    | ok text =>
      simp only [hparser]
      refine ⟨parserFor_withParser host hparser, fun e => ?_⟩
      cases (fileOutline parser p text).outcome <;> nofun

variable {input output : Path} {style : Style} {sources : List (List String)} {w : World}

/-- **With a grammar** no run over sources ends with an error in words. -/
theorem wordlessWithParser_generateSources
    (hlanguage : ∀ names ∈ sources, languageOf? (input.join names) = some defaultLanguage) :
    WordlessWithParser host (generateSources host input output style sources) := by
  induction sources with
  | nil => exact .of_wordless (.pure _)
  | cons names sources ih =>
    obtain ⟨hlang, hlanguage⟩ := List.forall_mem_cons.mp hlanguage
    have hrest := ih hlanguage
    refine .bind (wordlessWithParser_attempt hlang style) fun result => ?_
    cases result with
    | error fault =>
      exact .bind (.of_wordless (Job.wordless_tell _)) fun _ =>
        .bind hrest fun _ => .of_wordless (.pure _)
    | ok text =>
      exact .bind (.of_wordless (wordless_writeDiagram _ _)) fun _ =>
        .bind hrest fun _ => .of_wordless (.pure _)

/-- **Without a grammar** a run over sources ends at the first one that can be read, with the files
of the beginning. -/
theorem generateSources_of_readable {reason : String} (hparser : parserFor host w = .error reason)
    (hlanguage : ∀ names ∈ sources, languageOf? (input.join names) = some defaultLanguage)
    (hread : ∀ names ∈ sources, ∃ content, w.files.read (input.join names) = .ok content)
    (hreadable : ∃ names ∈ sources, w.files.IsReadableAt (input.join names)) :
    ∃ next, (generateSources host input output style sources).on w =
      (.error (.reported (.grammarUnavailable defaultLanguage reason)), next) ∧
      next.files = w.files := by
  induction sources generalizing w with
  | nil => simp at hreadable
  | cons names sources ih =>
    obtain ⟨hlang, hlanguage⟩ := List.forall_mem_cons.mp hlanguage
    obtain ⟨⟨content, hcontent⟩, hread⟩ := List.forall_mem_cons.mp hread
    cases hdecode : Text.Utf8.decodeFile content with
    | ok text =>
      exact ⟨_, generateSources_cons_of_grammar hlang hcontent hdecode hparser,
        w.withParser_files host⟩
    | error fault =>
      -- a source that is no text is skipped, so it is not the one that can be read
      have hlater : ∃ names ∈ sources, w.files.IsReadableAt (input.join names) := by
        obtain ⟨found, hfound, hat⟩ := hreadable
        rcases List.mem_cons.mp hfound with rfl | hfound
        · simp [Files.isReadableAt_iff hcontent, hdecode] at hat
        · exact ⟨found, hfound, hat⟩
      obtain ⟨next, hnext, hfiles⟩ := ih
        (w := w.noting [.skippedSource (input.join names).toText (.undecodable fault)])
        hparser hlanguage hread hlater
      rw [generateSources_cons_of_undecodable hlang hcontent hdecode, Job.on_map, hnext]
      exact ⟨next, rfl, hfiles⟩

/-- Where no source can be read, all are skipped. -/
theorem generateSources_of_unreadable
    (hlanguage : ∀ names ∈ sources, languageOf? (input.join names) = some defaultLanguage)
    (hread : ∀ names ∈ sources, ∃ content, w.files.read (input.join names) = .ok content)
    (hnone : ∀ names ∈ sources, ¬ w.files.IsReadableAt (input.join names)) :
    ∃ report ns, (generateSources host input output style sources).on w =
      (.ok report, w.noting ns) := by
  induction sources generalizing w with
  | nil => exact ⟨{}, [], by rw [generateSources, Job.on_pure, w.noting_nil]⟩
  | cons names sources ih =>
    obtain ⟨hlang, hlanguage⟩ := List.forall_mem_cons.mp hlanguage
    obtain ⟨⟨content, hcontent⟩, hread⟩ := List.forall_mem_cons.mp hread
    obtain ⟨hhere, hnone⟩ := List.forall_mem_cons.mp hnone
    cases hdecode : Text.Utf8.decodeFile content with
    | ok text => exact absurd ((Files.isReadableAt_iff hcontent).mpr ⟨text, hdecode⟩) hhere
    | error fault =>
      obtain ⟨report, ns, hns⟩ := ih
        (w := w.noting [.skippedSource (input.join names).toText (.undecodable fault)])
        hlanguage hread hnone
      rw [generateSources_cons_of_undecodable hlang hcontent hdecode, Job.on_map, hns,
        w.noting_append]
      exact ⟨_, _, rfl⟩

/-- On the world the job ends with the error in words exactly under the condition, and then has
changed no file. -/
structure Reports {α : Type} (t : Job α) (w : World) (e : Error) (P : Prop) : Prop where
  reported : P → (t.on w).1 = .error (.reported e)
  of_reported : (t.on w).1 = .error (.reported e) → P ∧ (t.on w).2.files = w.files

theorem Reports.iff {α : Type} {t : Job α} {e : Error} {P : Prop} (h : Reports t w e P) :
    (t.on w).1 = .error (.reported e) ↔ P :=
  ⟨fun hreported => (h.of_reported hreported).1, h.reported⟩

/-! ## A directory -/

/-- The grammar cannot be loaded, and there is a source below the directory that needs it. -/
def LacksGrammar (host : Host) (w : World) (input : Path) (reason : String) : Prop :=
  parserFor host w = .error reason ∧
    ∃ sources, w.files.sourcesBelow input = .ok sources ∧
      ∃ names ∈ sources, w.files.IsReadableAt (input.join names)

theorem generateDirectory_of_lacksGrammar {json : Bool} {reason : String}
    (hsound : w.files.isSound = true) (h : LacksGrammar host w input reason) :
    ∃ next, (generateDirectory host json input output style).on w =
      (.error (.reported (.grammarUnavailable defaultLanguage reason)), next) ∧
      next.files = w.files := by
  obtain ⟨hparser, sources, hsources, hreadable⟩ := h
  obtain ⟨next, hnext, hfiles⟩ : ∃ next, (generateSources host input output style sources).on w =
      (.error (.reported (.grammarUnavailable defaultLanguage reason)), next) ∧
      next.files = w.files :=
    generateSources_of_readable hparser
      (fun names hmem => Files.languageOf?_of_mem_sourcesBelow hsources hmem input)
      (fun names hmem => (Files.exists_read_of_mem_sourcesBelow hsound hsources hmem).1) hreadable
  exact ⟨next, by rw [generateDirectory_of_sources hsources, Job.on_bind_error hnext], hfiles⟩

/-- An error in words of a run over a directory is the lack of a grammar. -/
theorem exists_lacksGrammar_of_reported {json : Bool} {e : Error} (hsound : w.files.isSound = true)
    (h : ((generateDirectory host json input output style).on w).1 = .error (.reported e)) :
    ∃ reason, LacksGrammar host w input reason := by
  cases hsources : w.files.sourcesBelow input with
  | error fault =>
    rw [generateDirectory, Job.on_bind_ok (Job.on_files w), hsources] at h
    cases h
  | ok sources =>
    rw [generateDirectory_of_sources hsources] at h
    have hlanguage : ∀ names ∈ sources, languageOf? (input.join names) = some defaultLanguage :=
      fun names hmem => Files.languageOf?_of_mem_sourcesBelow hsources hmem input
    have hread : ∀ names ∈ sources, ∃ content, w.files.read (input.join names) = .ok content :=
      fun names hmem => (Files.exists_read_of_mem_sourcesBelow hsound hsources hmem).1
    -- telling the report adds no error in words, so the error is one of the run over the sources
    have hrun := (Job.on_bind_eq_reported fun report =>
      .bind (speaks_printReport host json input report).wordless fun _ => .pure _).mp
      (Job.on_eq_of_fst h)
    cases hparser : parserFor host w with
    | ok parser =>
      obtain ⟨-, hnot⟩ := wordlessWithParser_generateSources hlanguage w parser hparser
      exact absurd (congrArg Prod.fst hrun) (hnot e)
    | error reason =>
      refine ⟨reason, hparser, sources, hsources, ?_⟩
      by_contra hnone
      push Not at hnone
      obtain ⟨report, ns, hns⟩ := generateSources_of_unreadable hlanguage hread hnone
      rw [hns] at hrun
      cases hrun

/-- The errors in words of a run over a directory. -/
theorem reports_generateDirectory {json : Bool} {e : Error} (hsound : w.files.isSound = true) :
    Reports (generateDirectory host json input output style) w e
      (∃ reason, LacksGrammar host w input reason ∧
        e = .grammarUnavailable defaultLanguage reason) := by
  -- the lack of a grammar decides the run, so it also says what error there is
  have hrun : ∀ {reason}, LacksGrammar host w input reason → ∃ next,
      (generateDirectory host json input output style).on w =
        (.error (.reported (.grammarUnavailable defaultLanguage reason)), next) ∧
        next.files = w.files :=
    generateDirectory_of_lacksGrammar hsound
  constructor
  · rintro ⟨reason, hlacks, rfl⟩
    obtain ⟨next, hnext, -⟩ := hrun hlacks
    rw [hnext]
  · intro h
    obtain ⟨reason, hlacks⟩ := exists_lacksGrammar_of_reported hsound h
    obtain ⟨next, hnext, hfiles⟩ := hrun hlacks
    rw [hnext] at h ⊢
    cases h
    exact ⟨⟨reason, hlacks, rfl⟩, hfiles⟩

/-! ## A file -/

/-- The error that a file cannot be read. -/
def cannotRead (input : Path) (fault : AccessFault) : Error :=
  .general ("Cannot read " ++ input.toText ++ ": " ++ fault.message input.toText) generalExitCode

/-- The errors in words of a run on a file, in the order in which they come up. -/
inductive FileError (loaded : Except String Parser) (input : Path) (content : Text.Bytes) :
    Error → Prop
  | extension (hlanguage : languageOf? input = none) :
    FileError loaded input content (.unsupportedLanguage input.toText supportedExtensions)
  | content {fault : Text.Utf8.Fault} (hlanguage : languageOf? input = some defaultLanguage)
    (hdecode : Text.Utf8.decodeFile content = .error fault) :
    FileError loaded input content (cannotRead input (.undecodable fault))
  | grammar {text reason : String} (hlanguage : languageOf? input = some defaultLanguage)
    (hdecode : Text.Utf8.decodeFile content = .ok text) (hloaded : loaded = .error reason) :
    FileError loaded input content (.grammarUnavailable defaultLanguage reason)

section FileError

variable {loaded : Except String Parser} {content : Text.Bytes}

theorem fileError_extension_iff :
    FileError loaded input content (.unsupportedLanguage input.toText supportedExtensions) ↔
      languageOf? input = none :=
  ⟨fun h => by cases h; assumption, .extension⟩

theorem exists_fileError_content_iff :
    (∃ fault, FileError loaded input content (cannotRead input fault)) ↔
      languageOf? input = some defaultLanguage ∧ ¬ Text.Utf8.IsReadable content := by
  rw [← Text.Utf8.exists_decodeFile_iff]
  constructor
  · rintro ⟨fault, h⟩
    generalize he : cannotRead input fault = e at h
    cases h with
    | extension | grammar => cases he
    | content hlanguage hdecode => exact ⟨hlanguage, by simp [hdecode]⟩
  · rintro ⟨hlanguage, hnot⟩
    cases hdecode : Text.Utf8.decodeFile content with
    | ok text => exact absurd ⟨text, hdecode⟩ hnot
    | error fault => exact ⟨_, .content hlanguage hdecode⟩

theorem fileError_grammar_iff {reason : String} :
    FileError loaded input content (.grammarUnavailable defaultLanguage reason) ↔
      languageOf? input = some defaultLanguage ∧ Text.Utf8.IsReadable content ∧
        loaded = .error reason := by
  rw [← Text.Utf8.exists_decodeFile_iff]
  constructor
  · intro h
    cases h with
    | grammar hlanguage hdecode hloaded => exact ⟨hlanguage, ⟨_, hdecode⟩, hloaded⟩
  · rintro ⟨hlanguage, ⟨text, hdecode⟩, hloaded⟩
    exact .grammar hlanguage hdecode hloaded

end FileError

theorem fileDiagram_of_fileError {content : Text.Bytes} (hread : w.files.read input = .ok content)
    {e : Error} (h : FileError (parserFor host w) input content e) (style : Style) :
    ∃ next, (fileDiagram host input style).on w = (.error (.reported e), next) ∧
      next.files = w.files := by
  cases h with
  | extension hlanguage =>
    have hfile : (generateFromFile host input style).on w =
        (.error (.reported (.unsupportedLanguage input.toText supportedExtensions)), w) := by
      rw [generateFromFile, parseFile_of_none host hlanguage]
      rfl
    have hattempt := Job.on_attempt (generateFromFile host input style) w
    rw [hfile] at hattempt
    exact ⟨w, Job.on_bind_error hattempt, rfl⟩
  | content hlanguage hdecode =>
    have hattempt := attempt_generateFromFile_on host hlanguage style w
    simp only [hread, hdecode] at hattempt
    exact ⟨w, Job.on_bind_ok hattempt, rfl⟩
  | grammar hlanguage hdecode hparser =>
    have hattempt := attempt_generateFromFile_on host hlanguage style w
    simp only [hread, hdecode, hparser] at hattempt
    exact ⟨_, Job.on_bind_error hattempt, w.withParser_files host⟩

theorem fileError_of_reported {content : Text.Bytes} (hread : w.files.read input = .ok content)
    {e : Error} {next : World}
    (h : (fileDiagram host input style).on w = (.error (.reported e), next)) :
    FileError (parserFor host w) input content e := by
  -- where one of the errors comes up, it is the one that the run ends with
  have hsame : ∀ {found}, FileError (parserFor host w) input content found →
      FileError (parserFor host w) input content e := by
    intro found hfound
    obtain ⟨next, hnext, -⟩ := fileDiagram_of_fileError hread hfound style
    rw [hnext] at h
    cases h
    exact hfound
  rcases languageOf?_eq input with hlanguage | hlanguage
  · exact hsame (.extension hlanguage)
  · cases hdecode : Text.Utf8.decodeFile content with
    | error fault => exact hsame (.content hlanguage hdecode)
    | ok text =>
      cases hparser : parserFor host w with
      | error reason =>
        rw [← hparser]
        exact hsame (.grammar hlanguage hdecode hparser)
      | ok parser =>
        have hattempt := attempt_generateFromFile_on host hlanguage style w
        simp only [hread, hdecode, hparser] at hattempt
        cases hunit : (fileOutline parser input text).outcome with
        | ok unit =>
          rw [hunit] at hattempt
          rw [fileDiagram, Job.on_bind_ok hattempt] at h
          cases h
        | error missing =>
          rw [hunit] at hattempt
          rw [fileDiagram, Job.on_bind_error hattempt] at h
          cases h

theorem wordless_printEnvelope (command : String) (summary payload : Object) :
    (printEnvelope host command summary payload).Wordless :=
  (Job.speaks_printLine _).wordless

/-- A run on a file has the errors in words of its diagram. -/
theorem generateFile_eq_reported {json : Bool} {target : Option Path} {e : Error} {next : World} :
    (generateFile host json input target style).on w = (.error (.reported e), next) ↔
      (fileDiagram host input style).on w = (.error (.reported e), next) := by
  rw [generateFile, Job.on_bind_eq_reported]
  intro text
  cases target with
  | some target =>
    refine .bind (wordless_writeDiagram target text) fun _ => ?_
    cases json with
    | true => exact .bind (wordless_printEnvelope _ _ _) fun _ => .pure _
    | false => exact .bind (Job.speaks_printLine _).wordless fun _ => .pure _
  | none =>
    cases json with
    | true => exact .bind (wordless_printEnvelope _ _ _) fun _ => .pure _
    | false => exact .bind (Job.wordless_print text) fun _ => .pure _

/-- **The errors in words for a file** come up as listed. -/
theorem reports_generateFile {json : Bool} {target : Option Path} {content : Text.Bytes}
    (hread : w.files.read input = .ok content) {e : Error} :
    Reports (generateFile host json input target style) w e
      (FileError (parserFor host w) input content e) := by
  constructor
  · intro herror
    obtain ⟨next, hnext, -⟩ := fileDiagram_of_fileError hread herror style
    rw [generateFile_eq_reported.mpr hnext]
  · intro h
    have herror :=
      fileError_of_reported hread (generateFile_eq_reported.mp (Job.on_eq_of_fst h))
    obtain ⟨next, hnext, hfiles⟩ := fileDiagram_of_fileError hread herror style
    rw [generateFile_eq_reported.mpr hnext]
    exact ⟨herror, hfiles⟩

/-! ## The settings of a run -/

/-- Where the search for the project of a run begins. -/
def startOf (fs : Files) (options : GenerateOptions) : Path :=
  if fs.isDir (Path.ofText options.input) then Path.ofText options.input
  else (Path.ofText options.input).parent

/-- Something is left to the settings of the project. -/
def UsesSettings (host : Host) (options : GenerateOptions) : Prop :=
  options.indent.or host.indentVariable = none ∨ options.framed = none

/-- The settings of a run can be looked up. -/
def CanPrepare (host : Host) (fs : Files) (options : GenerateOptions) : Prop :=
  ∃ root, projectRoot fs (startOf fs options) = .ok root ∧
    (UsesSettings host options → ∃ found, fs.probe (settingsPath root) = .ok found)

/-- The run that comes after the settings are looked up. -/
def generateStyled (host : Host) (json : Bool) (options : GenerateOptions) (fs : Files)
    (indent : RawText) (framed : Bool) : Job Int :=
  let input := Path.ofText options.input
  let output := options.output.map Path.ofText
  if fs.isDir input then
    generateDirectory host json input (output.getD input) { indent, framed }
  else
    generateFile host json input output { indent, framed, title := options.title.map RawText.ofString }

theorem generate_eq (json : Bool) (options : GenerateOptions) :
    generate host json options = (do
      let fs ← Job.files
      let root ← Job.ofFileFault (projectRoot fs (startOf fs options))
      let indent ← resolveIndent host options.indent root
      let framed ← resolveFrame options.framed root
      generateStyled host json options fs indent framed) := rfl

/-- With its settings looked up a run goes on, and no file has changed. -/
theorem generate_of_canPrepare (json : Bool) {options : GenerateOptions}
    (h : CanPrepare host w.files options) :
    ∃ root ns, projectRoot w.files (startOf w.files options) = .ok root ∧
      (generate host json options).on w =
        (generateStyled host json options w.files
          (indentInForce host options.indent (settingsAt w.files root))
          (frameInForce options.framed (settingsAt w.files root))).on (w.noting ns) := by
  obtain ⟨root, hroot, hprobe⟩ := h
  have hstart : (Job.ofFileFault (projectRoot w.files (startOf w.files options))).on w =
      (.ok root, w) := by
    rw [hroot]
    rfl
  obtain ⟨ns, hindent⟩ := resolveIndent_inForce fun hnone => hprobe (.inl hnone)
  obtain ⟨ms, hframed⟩ := resolveFrame_inForce (w := w.noting ns) fun hnone => hprobe (.inr hnone)
  refine ⟨root, ns ++ ms, hroot, ?_⟩
  rw [generate_eq, Job.on_bind_ok (Job.on_files w), Job.on_bind_ok hstart, Job.on_bind_ok hindent,
    Job.on_bind_ok hframed, w.noting_append]
  rfl

/-- Where the settings of a run cannot be looked up, the run ends with an access fault. -/
theorem generate_of_not_canPrepare (json : Bool) {options : GenerateOptions}
    (h : ¬ CanPrepare host w.files options) :
    ∃ fault ns, (generate host json options).on w = (.error (.access fault), w.noting ns) := by
  rw [generate_eq, Job.on_bind_ok (Job.on_files w)]
  cases hroot : projectRoot w.files (startOf w.files options) with
  | error fault => exact ⟨.file fault, [], by rw [w.noting_nil]; rfl⟩
  | ok root =>
    have hstart : (Job.ofFileFault (.ok root) : Job Path).on w = (.ok root, w) := rfl
    rw [Job.on_bind_ok hstart]
    cases hprobe : w.files.probe (settingsPath root) with
    | ok found => exact absurd ⟨root, hroot, fun _ => ⟨found, hprobe⟩⟩ h
    | error fault =>
      -- the settings are asked for by the indent first, and then by the frame
      cases hasked : options.indent.or host.indentVariable with
      | none =>
        rw [Job.on_bind_error (resolveIndent_of_fault hasked hprobe)]
        exact ⟨.file fault, [], by rw [w.noting_nil]⟩
      | some value =>
        obtain ⟨ns, hindent⟩ : ∃ ns, (resolveIndent host options.indent root).on w =
            (.ok (indentInForce host options.indent (settingsAt w.files root)), w.noting ns) :=
          resolveIndent_inForce (by simp [hasked])
        cases hframed : options.framed with
        | none =>
          have hframe := resolveFrame_of_fault (w := w.noting ns) hprobe
          exact ⟨.file fault, ns, by rw [Job.on_bind_ok hindent, Job.on_bind_error hframe]⟩
        | some framed =>
          exact absurd ⟨root, hroot, by simp [UsesSettings, hasked, hframed]⟩ h

/-! ## The command -/

/-- How a run ends, by how the report of its command ends. -/
def endingOf : Except Failure Int → Ending
  | .ok code => .exit code
  | .error failure => .crashed failure

/-- A run that can begin ends as the report of its command does. -/
theorem perform_of_report {args : List String} {json verbose : Bool} {action : Action}
    (hargs : Invocation.ofArguments args = .run json verbose action)
    (hbegin : action.obstacle? w.files = none) {outcome : Except Failure Int} {next : World}
    (h : (action.report host json).on w = (outcome, next)) :
    (perform host args w).ending = endingOf outcome ∧ (perform host args w).world = next := by
  have hfinish : action.finish host json w = (endingOf outcome, next) := by
    unfold Action.finish
    rw [show (action.report host json).run.run w = _ from h]
    cases outcome <;> rfl
  rw [perform, hargs]
  simp only [hbegin, hfinish, and_self]

/-- A run that ends with an error in words gives its exit code, and has the files that were there
when the error came up. -/
theorem perform_of_reported {args : List String} {json verbose : Bool} {options : GenerateOptions}
    (hargs : Invocation.ofArguments args = .run json verbose (.generate options))
    (hbegin : options.obstacle? w.files = none) {e : Error} {next : World}
    (h : (generate host json options).on w = (.error (.reported e), next)) :
    (perform host args w).ending = .exit e.exitCode ∧
      (perform host args w).world.files = next.files := by
  obtain ⟨events, hcomplain⟩ := Job.speaks_complain ("Error: " ++ e.message) next
  have hreport : ((Action.generate options).report host json).on w =
      (.ok e.exitCode, next.telling events) := by
    rw [Action.report, Job.on_tryCatch, Action.perform, h]
    simp only
    rw [Job.on_bind_ok hcomplain]
    rfl
  obtain ⟨hending, hworld⟩ := perform_of_report hargs hbegin hreport
  exact ⟨hending, by rw [hworld, World.telling_files]⟩

/-- What is there and no obstacle, and is no directory, can be read. -/
theorem exists_read_of_obstacle? {fs : Files} {options : GenerateOptions}
    (hbegin : options.obstacle? fs = none) (hdir : fs.isDir (Path.ofText options.input) = false) :
    ∃ content, fs.read (Path.ofText options.input) = .ok content := by
  unfold GenerateOptions.obstacle? at hbegin
  split at hbegin
  · cases hbegin
  rename_i hnull
  split at hbegin
  · cases hbegin
  rename_i htyped
  exact Files.exists_read_of_typedExists (by simpa using hnull) (by simpa using htyped) hdir

/-- The errors in words of a command are those that it comes to after looking up its settings. -/
theorem reports_generate {json : Bool} {options : GenerateOptions} {e : Error} {P : Prop}
    (h : ∀ indent framed ns,
      Reports (generateStyled host json options w.files indent framed) (w.noting ns) e P) :
    Reports (generate host json options) w e (CanPrepare host w.files options ∧ P) := by
  by_cases hprepare : CanPrepare host w.files options
  · obtain ⟨root, ns, -, hrun⟩ := generate_of_canPrepare json hprepare
    obtain ⟨hof, hto⟩ := h _ _ ns
    rw [← hrun] at hof hto
    exact ⟨fun hP => hof hP.2, fun hreported => ⟨⟨hprepare, (hto hreported).1⟩, (hto hreported).2⟩⟩
  · obtain ⟨fault, ns, hrun⟩ := generate_of_not_canPrepare json hprepare
    refine ⟨fun hP => absurd hP.1 hprepare, fun hreported => ?_⟩
    rw [hrun] at hreported
    cases hreported

theorem reports_generate_directory {json : Bool} {options : GenerateOptions} {e : Error}
    (hsound : w.files.isSound = true) (hdir : w.files.isDir (Path.ofText options.input) = true) :
    Reports (generate host json options) w e (CanPrepare host w.files options ∧
      ∃ reason, LacksGrammar host w (Path.ofText options.input) reason ∧
        e = .grammarUnavailable defaultLanguage reason) := by
  apply reports_generate
  intro indent framed ns
  rw [generateStyled, if_pos hdir]
  exact reports_generateDirectory (w := w.noting ns) hsound

theorem reports_generate_file {json : Bool} {options : GenerateOptions} {e : Error}
    {content : Text.Bytes} (hread : w.files.read (Path.ofText options.input) = .ok content)
    (hdir : w.files.isDir (Path.ofText options.input) = false) :
    Reports (generate host json options) w e (CanPrepare host w.files options ∧
      FileError (parserFor host w) (Path.ofText options.input) content e) := by
  apply reports_generate
  intro indent framed ns
  have hstyled : generateStyled host json options w.files indent framed =
      generateFile host json (Path.ofText options.input) (options.output.map Path.ofText)
        { indent, framed, title := options.title.map RawText.ofString } := by
    rw [generateStyled, if_neg (by rw [hdir]; nofun)]
  rw [hstyled]
  exact reports_generateFile (w := w.noting ns) hread

/-- **Errors in words leave no trace.** A run on valid arguments that ends with such an error has the
files of the beginning. Over a directory it ends so exactly if the grammar cannot be loaded and there
is a source that can be read. On a file the extension comes first, then the content, then the
grammar. All this is up to faults at looking up the settings of the project or the sources. -/
theorem generate_own_errors (host : Host) {args : List String} {json verbose : Bool}
    {options : GenerateOptions} {fs : Files} (hsound : fs.isSound = true)
    (hargs : Invocation.ofArguments args = .run json verbose (.generate options))
    (hbegin : options.obstacle? fs = none) :
    let input := Path.ofText options.input
    let outcome := ((generate host json options).on { files := fs }).1
    let run := perform host args { files := fs }
    (∀ e, outcome = .error (.reported e) →
      run.world.files = fs ∧ run.ending = .exit e.exitCode) ∧
    (fs.isDir input = true → ∀ e, outcome = .error (.reported e) ↔
      CanPrepare host fs options ∧ ∃ reason sources,
        host.pack.load (grammarOf defaultLanguage) = .error reason ∧
        fs.sourcesBelow input = .ok sources ∧
        (∃ names ∈ sources, fs.IsReadableAt (input.join names)) ∧
        e = .grammarUnavailable defaultLanguage reason) ∧
    (fs.isDir input = false → ∃ content, fs.read input = .ok content ∧
      (outcome = .error (.reported (.unsupportedLanguage input.toText supportedExtensions)) ∧
          run.ending = .exit 3 ↔
        CanPrepare host fs options ∧ languageOf? input = none) ∧
      ((∃ fault, outcome = .error (.reported (cannotRead input fault)) ∧ run.ending = .exit 1) ↔
        CanPrepare host fs options ∧ languageOf? input = some defaultLanguage ∧
          ¬ Text.Utf8.IsReadable content) ∧
      ∀ reason, outcome = .error (.reported (.grammarUnavailable defaultLanguage reason)) ∧
          run.ending = .exit 4 ↔
        CanPrepare host fs options ∧ languageOf? input = some defaultLanguage ∧
          Text.Utf8.IsReadable content ∧
          host.pack.load (grammarOf defaultLanguage) = .error reason) := by
  intro input outcome run
  have htrace : ∀ e, outcome = .error (.reported e) →
      run.world.files = fs ∧ run.ending = .exit e.exitCode := by
    intro e h
    have hfiles : ((generate host json options).on { files := fs }).2.files = fs := by
      cases hdir : fs.isDir input with
      | true => exact ((reports_generate_directory (w := { files := fs }) hsound hdir).of_reported h).2
      | false =>
        obtain ⟨content, hread⟩ := exists_read_of_obstacle? hbegin hdir
        exact ((reports_generate_file (w := { files := fs }) hread hdir).of_reported h).2
    obtain ⟨hending, hworld⟩ := perform_of_reported (w := { files := fs }) hargs hbegin
      (Job.on_eq_of_fst h)
    exact ⟨hworld.trans hfiles, hending⟩
  refine ⟨htrace, ?_, ?_⟩
  · intro hdir e
    rw [(reports_generate_directory (w := { files := fs }) hsound hdir).iff]
    refine and_congr_right fun _ => exists_congr fun reason => ?_
    constructor
    · rintro ⟨⟨hload, sources, hsources, hreadable⟩, he⟩
      exact ⟨sources, hload, hsources, hreadable, he⟩
    · rintro ⟨sources, hload, hsources, hreadable, he⟩
      exact ⟨⟨hload, sources, hsources, hreadable⟩, he⟩
  · intro hdir
    obtain ⟨content, hread⟩ := exists_read_of_obstacle? hbegin hdir
    -- the exit code follows from the error, so that only the errors have to be told apart
    have hiff : ∀ e, outcome = .error (.reported e) ∧ run.ending = .exit e.exitCode ↔
        CanPrepare host fs options ∧
          FileError (host.pack.load (grammarOf defaultLanguage)) input content e := by
      intro e
      rw [and_iff_left_of_imp fun h => (htrace e h).2]
      exact (reports_generate_file (w := { files := fs }) hread hdir).iff
    refine ⟨content, hread, ?_, ?_, ?_⟩
    · exact (hiff _).trans (and_congr_right fun _ => fileError_extension_iff)
    · refine (exists_congr fun fault => hiff (cannotRead input fault)).trans ?_
      rw [exists_and_left, exists_fileError_content_iff]
    · exact fun reason => (hiff _).trans (and_congr_right fun _ => fileError_grammar_iff)

/-- Surroundings without grammars. -/
def bareHost : Host where
  pack := .absent
  indentVariable := none
  now := ⟨2026, 1, 1, 0, 0, 0⟩

/-- A directory with a source that is no text before one that is empty. -/
def halfReadable : Files :=
  ⟨.folder "src" (.file "a.cs" [0xFF] (.file "b.cs" [] .empty)) .empty, []⟩

theorem generate_own_errors_halfReadable :
    let run := perform bareHost ["generate", "src"] { files := halfReadable }
    run.world.files = halfReadable ∧ run.ending = .exit 4 := by
  let options : GenerateOptions := ⟨"src", none, none, none, none, false⟩
  have hargs : Invocation.ofArguments ["generate", "src"] =
      .run false false (.generate options) := by decide +kernel
  have hbegin : options.obstacle? halfReadable = none := by decide +kernel
  obtain ⟨htrace, hdirectory, -⟩ := generate_own_errors bareHost (by decide +kernel) hargs hbegin
  have hdir : halfReadable.isDir (Path.ofText options.input) = true := by decide +kernel
  have hroot : projectRoot halfReadable (startOf halfReadable options) =
      .ok (.absolute ["src"]) := by decide +kernel
  have hprobe : halfReadable.probe (settingsPath (.absolute ["src"])) = .ok none := by
    decide +kernel
  have hsources : halfReadable.sourcesBelow (Path.ofText options.input) =
      .ok [["a.cs"], ["b.cs"]] := by
    let d : Dir := .file "a.cs" [0xFF] (.file "b.cs" [] .empty)
    have hfound : d.files.filter isSource = [["a.cs"], ["b.cs"]] := by decide +kernel
    have hinput : Path.ofText options.input = ⟨.here, ["src"]⟩ := by decide +kernel
    rw [← hfound, hinput]
    exact Files.sourcesBelow_of_sorted rfl rfl (by decide +kernel) (by decide +kernel)
  have hread : halfReadable.read ((Path.ofText options.input).join ["b.cs"]) = .ok [] := by
    decide +kernel
  exact htrace _ ((hdirectory hdir _).mpr ⟨⟨_, hroot, fun _ => ⟨_, hprobe⟩⟩, _, _, rfl, hsources,
    ⟨["b.cs"], by simp, [], hread, .inl ⟨"", rfl⟩⟩, rfl⟩)

/-- A file that consists of the first byte of a byte order mark. -/
def cutMark : Files :=
  ⟨.file "x.cs" [0xEF] .empty, []⟩

/-- A file that is no text may still be read, so that the grammar is what is missing. -/
theorem generate_cutMark :
    cutMark.read (Path.ofText "x.cs") = .ok [0xEF] ∧ ¬ Text.Utf8.IsValid [0xEF] ∧
      (perform bareHost ["generate", "x.cs"] { files := cutMark }).ending = .exit 4 := by
  exact ⟨by decide +kernel, Text.Utf8.not_isValid_of_cutMark (.inl rfl), by decide +kernel⟩

end Command

end ClassChart
