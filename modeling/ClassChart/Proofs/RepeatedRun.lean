import ClassChart.Proofs.DirectoryRun
import ClassChart.Proofs.ListingEdits
import ClassChart.Proofs.Overwriting
import ClassChart.Proofs.SettingsUpdates

/-!
# A run over a directory, repeated

A run over a directory that has come to its end can be repeated. It finds the same sources with the
same content, although it may have written among them, and so it writes the same diagrams again.
Where two diagrams go to one place, the first of them is written over the second on the way, but in
the end the files are as they were. The one thing that can keep a run from being repeated is a
folder that it made itself, if the path to it is too long to look into.

## Main definitions

* `SourceStep`: what a run does with one source

## Main results

* `exists_sourceStep`, `SourceStep.run`: a run over sources takes such steps and no others
* `exists_repeats`: what a run over sources writes, and that it can be repeated
* `generateDirectory_repeats`: a run over a directory can be repeated
-/

namespace ClassChart.Command

open Text (Bytes)
open Text.Utf8 (encode decodeFile)

variable {host : Host} {input output : Path} {style : Style}

/-! ## One step -/

/-- What a run does with a source, and what that adds to its report: it notes that the source is no
text, or writes the diagram of the source. -/
inductive SourceStep (host : Host) (input output : Path) (style : Style) (names : List String)
    (w : World) : World → (DirectoryReport → DirectoryReport) → Prop
  | skip {content : Bytes} {fault : Text.Utf8.Fault}
    (hread : w.files.read (input.join names) = .ok content)
    (hdecode : decodeFile content = .error fault) :
    SourceStep host input output style names w
      (w.noting [.skippedSource (input.join names).toText (.undecodable fault)])
      (.skip (input.join names) fault)
  | write {content : Bytes} {text drawn : String} {parser : Parser} {unit : Declaration}
    {made after : Files} (hread : w.files.read (input.join names) = .ok content)
    (hdecode : decodeFile content = .ok text) (hparser : parserFor host w = .ok parser)
    (hunit : (fileOutline parser (input.join names) text).outcome = .ok unit)
    (hdrawn : diagram style unit = RawText.ofString drawn)
    (hmade : w.files.makeDirs (destination output names).parent = (.ok (), made))
    (hafter : made.write (destination output names) (encode drawn) = .ok after) :
    SourceStep host input output style names w
      (World.noting { (w.withParser host).noting
        (fileOutline parser (input.join names) text).notices with files := after }
          [.wrote (destination output names).toText])
      (.wrote (destination output names))

section Step

variable {names : List String} {sources : List (List String)} {w mid next : World}
  {extend : DirectoryReport → DirectoryReport}

/-- A run takes a step and goes on. -/
theorem SourceStep.run (h : SourceStep host input output style names w mid extend)
    (hlanguage : languageOf? (input.join names) = some defaultLanguage) :
    (generateSources host input output style (names :: sources)).on w =
      (extend <$> generateSources host input output style sources).on mid := by
  cases h with
  | skip hread hdecode => exact generateSources_cons_of_undecodable hlanguage hread hdecode
  | write hread hdecode hparser hunit hdrawn hmade hafter =>
    rw [generateSources_cons_of_diagram hlanguage hread hdecode hparser hunit, hdrawn]
    refine Job.on_bind_ok (writeDiagram_of_write ?_ hafter)
    rwa [World.noting_files, World.withParser_files]

/-- **A run that comes to its end has taken a step** with each source. -/
theorem exists_sourceStep (hsource : IsSourceAt w.files input names) {report : DirectoryReport}
    (h : (generateSources host input output style (names :: sources)).on w = (.ok report, next)) :
    ∃ mid extend rest, SourceStep host input output style names w mid extend ∧
      (generateSources host input output style sources).on mid = (.ok rest, next) ∧
      report = extend rest := by
  obtain ⟨content, hread⟩ := hsource.read
  cases hdecode : decodeFile content with
  | error fault =>
    rw [generateSources_cons_of_undecodable hsource.language_join hread hdecode,
      map_eq_pure_bind] at h
    obtain ⟨rest, last, hrest, hlast⟩ := Job.on_bind_eq_ok h
    cases hlast
    exact ⟨_, _, rest, .skip hread hdecode, hrest, rfl⟩
  | ok text =>
    cases hparser : parserFor host w with
    -- without a parser, or with a base that is missing, the run would have failed
    | error reason =>
      rw [generateSources_cons_of_grammar hsource.language_join hread hdecode hparser] at h
      cases h
    | ok parser =>
      cases hunit : (fileOutline parser (input.join names) text).outcome with
      | error missing =>
        have hattempt := attempt_generateFromFile_on host hsource.language_join style w
        simp only [hread, hdecode, hparser, hunit] at hattempt
        rw [generateSources, Job.on_bind_error hattempt] at h
        cases h
      | ok unit =>
        rw [generateSources_cons_of_diagram hsource.language_join hread hdecode hparser hunit] at h
        obtain ⟨_, mid, hwrites, hmap⟩ := Job.on_bind_eq_ok h
        obtain ⟨drawn, made, after, hdrawn, hmade, hafter, rfl⟩ := writeDiagram_eq_ok hwrites
        rw [map_eq_pure_bind] at hmap
        obtain ⟨rest, last, hrest, hlast⟩ := Job.on_bind_eq_ok hmap
        cases hlast
        rw [World.noting_files, World.withParser_files] at hmade
        exact ⟨_, _, rest, .write hread hdecode hparser hunit hdrawn hmade hafter, hrest, rfl⟩

end Step

/-! ## Sources and diagrams by their places -/

section Places

variable {fs : Files} {names : List String} (h : IsSourceAt fs input names) (cwd : List String)

include h

/-- The place of a source has the extension of sources. -/
theorem IsSourceAt.language_resolve :
    languageOf? ⟨.here, (input.join names).resolve cwd⟩ = some defaultLanguage := by
  rw [Path.resolve_join, foldl_stepTo_of_isName h.isName, ← h.language]
  exact languageOf?_join ⟨.here, input.resolve cwd⟩ h.ne_nil

/-- The place of a diagram does not. -/
theorem IsSourceAt.language_destination (output : Path) :
    languageOf? ⟨.here, (destination output names).resolve cwd⟩ = none := by
  rw [resolve_destination cwd output h.ne_nil h.isName, ← languageOf?_diagramNames h.language]
  exact languageOf?_join ⟨.here, output.resolve cwd⟩ (diagramNames_ne_nil names)

end Places

/-! ## A run over sources -/

/-- A run over sources has written files in places `S` only, none of which is the place of a source.
It can be repeated, whatever is in these files. -/
structure Repeats (host : Host) (input output : Path) (style : Style) (sources : List (List String))
    (S : List String → Prop) (w next : World) (report : DirectoryReport) : Prop where
  no_source : ∀ q, S q → languageOf? ⟨.here, q⟩ = none
  edits : Files.Edits S w.files next.files
  again : ∀ fs, Files.Overwrites S next.files fs →
    (generateSources host input output style sources).on { w with files := fs } = (.ok report, next)

section Run

variable {names : List String} {sources : List (List String)} {S : List String → Prop}
  {w mid next : World} {report : DirectoryReport} {extend : DirectoryReport → DirectoryReport}

/-- A source is read as before, whatever was written after it. -/
theorem read_of_edits {fs made after : Files} {content : Bytes}
    (hno : ∀ q, S q → languageOf? ⟨.here, q⟩ = none)
    (hedits : Files.Edits S fs made) (hover : Files.Overwrites S made after)
    (hsource : IsSourceAt fs input names) (hread : fs.read (input.join names) = .ok content) :
    after.read (input.join names) = .ok content := by
  have hnot (cwd : List String) : ¬ S ((input.join names).resolve cwd) := by
    intro hS
    have hnone := hno _ hS
    rw [hsource.language_resolve cwd] at hnone
    cases hnone
  have hmade := (hedits.grows.read_of_read hread).2 (hnot _)
  exact (hover.edits.grows.read_of_read hmade).2 (hnot _)

/-- **A step is taken again** where the run after it can be repeated. -/
theorem Repeats.cons (hbase : w.files.look ((destination output names).base w.files.cwd) = .folder)
    (hsource : IsSourceAt w.files input names)
    (hstep : SourceStep host input output style names w mid extend)
    (hrest : Repeats host input output style sources S mid next report) :
    ∃ T, Repeats host input output style (names :: sources) T w next (extend report) := by
  cases hstep with
  | skip hread hdecode =>
    -- nothing is written for the source
    refine ⟨S, hrest.no_source, hrest.edits, fun fs hover => ?_⟩
    have hnow := read_of_edits hrest.no_source hrest.edits hover hsource hread
    have hagain : SourceStep host input output style names { w with files := fs } _ _ :=
      .skip hnow hdecode
    rw [hagain.run hsource.language_join, map_eq_pure_bind]
    exact Job.on_bind_ok (hrest.again fs hover)
  | write hread hdecode hparser hunit hdrawn hmade hafter =>
    have hno : ∀ q, q = (destination output names).resolve w.files.cwd ∨ S q →
        languageOf? ⟨.here, q⟩ = none := by
      rintro q (rfl | hS)
      · exact hsource.language_destination w.files.cwd output
      · exact hrest.no_source q hS
    have hedits := Files.edits_of_write hbase hmade hafter hrest.edits
    refine ⟨_, hno, hedits, fun fs hover => ?_⟩
    -- the source has its content, and its diagram can be written where it was written
    have hnow := read_of_edits hno hedits hover hsource hread
    have hne : (destination output names).parts ≠ [] := by
      simp [destination, Path.withSuffix, Path.join]
    obtain ⟨hdirs, restored, hwrite, hrestored⟩ :=
      Files.exists_write_again hbase hne hmade hafter hrest.edits hover
    have hagain : SourceStep host input output style names { w with files := fs } _ _ :=
      .write hnow hdecode hparser hunit hdrawn hdirs hwrite
    rw [hagain.run hsource.language_join, map_eq_pure_bind, World.withParser_withFiles]
    exact Job.on_bind_ok (hrest.again restored hrestored)

/-- What one step leaves of the other sources and of the directories that paths start from. -/
theorem SourceStep.edits
    (hbase : w.files.look ((destination output names).base w.files.cwd) = .folder)
    (hsource : IsSourceAt w.files input names)
    (hstep : SourceStep host input output style names w mid extend) :
    ∃ P : List String → Prop, (∀ q, P q → languageOf? ⟨.here, q⟩ = none) ∧
      Files.Edits P w.files mid.files := by
  cases hstep with
  | skip => exact ⟨fun _ => False, nofun, .refl⟩
  | write _ _ _ _ _ hmade hafter =>
    refine ⟨_, ?_, Files.edits_of_write (S := fun _ => False) hbase hmade hafter .refl⟩
    rintro q (rfl | hnone)
    · exact hsource.language_destination w.files.cwd output
    · exact hnone.elim

/-- **A run over sources can be repeated**, whatever is in the files that it wrote. -/
theorem exists_repeats (hbase : w.files.look (output.base w.files.cwd) = .folder)
    (hsources : ∀ names ∈ sources, IsSourceAt w.files input names)
    (h : (generateSources host input output style sources).on w = (.ok report, next)) :
    ∃ S, Repeats host input output style sources S w next report := by
  induction sources generalizing w report with
  | nil =>
    -- nothing was written, so that there is nothing to write over
    cases h
    refine ⟨fun _ => False, nofun, .refl, fun fs hover => ?_⟩
    rw [hover.eq fun _ => id]
    rfl
  | cons names sources ih =>
    obtain ⟨hsource, hothers⟩ := List.forall_mem_cons.mp hsources
    have hstart : w.files.look ((destination output names).base w.files.cwd) = .folder := hbase
    obtain ⟨mid, extend, rest, hstep, hrest, rfl⟩ := exists_sourceStep hsource h
    -- the other sources are still there, and can be read as before
    obtain ⟨P, hP, hedits⟩ := hstep.edits hstart hsource
    have hlater : ∀ others ∈ sources, IsSourceAt mid.files input others := by
      intro others hmem
      have hother := hothers others hmem
      obtain ⟨content, hread⟩ := hother.read
      exact { hother with read := ⟨content, read_of_edits hP hedits .refl hother hread⟩ }
    obtain ⟨S, hS⟩ := ih (hedits.grows.look_base hbase) hlater hrest
    exact hS.cons hstart hsource hstep

end Run

/-! ## A run over a directory -/

section Directory

variable {json : Bool} {w next : World} {code : Int}

/-- A directory that cannot be searched ends the run. -/
theorem generateDirectory_of_fault {fault : FileFault}
    (h : w.files.sourcesBelow input = .error fault) :
    (generateDirectory host json input output style).on w =
      (.error (.access (.file fault)), w) := by
  have hlist : (Job.ofFileFault (w.files.sourcesBelow input)).on w =
      (.error (.access (.file fault)), w) := by
    rw [h]
    rfl
  rw [generateDirectory, Job.on_bind_ok (Job.on_files w), Job.on_bind_error hlist]

/-- A run over a directory that comes to its end has searched the directory, made the diagrams of
the sources, and told what it did. -/
theorem generateDirectory_eq_ok
    (h : (generateDirectory host json input output style).on w = (.ok code, next)) :
    ∃ sources report mid, w.files.sourcesBelow input = .ok sources ∧
      (generateSources host input output style sources).on w = (.ok report, mid) ∧
      next.files = mid.files ∧
      ∀ fs : Files, fs.sourcesBelow input = .ok sources →
        (generateSources host input output style sources).on { w with files := fs } =
          (.ok report, mid) →
        (generateDirectory host json input output style).on { w with files := fs } =
          (.ok code, next) := by
  cases hsources : w.files.sourcesBelow input with
  | error fault =>
    rw [generateDirectory_of_fault hsources] at h
    cases h
  | ok sources =>
    rw [generateDirectory_of_sources hsources] at h
    obtain ⟨report, mid, hrun, htells⟩ := Job.on_bind_eq_ok h
    obtain ⟨events, hevents⟩ := speaks_printReport host json input report mid
    -- the report is told by words alone, so the files are those after the sources
    have hnext := htells
    rw [Job.on_bind_ok hevents] at hnext
    refine ⟨sources, report, mid, rfl, hrun, ?_, fun fs hfs hagain => ?_⟩
    · rw [← (Prod.mk.inj hnext).2, World.telling_files]
    · rw [generateDirectory_of_sources hfs, Job.on_bind_ok hagain, htells]

/-- **A run over a directory can be repeated.** It finds the sources that it found, with the content
that they had, tells the same, and leaves the files as they are. Only a folder of its own making can
prevent that, if the path to the folder is too long: then the directory cannot be searched. -/
theorem generateDirectory_repeats (host : Host) {json : Bool} {input output : Path} {style : Style}
    {w next : World} {code : Int} (hsound : w.files.isSound = true)
    (hdir : w.files.isDir input = true)
    (h : (generateDirectory host json input output style).on w = (.ok code, next)) :
    ∃ sources, w.files.sourcesBelow input = .ok sources ∧
      (∀ names ∈ sources, next.files.read (input.join names) = w.files.read (input.join names)) ∧
      (next.files.IsShortBelow input →
        next.files.sourcesBelow input = .ok sources ∧
        (generateDirectory host json input output style).on { w with files := next.files } =
          (.ok code, next)) ∧
      (¬ next.files.IsShortBelow input →
        (∃ names, w.files.look (input.resolve w.files.cwd ++ names) = .nothing ∧
          next.files.look (input.resolve w.files.cwd ++ names) = .folder ∧
          Files.isShort (input.join names) = false) ∧
        (generateDirectory host json input output style).on { w with files := next.files } =
          (.error (.access (.file .tooLong)), { w with files := next.files })) := by
  obtain ⟨sources, report, mid, hsources, hrun, hfiles, hagain⟩ := generateDirectory_eq_ok h
  have hat : ∀ names ∈ sources, IsSourceAt w.files input names :=
    fun names hmem => isSourceAt_of_mem_sourcesBelow hsound hsources hmem
  obtain ⟨S, hrepeats⟩ := exists_repeats (Files.look_base_of_isSound hsound output) hat hrun
  have hsearch := hrepeats.edits.sourcesBelow_eq hrepeats.no_source hdir hsources
  rw [hfiles]
  refine ⟨sources, hsources, ?_, ?_, ?_⟩
  · intro names hmem
    obtain ⟨content, hread⟩ := (hat names hmem).read
    rw [hread]
    exact read_of_edits hrepeats.no_source hrepeats.edits .refl (hat names hmem) hread
  · intro hshort
    have hfound := hsearch.1 hshort
    exact ⟨hfound, hagain mid.files hfound (hrepeats.again mid.files .refl)⟩
  · intro hlong
    exact ⟨hrepeats.edits.exists_new_folder hdir hsources hlong,
      generateDirectory_of_fault (w := { w with files := mid.files }) (hsearch.2 hlong)⟩

end Directory

/-- Surroundings in which every source is read as a class whose name is the whole text. -/
def namingHost : Host where
  pack := .installed fun _ => .ok fun source =>
    ⟨.mk ⟨"compilation_unit", true, none, 0, source.length, 0⟩
      [.mk ⟨"class_declaration", true, none, 0, source.length, 0⟩
        [.mk ⟨"identifier", true, some "name", 0, source.length, 0⟩ []]], false⟩
  indentVariable := none
  now := ⟨2026, 1, 1, 0, 0, 0⟩

/-- Files, among them a source that is no text in a directory named like a source, and two sources
whose diagrams go to one place. -/
def collidingFiles (others : Dir) : Files :=
  ⟨.folder "d.cs" (.file "y.cs" [0xFF] .empty)
    (.file "x.CS" [0x41] (.file "x.cs" [0x42] others)), []⟩

/-- The run writes two diagrams to one place among the sources, and so it does again. -/
theorem generateDirectory_repeats_collidingFiles :
    ∃ next, next.files = collidingFiles
        (.file "x.puml" (encode "@startuml\nclass B \x7b\n\x7d\n@enduml\n") .empty) ∧
      (generateDirectory namingHost false ⟨.here, []⟩ ⟨.here, []⟩ {}).on
        { files := collidingFiles .empty } = (.ok 5, next) ∧
      (generateDirectory namingHost false ⟨.here, []⟩ ⟨.here, []⟩ {}).on
        { files := next.files } = (.ok 5, next) := by
  have hsorted : (collidingFiles .empty).root.sources = [["d.cs", "y.cs"], ["x.CS"], ["x.cs"]] :=
    (List.mergeSort_of_pairwise (by decide +kernel)).trans (by decide +kernel)
  have hsources : (collidingFiles .empty).sourcesBelow ⟨.here, []⟩ =
      .ok [["d.cs", "y.cs"], ["x.CS"], ["x.cs"]] := by
    rw [Files.sourcesBelow_of_folder rfl rfl, hsorted]
    rfl
  have hcode : ((generateDirectory namingHost false ⟨.here, []⟩ ⟨.here, []⟩ {}).on
      { files := collidingFiles .empty }).1 = .ok 5 := by
    rw [generateDirectory_of_sources hsources]
    decide +kernel
  have hfiles : ((generateDirectory namingHost false ⟨.here, []⟩ ⟨.here, []⟩ {}).on
      { files := collidingFiles .empty }).2.files = collidingFiles
        (.file "x.puml" (encode "@startuml\nclass B \x7b\n\x7d\n@enduml\n") .empty) := by
    rw [generateDirectory_of_sources hsources]
    decide +kernel
  obtain ⟨_, -, -, hagain, -⟩ := generateDirectory_repeats namingHost (by decide +kernel)
    (by decide +kernel) (Job.on_eq_of_fst hcode)
  refine ⟨_, hfiles, Job.on_eq_of_fst hcode, (hagain ?_).2⟩
  rw [hfiles]
  exact Files.isShortBelow_of_isListable rfl rfl (by decide +kernel)

/-! ## A folder that is out of reach -/

/-- A source beside a directory to go through. -/
def sourceBesideFolder : Files :=
  ⟨.folder "d" .empty (.file "x.cs" [] .empty), []⟩

section Detour

variable {n : Nat}

theorem isShort_join_detour {names : List String} (h : names ≠ []) :
    Files.isShort ((detour n).join names) = true ↔
      5 * n + (names.map fun name => 1 + name.utf8ByteSize).sum ≤ 4096 := by
  have hsize := utf8ByteSize_detour n h
  have hbound : Files.maxPathBytes = 4095 := rfl
  rw [Files.isShort, decide_eq_true_iff, hbound]
  omega

/-- A detour that is not too long leads to the current directory. -/
theorem locate_detour {fs : Files} (hcwd : fs.cwd = []) (hfolder : fs.look ["d"] = .folder)
    (hn : n ≤ 816) : fs.locate (detour n) = .ok ((detour n).resolve fs.cwd) := by
  have hfits : (detour n).Fits := by
    have hparent := (fits_detour hn).parent
    rwa [settingsDir, Path.parent, Path.join, List.dropLast_concat] at hparent
  refine Files.locate_eq_ok_iff.mpr ⟨hfits, fun r hr => ?_, rfl⟩
  rw [hcwd] at hr
  rcases eq_of_mem_passed_detour hr with rfl | rfl
  · rfl
  · exact hfolder

theorem entry?_detour (n : Nat) :
    sourceBesideFolder.root.entry? ((detour n).resolve sourceBesideFolder.cwd) =
      some (.folder sourceBesideFolder.root) :=
  congrArg sourceBesideFolder.root.entry? (resolve_detour n)

theorem sourcesBelow_detour (hn : n ≤ 816) :
    sourceBesideFolder.sourcesBelow (detour n) = .ok [["x.cs"]] := by
  have hfound : sourceBesideFolder.root.files.filter isSource = [["x.cs"]] := by decide +kernel
  have hlistable : sourceBesideFolder.root.isListable (detour n) = true := by
    have hsize : (["d"].map fun name => 1 + name.utf8ByteSize).sum = 2 ∧
        (["x.cs"].map fun name => 1 + name.utf8ByteSize).sum = 5 := by decide
    have hfolder := (isShort_join_detour (n := n) (List.cons_ne_nil "d" [])).mpr (by omega)
    have hsource := (isShort_join_detour (n := n) (List.cons_ne_nil "x.cs" [])).mpr (by omega)
    simp [sourceBesideFolder, Dir.isListable, hfolder, hsource]
  rw [← hfound]
  exact Files.sourcesBelow_of_sorted (locate_detour rfl rfl hn) (entry?_detour n) hlistable
    (by decide +kernel)

theorem isDir_detour (hn : n ≤ 816) : sourceBesideFolder.isDir (detour n) = true := by
  refine Files.isDir_eq_true_iff.mpr ⟨_, locate_detour rfl rfl hn, ?_⟩
  rw [Files.look, Dir.look, entry?_detour]
  rfl

/-- A run on the way of a detour makes the directory of its output. -/
theorem exists_detourRun (hn : n ≤ 816) :
    ∃ report next, (generateSources plainHost (detour n) ⟨.here, ["oooooooooooooooo"]⟩ {}
        [["x.cs"]]).on { files := sourceBesideFolder } = (.ok report, next) ∧
      next.files.cwd = [] ∧ next.files.look ["oooooooooooooooo"] = .folder := by
  have hsource : IsSourceAt sourceBesideFolder (detour n) ["x.cs"] :=
    isSourceAt_of_mem_sourcesBelow (by decide +kernel) (sourcesBelow_detour hn) List.mem_cons_self
  have hread : sourceBesideFolder.read ((detour n).join ["x.cs"]) = .ok [] := by
    obtain ⟨content, hread⟩ := hsource.read
    have hlook := (Files.read_eq_ok_iff.mp hread).2.2
    rw [Path.resolve_join] at hlook
    have hfile := congrArg (fun place => sourceBesideFolder.look (["x.cs"].foldl stepTo place))
      (resolve_detour n)
    rw [hread, Standing.file.inj (hlook.symm.trans hfile)]
  have hfront : ((generateFromFile plainHost ((detour n).join ["x.cs"]) {}).on
      { files := sourceBesideFolder }).1 ≠ .error .missingBase := by
    rw [generateFromFile_on plainHost hsource.language_join]
    have hdecode : decodeFile [] = .ok "" := by decide +kernel
    simp only [hread, hdecode]
    nofun
  obtain ⟨report, next, hrun, hhas⟩ := exists_hasRun (w := { files := sourceBesideFolder }) rfl
    (by decide +kernel) Style.isText_default (List.forall_mem_singleton.mpr hsource)
    (List.forall_mem_singleton.mpr hfront)
    (by decide +kernel : IsClear sourceBesideFolder ⟨.here, ["oooooooooooooooo"]⟩ [["x.cs"]])
  refine ⟨report, next, hrun, hhas.builds.cwd_eq, hhas.builds.folder _ ?_⟩
  refine ⟨["x.cs"], List.mem_cons_self, ?_, by decide⟩
  exact ⟨[], hread, Text.Utf8.exists_decodeFile_iff.mp ⟨"", by decide +kernel⟩⟩

/-- If the detour is long, the directory of the output is out of reach behind it. Its length is kept
as a variable, so that nothing is computed with it. -/
theorem exists_detourRun_tooLong (hn : n = 816) :
    ∃ code next, (generateDirectory plainHost false (detour n) ⟨.here, ["oooooooooooooooo"]⟩ {}).on
        { files := sourceBesideFolder } = (.ok code, next) ∧
      (generateDirectory plainHost false (detour n) ⟨.here, ["oooooooooooooooo"]⟩ {}).on
        { files := next.files } = (.error (.access (.file .tooLong)), { files := next.files }) := by
  have hsources := sourcesBelow_detour hn.le
  have hsound : sourceBesideFolder.isSound = true := by decide +kernel
  obtain ⟨report, mid, hrun, hcwd, hfolder⟩ := exists_detourRun hn.le
  obtain ⟨events, hevents⟩ := speaks_printReport plainHost false (detour n) report mid
  obtain ⟨S, hrepeats⟩ := exists_repeats (w := { files := sourceBesideFolder })
    (Files.look_base_of_isSound hsound _)
    (fun names hmem => isSourceAt_of_mem_sourcesBelow hsound hsources hmem) hrun
  refine ⟨_, mid.telling events, (generateDirectory_of_sources hsources).trans
    ((Job.on_bind_ok hrun).trans (Job.on_bind_ok hevents)), generateDirectory_of_fault ?_⟩
  refine (hrepeats.edits.sourcesBelow_eq hrepeats.no_source (isDir_detour hn.le) hsources).2 ?_
  intro hshort
  have hreach := hshort ["oooooooooooooooo"] (by
    rw [hcwd, resolve_detour, List.nil_append, hfolder])
  have hname : (["oooooooooooooooo"].map fun name => 1 + name.utf8ByteSize).sum = 17 := by decide
  rw [isShort_join_detour (List.cons_ne_nil _ _), hname] at hreach
  omega

end Detour

/-- A run over a directory makes a folder that it cannot look into when it is repeated. -/
theorem generateDirectory_detour :
    ∃ code next,
      (generateDirectory plainHost false (detour 816) ⟨.here, ["oooooooooooooooo"]⟩ {}).on
        { files := sourceBesideFolder } = (.ok code, next) ∧
      (generateDirectory plainHost false (detour 816) ⟨.here, ["oooooooooooooooo"]⟩ {}).on
        { files := next.files } = (.error (.access (.file .tooLong)), { files := next.files }) :=
  exists_detourRun_tooLong rfl

end ClassChart.Command
