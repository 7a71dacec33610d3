import ClassChart.Proofs.Destinations

/-!
# A run over a directory does what it reports

The sources of a directory are read and their diagrams are written one after the other, perhaps into
the same tree. If no diagram is in the way of another or of a directory, then no writing disturbs a
later reading: each diagram is that of its source at the beginning, and all other files stay as they
are.

## Main definitions

* `IsClear`: no diagram is in the way of another, of a file or of a directory
* `IsSourceAt`: a source that can be read
* `plan`: the file that is written for a source
* `HasRun`: what a run over sources reports and what it puts in

## Main results

* `exists_hasRun`: a run over sources whose diagrams are in nobody's way
* `generateDirectory_run`: a run over a directory
-/

namespace ClassChart.Command

open Text (Bytes)

/-! ## What a run starts from -/

/-- The diagrams of sources are in nobody's way: they go to different places, at which no directory
stands. On the way to them there are no files and no diagrams. Their paths are not too long. -/
structure IsClear (fs : Files) (output : Path) (sources : List (List String)) : Prop where
  fits : ∀ names ∈ sources, (destination output names).Fits
  nodup : (sources.map (destination output)).Nodup
  no_folder : ∀ names ∈ sources, fs.look ((destination output names).resolve fs.cwd) ≠ .folder
  no_file : ∀ names ∈ sources, ∀ q ∈ (destination output names).passed fs.cwd, ∀ content,
    fs.look q ≠ .file content
  apart : ∀ names ∈ sources, ∀ others ∈ sources,
    (destination output others).resolve fs.cwd ∉ (destination output names).passed fs.cwd

instance (fs : Files) (output : Path) (sources : List (List String)) :
    Decidable (IsClear fs output sources) :=
  decidable_of_iff ((∀ names ∈ sources, (destination output names).Fits) ∧
      (sources.map (destination output)).Nodup ∧
      (∀ names ∈ sources, fs.look ((destination output names).resolve fs.cwd) ≠ .folder) ∧
      (∀ names ∈ sources, ∀ q ∈ (destination output names).passed fs.cwd, ∀ content,
        fs.look q ≠ .file content) ∧
      ∀ names ∈ sources, ∀ others ∈ sources,
        (destination output others).resolve fs.cwd ∉ (destination output names).passed fs.cwd)
    ⟨fun ⟨hfits, hnodup, hfolder, hfile, hapart⟩ => ⟨hfits, hnodup, hfolder, hfile, hapart⟩,
      fun h => ⟨h.fits, h.nodup, h.no_folder, h.no_file, h.apart⟩⟩

/-- A source by its names that can be read at the place they lead to. -/
structure IsSourceAt (fs : Files) (input : Path) (names : List String) : Prop where
  ne_nil : names ≠ []
  isName : ∀ name ∈ names, Dir.isName name = true
  language : languageOf? ⟨.here, names⟩ = some defaultLanguage
  read : ∃ content, fs.read (input.join names) = .ok content

theorem IsSourceAt.language_join {fs : Files} {input : Path} {names : List String}
    (h : IsSourceAt fs input names) : languageOf? (input.join names) = some defaultLanguage := by
  rw [languageOf?_join input h.ne_nil, h.language]

theorem isSourceAt_of_mem_sourcesBelow {fs : Files} (hsound : fs.isSound = true) {input : Path}
    {sources : List (List String)} (h : fs.sourcesBelow input = .ok sources) {names : List String}
    (hmem : names ∈ sources) : IsSourceAt fs input names := by
  obtain ⟨hread, hnames⟩ := Files.exists_read_of_mem_sourcesBelow hsound h hmem
  obtain ⟨d, -, -, -, hfile, -⟩ := Files.mem_sourcesBelow h hmem
  have hne := Dir.mem_files_ne_nil hfile
  have hlanguage := Files.languageOf?_of_mem_sourcesBelow h hmem input
  rw [languageOf?_join input hne] at hlanguage
  exact ⟨hne, hnames, hlanguage, hread⟩

/-! ## The diagram of a source and the files -/

/-- The diagram of a file does not depend on anything but the file and the parser. -/
theorem generateFromFile_congr {host : Host} {p : Path}
    (hp : languageOf? p = some defaultLanguage) (style : Style) {w next : World}
    (hread : next.files.read p = w.files.read p) (hparser : parserFor host next = parserFor host w) :
    ((generateFromFile host p style).on next).1 = ((generateFromFile host p style).on w).1 := by
  rw [generateFromFile_on host hp, generateFromFile_on host hp, hread, hparser]
  cases w.files.read p with
  | error fault => rfl
  | ok content =>
    simp only
    cases Text.Utf8.decodeFile content with
    | error fault => rfl
    | ok text =>
      simp only
      cases parserFor host w <;> rfl

/-- The file that is written for a source: where it is, and what is in it. -/
def plan (host : Host) (w : World) (input output : Path) (style : Style) (names : List String) :
    Option (List String × Bytes) :=
  match ((generateFromFile host (input.join names) style).on w).1 with
  | .ok text =>
    text.toString?.map fun s =>
      ((destination output names).resolve w.files.cwd, Text.Utf8.encode s)
  | .error _ => none

/-! ## One step -/

section Step

variable {fs next : Files} {input output : Path} {names : List String}
  {sources : List (List String)} {content : Bytes}

/-- The diagrams of other sources go to other places. -/
theorem resolve_ne_of_nodup (cwd : List String)
    (hnodup : ((names :: sources).map (destination output)).Nodup)
    (hsources : ∀ others ∈ names :: sources, others ≠ [] ∧ ∀ name ∈ others, Dir.isName name = true)
    {others : List String} (hothers : others ∈ sources) :
    (destination output names).resolve cwd ≠ (destination output others).resolve cwd := by
  intro h
  obtain ⟨hne, hnames⟩ := hsources names List.mem_cons_self
  obtain ⟨hneOthers, hnamesOthers⟩ := hsources others (List.mem_cons_of_mem names hothers)
  rw [resolve_destination cwd output hne hnames,
    resolve_destination cwd output hneOthers hnamesOthers] at h
  have hsame : destination output names = destination output others := by
    rw [destination_eq output hne, destination_eq output hneOthers, List.append_cancel_left h]
  rw [List.map_cons, List.nodup_cons] at hnodup
  exact hnodup.1 (hsame ▸ List.mem_map_of_mem hothers)

theorem IsClear.tail (h : IsClear fs output (names :: sources)) : IsClear fs output sources where
  fits := fun others hothers => h.fits others (List.mem_cons_of_mem names hothers)
  nodup := (List.nodup_cons.mp h.nodup).2
  no_folder := fun others hothers => h.no_folder others (List.mem_cons_of_mem names hothers)
  no_file := fun others hothers => h.no_file others (List.mem_cons_of_mem names hothers)
  apart := fun others hothers more hmore =>
    h.apart others (List.mem_cons_of_mem names hothers) more (List.mem_cons_of_mem names hmore)

/-- After a diagram is written, the other sources are still there. -/
theorem IsSourceAt.of_builds {others : List String} (hothers : IsSourceAt fs input others)
    (hbuilds : fs.Builds next [((destination output names).resolve fs.cwd, content)]
      (· ∈ (destination output names).passed fs.cwd))
    (hclear : IsClear fs output (names :: sources)) (hnames : IsSourceAt fs input names) :
    next.read (input.join others) = fs.read (input.join others) := by
  obtain ⟨found, hfound⟩ := hothers.read
  rw [hfound]
  apply hbuilds.read_eq hfound
  · intro x hx
    rw [List.mem_singleton.mp hx]
    exact hclear.no_folder names List.mem_cons_self
  · intro x hx
    rw [List.mem_singleton.mp hx]
    exact (resolve_ne_destination fs.cwd input output hothers.language hnames.language
      hothers.ne_nil hothers.isName hnames.ne_nil hnames.isName).symm
  · exact fun q hq => hclear.no_file names List.mem_cons_self q hq found

/-- After a diagram is written, the others are still in nobody's way. -/
theorem IsClear.of_builds
    (hbuilds : fs.Builds next [((destination output names).resolve fs.cwd, content)]
      (· ∈ (destination output names).passed fs.cwd))
    (hclear : IsClear fs output (names :: sources))
    (hsources : ∀ others ∈ names :: sources, IsSourceAt fs input others) :
    IsClear next output sources := by
  have hmem : ∀ {others}, others ∈ sources → others ∈ names :: sources :=
    List.mem_cons_of_mem names
  have hfirst : names ∈ names :: sources := List.mem_cons_self
  refine ⟨fun others h => hclear.fits others (hmem h), (List.nodup_cons.mp hclear.nodup).2, ?_, ?_,
    ?_⟩
  · intro others hothers
    have hapart := hclear.apart names hfirst others (hmem hothers)
    have hne := resolve_ne_of_nodup fs.cwd hclear.nodup
      (fun o ho => ⟨(hsources o ho).ne_nil, (hsources o ho).isName⟩) hothers
    rw [hbuilds.cwd_eq, hbuilds.other _ _ hapart]
    · exact hclear.no_folder others (hmem hothers)
    · intro x hx
      rwa [List.mem_singleton.mp hx]
  · intro others hothers q hq found
    rw [hbuilds.cwd_eq] at hq
    -- a place passed by both diagrams is a folder now, which is in nobody's way
    by_cases hpassed : q ∈ (destination output names).passed fs.cwd
    · rw [hbuilds.folder q hpassed]
      intro hfile
      cases hfile
    · rw [hbuilds.other q _ hpassed]
      · exact hclear.no_file others (hmem hothers) q hq found
      · intro x hx
        rw [List.mem_singleton.mp hx]
        rintro rfl
        exact hclear.apart others (hmem hothers) names hfirst hq
  · rw [hbuilds.cwd_eq]
    exact fun others hothers more hmore => hclear.apart others (hmem hothers) more (hmem hmore)

end Step

/-! ## The whole run -/

section Run

variable {host : Host} {input output : Path} {style : Style}

/-- A source that is no text has no file written for it. -/
theorem plan_of_undecodable {w : World} {names : List String} (hsource : IsSourceAt w.files input names)
    {content : Bytes} (hread : w.files.read (input.join names) = .ok content)
    {fault : Text.Utf8.Fault} (hdecode : Text.Utf8.decodeFile content = .error fault) :
    plan host w input output style names = none := by
  have hrun := generateFromFile_on host hsource.language_join style w
  simp only [hread, hdecode] at hrun
  unfold plan
  rw [hrun]

theorem plan_of_diagram {w : World} {names : List String} {text : String}
    (h : ((generateFromFile host (input.join names) style).on w).1 = .ok (RawText.ofString text)) :
    plan host w input output style names =
      some ((destination output names).resolve w.files.cwd, Text.Utf8.encode text) := by
  unfold plan
  rw [h]
  simp only [RawText.toString?_ofString, Option.map_some]

theorem place_of_plan {w : World} {names : List String} {x : List String × Bytes}
    (h : plan host w input output style names = some x) :
    x.1 = (destination output names).resolve w.files.cwd := by
  unfold plan at h
  split at h
  · obtain ⟨s, -, rfl⟩ := Option.map_eq_some_iff.mp h
    rfl
  · cases h

/-- The sources can be read as before, and with the same parser. -/
structure SameSources (host : Host) (input : Path) (w next : World) (sources : List (List String)) :
    Prop where
  cwd_eq : next.files.cwd = w.files.cwd
  parser_eq : parserFor host next = parserFor host w
  isSource : ∀ names ∈ sources, IsSourceAt w.files input names
  read_eq : ∀ names ∈ sources, next.files.read (input.join names) = w.files.read (input.join names)

namespace SameSources

variable {w next : World} {sources : List (List String)} (h : SameSources host input w next sources)

include h

theorem isSourceAt : ∀ names ∈ sources, IsSourceAt next.files input names := by
  intro names hmem
  obtain ⟨hne, hnames, hlanguage, hread⟩ := h.isSource names hmem
  exact ⟨hne, hnames, hlanguage, by rwa [h.read_eq names hmem]⟩

theorem diagram_eq (style : Style) : ∀ names ∈ sources,
    ((generateFromFile host (input.join names) style).on next).1 =
      ((generateFromFile host (input.join names) style).on w).1 := by
  intro names hmem
  exact generateFromFile_congr (h.isSource names hmem).language_join style (h.read_eq names hmem)
    h.parser_eq

theorem isReadableAt_iff : ∀ names ∈ sources,
    (next.files.IsReadableAt (input.join names) ↔ w.files.IsReadableAt (input.join names)) := by
  intro names hmem
  rw [Files.IsReadableAt, Files.IsReadableAt, h.read_eq names hmem]

theorem filter_eq : (sources.filter fun names => next.files.IsReadableAt (input.join names)) =
    sources.filter fun names => w.files.IsReadableAt (input.join names) :=
  List.filter_congr fun names hmem => decide_eq_decide.mpr (h.isReadableAt_iff names hmem)

theorem filter_not_eq : (sources.filter fun names => ¬ next.files.IsReadableAt (input.join names)) =
    sources.filter fun names => ¬ w.files.IsReadableAt (input.join names) :=
  List.filter_congr fun names hmem =>
    decide_eq_decide.mpr (not_congr (h.isReadableAt_iff names hmem))

theorem filterMap_plan_eq : sources.filterMap (plan host next input output style) =
    sources.filterMap (plan host w input output style) := by
  refine List.filterMap_congr fun names hmem => ?_
  unfold plan
  rw [h.diagram_eq style names hmem, h.cwd_eq]

end SameSources

/-- The folders that are made on the way to the diagrams of sources. -/
def IsMade (fs : Files) (input output : Path) (sources : List (List String)) (q : List String) :
    Prop :=
  ∃ names ∈ sources, fs.IsReadableAt (input.join names) ∧
    q ∈ (destination output names).passed fs.cwd

theorem SameSources.isMade_eq {w next : World} {sources : List (List String)}
    (h : SameSources host input w next sources) :
    IsMade next.files input output sources = IsMade w.files input output sources := by
  funext q
  refine propext (exists_congr fun names => and_congr_right fun hmem => ?_)
  rw [h.isReadableAt_iff names hmem, h.cwd_eq]

/-- What a run over sources reports and what it puts in. -/
structure HasRun (host : Host) (input output : Path) (style : Style) (sources : List (List String))
    (w next : World) (report : DirectoryReport) : Prop where
  written : report.written =
    (sources.filter fun names => w.files.IsReadableAt (input.join names)).map
      fun names => (destination output names).toText
  skipped : report.skipped.map (·.path) =
    (sources.filter fun names => ¬ w.files.IsReadableAt (input.join names)).map
      fun names => (input.join names).toText
  builds : w.files.Builds next.files (sources.filterMap (plan host w input output style))
    (IsMade w.files input output sources)

/-- A source that is skipped is reported so, and nothing is put in for it. -/
theorem HasRun.skip {sources : List (List String)} {names : List String} {w mid next : World}
    {report : DirectoryReport} (h : HasRun host input output style sources mid next report)
    (hsame : SameSources host input w mid sources) (hfiles : mid.files = w.files)
    (hnot : ¬ w.files.IsReadableAt (input.join names))
    (hplan : plan host w input output style names = none) (fault : Text.Utf8.Fault) :
    HasRun host input output style (names :: sources) w next
      (report.skip (input.join names) fault) where
  written := by
    rw [List.filter_cons_of_neg (by simpa using hnot), ← hsame.filter_eq]
    exact h.written
  skipped := by
    rw [List.filter_cons_of_pos (by simpa using hnot), List.map_cons, ← hsame.filter_not_eq,
      ← h.skipped]
    rfl
  builds := by
    -- the source adds neither a file nor a folder
    have hmade : IsMade w.files input output (names :: sources) =
        IsMade w.files input output sources := by
      funext q
      simp [IsMade, hnot]
    rw [List.filterMap_cons_none hplan, hmade, ← hsame.filterMap_plan_eq, ← hsame.isMade_eq,
      ← hfiles]
    exact h.builds

/-- A diagram that is written is reported so, and stays where it was put in. -/
theorem HasRun.wrote {sources : List (List String)} {names : List String} {w mid next : World}
    {report : DirectoryReport} {content : Bytes}
    (h : HasRun host input output style sources mid next report)
    (hsame : SameSources host input w mid sources)
    (hbuilds : w.files.Builds mid.files [((destination output names).resolve w.files.cwd, content)]
      (· ∈ (destination output names).passed w.files.cwd))
    (hclear : IsClear w.files output (names :: sources))
    (hnames : IsSourceAt w.files input names)
    (hreadable : w.files.IsReadableAt (input.join names))
    (hplan : plan host w input output style names =
      some ((destination output names).resolve w.files.cwd, content)) :
    HasRun host input output style (names :: sources) w next
      (report.wrote (destination output names)) where
  written := by
    rw [List.filter_cons_of_pos (by simpa using hreadable), List.map_cons, ← hsame.filter_eq,
      ← h.written]
    rfl
  skipped := by
    rw [List.filter_cons_of_neg (by simpa using hreadable), ← hsame.filter_not_eq]
    exact h.skipped
  builds := by
    have hmade : IsMade w.files input output (names :: sources) = fun q =>
        q ∈ (destination output names).passed w.files.cwd ∨ IsMade w.files input output sources q := by
      funext q
      simp [IsMade, hreadable]
    have hlater := h.builds
    rw [hsame.filterMap_plan_eq, hsame.isMade_eq] at hlater
    -- the places of the later diagrams
    have hplace : ∀ y ∈ sources.filterMap (plan host w input output style), ∃ others ∈ sources,
        y.1 = (destination output others).resolve w.files.cwd := by
      intro y hy
      obtain ⟨others, hothers, hy⟩ := List.mem_filterMap.mp hy
      exact ⟨others, hothers, place_of_plan hy⟩
    rw [List.filterMap_cons_some hplan, hmade, ← List.singleton_append]
    apply hbuilds.trans hlater
    · intro x hx
      rw [List.mem_singleton.mp hx]
      constructor
      · intro y hy
        obtain ⟨others, hothers, hy⟩ := hplace y hy
        rw [hy]
        refine (resolve_ne_of_nodup w.files.cwd hclear.nodup ?_ hothers).symm
        intro o ho
        rcases List.mem_cons.mp ho with rfl | ho
        · exact ⟨hnames.ne_nil, hnames.isName⟩
        · exact ⟨(hsame.isSource o ho).ne_nil, (hsame.isSource o ho).isName⟩
      · rintro ⟨others, hothers, -, hq⟩
        exact hclear.apart others (List.mem_cons_of_mem names hothers) names List.mem_cons_self hq
    · intro q hq y hy
      obtain ⟨others, hothers, hy⟩ := hplace y hy
      rw [hy]
      rintro rfl
      exact hclear.apart names List.mem_cons_self others (List.mem_cons_of_mem names hothers) hq

/-- The diagram of a source that is a text, where the front end does not fail on it. -/
theorem exists_diagram {w : World} {parser : Parser} (hparser : parserFor host w = .ok parser)
    (hstyle : style.IsText) {p : Path} (hlanguage : languageOf? p = some defaultLanguage)
    {content : Bytes} (hread : w.files.read p = .ok content) {text : String}
    (hdecode : Text.Utf8.decodeFile content = .ok text)
    (hfront : ((generateFromFile host p style).on w).1 ≠ .error .missingBase) :
    ∃ unit s, (fileOutline parser p text).outcome = .ok unit ∧
      diagram style unit = RawText.ofString s ∧
      ((generateFromFile host p style).on w).1 = .ok (RawText.ofString s) := by
  have hrun := generateFromFile_on host hlanguage style w
  simp only [hread, hdecode, hparser] at hrun
  cases hunit : (fileOutline parser p text).outcome with
  | error missing =>
    rw [hunit] at hrun
    rw [hrun] at hfront
    exact absurd rfl hfront
  | ok unit =>
    obtain ⟨s, hs⟩ := RawText.isText_iff.mp (isText_diagram hstyle unit)
    rw [hunit] at hrun
    exact ⟨unit, s, rfl, hs, by rw [hrun, ← hs]⟩

/-- The step over a source with a diagram puts in the file of the diagram. -/
theorem generateSources_cons_of_clear {sources : List (List String)} {names : List String}
    {w : World} {parser : Parser} {content : Bytes} {text s : String} {unit : Declaration}
    (hparser : parserFor host w = .ok parser)
    (hbase : w.files.look (output.base w.files.cwd) = .folder)
    (hsource : IsSourceAt w.files input names) (hclear : IsClear w.files output (names :: sources))
    (hread : w.files.read (input.join names) = .ok content)
    (hdecode : Text.Utf8.decodeFile content = .ok text)
    (hunit : (fileOutline parser (input.join names) text).outcome = .ok unit)
    (hdiagram : diagram style unit = RawText.ofString s) :
    ∃ mid, (generateSources host input output style (names :: sources)).on w =
        (.wrote (destination output names) <$> generateSources host input output style sources).on
          mid ∧
      parserFor host mid = .ok parser ∧
      w.files.Builds mid.files
        [((destination output names).resolve w.files.cwd, Text.Utf8.encode s)]
        (· ∈ (destination output names).passed w.files.cwd) := by
  -- the world in which the diagram is written: its files are still those of `w`
  let drawn := (w.withParser host).noting (fileOutline parser (input.join names) text).notices
  have hfiles : drawn.files = w.files := by
    rw [World.noting_files, World.withParser_files]
  have hparts : (destination output names).parts ≠ [] := by
    rw [destination_eq output hsource.ne_nil]
    exact List.append_ne_nil_of_right_ne_nil _ (diagramNames_ne_nil names)
  have hanchor : (destination output names).base w.files.cwd = output.base w.files.cwd := by
    rw [destination_eq output hsource.ne_nil]
    rfl
  have hmem : names ∈ names :: sources := List.mem_cons_self
  obtain ⟨mid, hwrite, hparsers, hbuilds⟩ := writeDiagram_on (w := drawn) (hclear.fits names hmem)
    hparts (by rwa [hfiles, hanchor]) (by rw [hfiles]; exact hclear.no_file names hmem)
    (by rw [hfiles]; exact hclear.no_folder names hmem)
    (by rw [hfiles]; exact hclear.apart names hmem names hmem) s
  rw [hfiles] at hbuilds
  refine ⟨mid, ?_, ?_, hbuilds⟩
  · rw [generateSources_cons_of_diagram hsource.language_join hread hdecode hparser hunit, hdiagram,
      Job.on_bind_ok hwrite]
  · rw [parserFor_congr host hparsers]
    exact parserFor_withParser host hparser

/-- **A run over sources** whose diagrams are in nobody's way. -/
theorem exists_hasRun {sources : List (List String)} {w : World} {parser : Parser}
    (hparser : parserFor host w = .ok parser)
    (hbase : w.files.look (output.base w.files.cwd) = .folder)
    (hstyle : style.IsText)
    (hsources : ∀ names ∈ sources, IsSourceAt w.files input names)
    (hfront : ∀ names ∈ sources,
      ((generateFromFile host (input.join names) style).on w).1 ≠ .error .missingBase)
    (hclear : IsClear w.files output sources) :
    ∃ report next, (generateSources host input output style sources).on w = (.ok report, next) ∧
      HasRun host input output style sources w next report := by
  induction sources generalizing w with
  | nil =>
    refine ⟨{}, w, rfl, rfl, rfl, rfl, nofun, ?_, fun _ _ _ => rfl⟩
    rintro q ⟨names, hmem, -⟩
    cases hmem
  | cons names sources ih =>
    obtain ⟨hhere, hlater⟩ := List.forall_mem_cons.mp hsources
    obtain ⟨hfrontHere, hfrontLater⟩ := List.forall_mem_cons.mp hfront
    obtain ⟨content, hread⟩ := hhere.read
    -- the run goes on from a world in which the other sources can be read as before
    have hgo : ∀ {mid}, SameSources host input w mid sources →
        mid.files.look (output.base mid.files.cwd) = .folder → IsClear mid.files output sources →
        ∃ report next, (generateSources host input output style sources).on mid =
          (.ok report, next) ∧ HasRun host input output style sources mid next report := by
      intro mid hsame hbase hclear
      refine ih (hsame.parser_eq.trans hparser) hbase hsame.isSourceAt ?_ hclear
      intro others hothers
      rw [hsame.diagram_eq style others hothers]
      exact hfrontLater others hothers
    cases hdecode : Text.Utf8.decodeFile content with
    | error fault =>
      have hnot : ¬ w.files.IsReadableAt (input.join names) := by
        simp [Files.isReadableAt_iff hread, hdecode]
      have hsame : SameSources host input w
          (w.noting [.skippedSource (input.join names).toText (.undecodable fault)]) sources :=
        ⟨rfl, rfl, hlater, fun _ _ => rfl⟩
      obtain ⟨report, next, hrun, hhas⟩ := hgo hsame hbase hclear.tail
      refine ⟨report.skip (input.join names) fault, next, ?_,
        hhas.skip hsame rfl hnot (plan_of_undecodable hhere hread hdecode) fault⟩
      rw [generateSources_cons_of_undecodable hhere.language_join hread hdecode, Job.on_map, hrun]
      rfl
    | ok text =>
      have hreadable : w.files.IsReadableAt (input.join names) :=
        (Files.isReadableAt_iff hread).mpr ⟨text, hdecode⟩
      obtain ⟨unit, s, hunit, hs, hdiagram⟩ :=
        exists_diagram hparser hstyle hhere.language_join hread hdecode hfrontHere
      obtain ⟨mid, hmid, hparserMid, hbuilds⟩ := generateSources_cons_of_clear hparser hbase hhere
        hclear hread hdecode hunit hs
      have hsame : SameSources host input w mid sources :=
        ⟨hbuilds.cwd_eq, hparserMid.trans hparser.symm, hlater, fun others hothers =>
          (hlater others hothers).of_builds hbuilds hclear hhere⟩
      have hbaseMid : mid.files.look (output.base mid.files.cwd) = .folder := by
        rw [hbuilds.cwd_eq]
        apply hbuilds.look_folder hbase
        intro x hx
        rw [List.mem_singleton.mp hx]
        exact hclear.no_folder names List.mem_cons_self
      obtain ⟨report, next, hrun, hhas⟩ := hgo hsame hbaseMid (hclear.of_builds hbuilds hsources)
      refine ⟨report.wrote (destination output names), next, ?_,
        hhas.wrote hsame hbuilds hclear hhere hreadable (plan_of_diagram hdiagram)⟩
      rw [hmid, Job.on_map, hrun]
      rfl

end Run

/-! ## A directory -/

/-- The last name of a source is a stem and the extension of sources, and that of its diagram is the
stem and the extension of diagrams. -/
theorem IsSourceAt.destination_eq {fs : Files} {input : Path} {names : List String}
    (h : IsSourceAt fs input names) (output : Path) :
    ∃ dirs stem suffix, names = dirs ++ [String.ofList (stem ++ '.' :: suffix)] ∧
      Text.lower (String.ofList ('.' :: suffix)) = ".cs" ∧
      destination output names = output.join (dirs ++ [String.ofList stem ++ ".puml"]) := by
  obtain ⟨dirs, last, rfl⟩ := (List.eq_nil_or_concat' names).resolve_left h.ne_nil
  obtain ⟨stem, suffix, -, hname, hsplit, hlower⟩ := exists_stem_of_languageOf? h.language
  rw [Path.name, List.getLast?_concat, Option.getD_some] at hname hsplit
  refine ⟨dirs, stem, suffix, by rw [← hname], hlower, ?_⟩
  rw [Command.destination_eq output h.ne_nil, diagramNames, List.dropLast_concat,
    List.getLast?_concat, Option.getD_some, hsplit]

/-- Only sources that are texts have files written for them. -/
theorem isReadableAt_of_plan {host : Host} {input output : Path} {style : Style} {w : World}
    {names : List String} (hsource : IsSourceAt w.files input names) {x : List String × Bytes}
    (h : plan host w input output style names = some x) :
    w.files.IsReadableAt (input.join names) := by
  obtain ⟨content, hread⟩ := hsource.read
  rw [Files.isReadableAt_iff hread]
  cases hdecode : Text.Utf8.decodeFile content with
  | ok text => exact ⟨text, rfl⟩
  | error fault =>
    rw [plan_of_undecodable hsource hread hdecode] at h
    cases h

/-- **A run over a directory does what it reports.** -/
theorem generateDirectory_run (host : Host) (json : Bool) {input output : Path} (style : Style)
    {w : World} {parser : Parser} {sources : List (List String)}
    (hsound : w.files.isSound = true) (hsources : w.files.sourcesBelow input = .ok sources)
    (hparser : parserFor host w = .ok parser) (hstyle : style.IsText)
    (hfront : ∀ names ∈ sources,
      ((generateFromFile host (input.join names) style).on w).1 ≠ .error .missingBase)
    (hclear : IsClear w.files output sources) :
    ∃ report made events,
      (generateSources host input output style sources).on w = (.ok report, made) ∧
      (printReport host json input report).on made = (.ok (), made.telling events) ∧
      (generateDirectory host json input output style).on w =
        (.ok (if ∀ names ∈ sources, w.files.IsReadableAt (input.join names) then 0 else 5),
          made.telling events) ∧
      report.written = (sources.filter fun names => w.files.IsReadableAt (input.join names)).map
        (fun names => (destination output names).toText) ∧
      report.skipped.map (·.path) =
        (sources.filter fun names => ¬ w.files.IsReadableAt (input.join names)).map
          (fun names => (input.join names).toText) ∧
      (∀ names ∈ sources,
        (∃ dirs stem suffix, names = dirs ++ [String.ofList (stem ++ '.' :: suffix)] ∧
          Text.lower (String.ofList ('.' :: suffix)) = ".cs" ∧
          destination output names = output.join (dirs ++ [String.ofList stem ++ ".puml"])) ∧
        (w.files.IsReadableAt (input.join names) → ∃ text : String,
          ((generateFromFile host (input.join names) style).on w).1 = .ok (RawText.ofString text) ∧
          made.files.read (destination output names) = .ok (Text.Utf8.encode text))) ∧
      ∀ q, (∀ names ∈ sources, w.files.IsReadableAt (input.join names) →
          q ≠ (destination output names).resolve w.files.cwd) →
        made.files.look q = w.files.look q ∨
          w.files.look q = .nothing ∧ made.files.look q = .folder ∧
            ∃ names ∈ sources, w.files.IsReadableAt (input.join names) ∧
              q ∈ (destination output names).passed w.files.cwd := by
  have hat : ∀ names ∈ sources, IsSourceAt w.files input names :=
    fun names hmem => isSourceAt_of_mem_sourcesBelow hsound hsources hmem
  obtain ⟨report, made, hrun, hhas⟩ := exists_hasRun hparser
    (Files.look_base_of_isSound hsound output) hstyle hat hfront hclear
  obtain ⟨events, hevents⟩ := speaks_printReport host json input report made
  refine ⟨report, made, events, hrun, hevents, ?_, hhas.written, hhas.skipped, ?_, ?_⟩
  · -- the exit code: no source is skipped exactly if all are texts
    have hcode : report.skipped.isEmpty = true ↔
        ∀ names ∈ sources, w.files.IsReadableAt (input.join names) := by
      rw [List.isEmpty_iff, ← List.map_eq_nil_iff (f := (·.path)), hhas.skipped,
        List.map_eq_nil_iff, List.filter_eq_nil_iff]
      simp only [decide_eq_true_eq, not_not]
    rw [generateDirectory_of_sources hsources, Job.on_bind_ok hrun, Job.on_bind_ok hevents,
      Job.on_pure, if_congr hcode rfl rfl]
    rfl
  · intro names hmem
    refine ⟨(hat names hmem).destination_eq output, fun hreadable => ?_⟩
    obtain ⟨content, hread⟩ := (hat names hmem).read
    obtain ⟨text, hdecode⟩ := (Files.isReadableAt_iff hread).mp hreadable
    obtain ⟨unit, s, -, -, hdiagram⟩ := exists_diagram hparser hstyle
      (hat names hmem).language_join hread hdecode (hfront names hmem)
    refine ⟨s, hdiagram, Files.read_eq_ok_iff.mpr ⟨hclear.fits names hmem, ?_, ?_⟩⟩
    · rw [hhas.builds.cwd_eq]
      exact fun q hq => hhas.builds.folder q ⟨names, hmem, hreadable, hq⟩
    · rw [hhas.builds.cwd_eq]
      exact hhas.builds.file _ (List.mem_filterMap.mpr ⟨names, hmem, plan_of_diagram hdiagram⟩)
  · intro q hq
    by_cases hmade : IsMade w.files input output sources q
    · obtain ⟨names, hmem, hreadable, hpassed⟩ := hmade
      have hfolder := hhas.builds.folder q ⟨names, hmem, hreadable, hpassed⟩
      cases hlook : w.files.look q with
      | nothing => exact .inr ⟨rfl, hfolder, names, hmem, hreadable, hpassed⟩
      | folder => exact .inl hfolder
      | file content => exact absurd hlook (hclear.no_file names hmem q hpassed content)
    · refine .inl (hhas.builds.other q ?_ hmade)
      intro x hx
      obtain ⟨names, hmem, hplan⟩ := List.mem_filterMap.mp hx
      rw [place_of_plan hplan]
      exact (hq names hmem (isReadableAt_of_plan (hat names hmem) hplan)).symm

/-- Surroundings in which every source is read as a file without declarations. -/
def plainHost : Host where
  pack := .installed fun _ => .ok fun _ => ⟨.mk ⟨"compilation_unit", true, none, 0, 0, 0⟩ [], false⟩
  indentVariable := none
  now := ⟨2026, 1, 1, 0, 0, 0⟩

/-- A directory with a source below a folder, and with one that is no text. -/
def mixedSources : Files :=
  ⟨.folder "src" (.folder "a" (.file "x.cs" [] .empty) (.file "y.cs" [0xFF] .empty)) .empty, []⟩

theorem generateDirectory_run_mixedSources :
    ∃ made, (generateDirectory plainHost false ⟨.here, ["src"]⟩ ⟨.here, ["out"]⟩ {}).on
        { files := mixedSources } = (.ok 5, made) ∧
      made.files.read ⟨.here, ["out", "a", "x.puml"]⟩ =
        .ok (Text.Utf8.encode "@startuml\n@enduml\n") := by
  have hsources : mixedSources.sourcesBelow ⟨.here, ["src"]⟩ = .ok [["a", "x.cs"], ["y.cs"]] := by
    let d : Dir := .folder "a" (.file "x.cs" [] .empty) (.file "y.cs" [0xFF] .empty)
    have hfound : d.files.filter isSource = [["a", "x.cs"], ["y.cs"]] := by decide +kernel
    rw [← hfound]
    exact Files.sourcesBelow_of_sorted rfl rfl (by decide +kernel) (by decide +kernel)
  have hclear : IsClear mixedSources ⟨.here, ["out"]⟩ [["a", "x.cs"], ["y.cs"]] := by
    decide +kernel
  have hdiagram : ((generateFromFile plainHost ⟨.here, ["src", "a", "x.cs"]⟩ {}).on
      { files := mixedSources }).1 = .ok (RawText.ofString "@startuml\n@enduml\n") := by
    decide +kernel
  obtain ⟨report, made, events, -, -, hrun, -, -, hnames, -⟩ := generateDirectory_run plainHost false
    {} (w := { files := mixedSources }) (by decide +kernel) hsources rfl
    Style.isText_default (by decide +kernel) hclear
  obtain ⟨text, htext, hread⟩ := (hnames ["a", "x.cs"] List.mem_cons_self).2 (by decide +kernel)
  have hsame : text = "@startuml\n@enduml\n" := by
    have hraw := congrArg (Option.map RawText.toString? ∘ Except.toOption)
      (htext.symm.trans hdiagram)
    simpa [Except.toOption] using hraw
  rw [if_neg (by decide +kernel)] at hrun
  rw [hsame] at hread
  exact ⟨_, hrun, hread⟩

/-- A directory with one source. -/
def singleSource (content : Bytes) : Files :=
  ⟨.file "x.cs" content .empty, []⟩

/-- Surroundings in which every source is read as a class within a class. -/
def nestedHost : Host where
  pack := .installed fun _ => .ok fun _ =>
    let name : Node := .mk ⟨"identifier", true, some "name", 0, 0, 0⟩ []
    ⟨.mk ⟨"compilation_unit", true, none, 0, 0, 0⟩ [.mk ⟨"class_declaration", true, none, 0, 0, 0⟩
      [name, .mk ⟨"declaration_list", true, some "body", 0, 0, 0⟩
        [.mk ⟨"class_declaration", true, none, 0, 0, 0⟩ [name]]]], false⟩
  indentVariable := none
  now := ⟨2026, 1, 1, 0, 0, 0⟩

/-- A source that is no text may be written all the same. And where the sources are texts and there
is no other file at all, a run still fails if the unit of indentation is no text, or if a diagram is
on the way to itself. -/
theorem generateSources_singleSource :
    (¬ Text.Utf8.IsValid [0xEF] ∧
      ((generateSources plainHost here here {} [["x.cs"]]).on { files := singleSource [0xEF] }).1 =
        .ok ⟨["x.puml"], []⟩) ∧
    ((generateSources nestedHost here here { indent := [.half 0] } [["x.cs"]]).on
      { files := singleSource [] }).1 = .error .unencodable ∧
    ((generateSources plainHost here ⟨.here, ["x.puml", ".."]⟩ {} [["x.cs"]]).on
      { files := singleSource [] }).1 = .error (.access (.file .isDirectory)) :=
  ⟨⟨Text.Utf8.not_isValid_of_cutMark (.inl rfl), by decide +kernel⟩, by decide +kernel,
    by decide +kernel⟩

end ClassChart.Command
