import ClassChart.Proofs.OutputChannels
import ClassChart.Proofs.RepeatedRun
import Mathlib.Data.Finset.Card

/-!
# Sources that share a diagram

The extension of a source may be written in small letters and capitals, and its diagram has the name
of the source without it. So the diagrams of two sources go to one place if their names differ in
the case of the extension, and of these the one that is written last is left. No other two sources
share a place, and a source that shares it with no other has its diagram there after the run. The
number of files that a run reports is the number of diagrams it has written, not of the files that
are left.

## Main definitions

* `Text.extensionSpellings`: the ways to write the extension of sources
* `Command.DifferInCase`: two names of sources that differ in the case of the extension
* `Command.drawnSources`: the sources of which diagrams are made
* `Command.HasDiagram`: the diagram of a source is in its place after a run
* `Command.Leaves`: what a run over sources reports and leaves
* `Command.reportLine`: what a run tells in JSON

## Main results

* `Text.mem_extensionSpellings`: there are no other ways to write the extension
* `Files.nodup_sourcesBelow`: no source is found twice
* `Command.diagramNames_eq_iff`: sources whose diagrams have the same names differ in case
* `Command.leaves_of_run`: what a run over sources leaves
* `Command.generateDirectory_sharing`: which diagrams a run over a directory writes over, and how
  many files it reports
-/

namespace ClassChart

/-! ## The extension of sources -/

namespace Text

/-- The ways to write the extension of sources. -/
def extensionSpellings : List String :=
  [".cs", ".cS", ".Cs", ".CS"]

/-- Only capitals are lowered to the letters of the extension of sources. -/
theorem offset_of_lowerRun : ∀ r ∈ lowerRuns, ∀ n ∈ ['c', 's'].map Char.toNat,
    (r.first : Int) + r.offset ≤ n → (n : Int) ≤ r.last + r.offset → r.offset = 32 := by
  decide +kernel

/-- A letter of the extension of sources is the lower case of itself and of its capital only. -/
theorem eq_or_toUpper_of_lowerChar {c x : Char} (hx : x ∈ ['c', 's']) (h : lowerChar c = x) :
    c = x ∨ c = x.toUpper := by
  obtain ⟨hpos, hupper⟩ : 0 < x.toNat ∧ x.toUpper.toNat + 32 = x.toNat := by
    simp only [List.mem_cons, List.not_mem_nil, or_false] at hx
    rcases hx with rfl | rfl <;> decide
  unfold lowerChar at h
  split at h
  case h_2 => exact .inl h
  case h_1 r hr =>
    right
    have hcovers := List.find?_some hr
    simp only [LowerRun.covers, Bool.and_eq_true, decide_eq_true_eq] at hcovers
    have hcode : (c.toNat + r.offset).toNat = x.toNat := by
      by_cases hvalid : (c.toNat + r.offset).toNat.isValidChar
      · rw [← h]
        exact (Utf8.val_ofNat hvalid).symm
      · -- what is no character is replaced by the null character
        rw [Char.ofNat, dif_neg hvalid] at h
        rw [← h] at hpos
        exact absurd hpos (by decide)
    have hoffset := offset_of_lowerRun r (List.mem_of_find?_eq_some hr) x.toNat
      (List.mem_map_of_mem hx) (by omega) (by omega)
    apply Char.toNat_inj.mp
    omega

/-- A text whose lower case starts with such a letter starts with the letter or its capital. -/
theorem exists_of_lowerAfter_eq_cons {before cs ds : List Char} {x : Char} (hx : x ∈ ['c', 's'])
    (h : lowerAfter before cs = x :: ds) :
    ∃ c rest, cs = c :: rest ∧ (c = x ∨ c = x.toUpper) ∧ lowerAfter (c :: before) rest = ds := by
  have hletters : 'ς' ∉ ['c', 's'] ∧ 'σ' ∉ ['c', 's'] ∧ 'i' ∉ ['c', 's'] := by decide
  cases cs with
  | nil => cases h
  | cons c rest =>
    rw [lowerAfter] at h
    split at h
    · -- a capital sigma
      obtain ⟨rfl, -⟩ := List.cons.inj h
      split at hx
      · exact absurd hx hletters.1
      · exact absurd hx hletters.2.1
    · split at h
      · obtain ⟨rfl, -⟩ := List.cons.inj h
        exact absurd hx hletters.2.2
      · obtain ⟨hhead, htail⟩ := List.cons.inj h
        exact ⟨c, rest, rfl, eq_or_toUpper_of_lowerChar hx hhead, htail⟩

theorem lowerAfter_eq_nil {before cs : List Char} (h : lowerAfter before cs = []) : cs = [] := by
  cases cs with
  | nil => rfl
  | cons c rest =>
    rw [lowerAfter] at h
    split at h
    · cases h
    · split at h <;> cases h

/-- **There is no other way to write the extension**, in whatever alphabet. -/
theorem mem_extensionSpellings {suffix : List Char}
    (h : lower (String.ofList ('.' :: suffix)) = ".cs") :
    String.ofList ('.' :: suffix) ∈ extensionSpellings := by
  have hdot : lowerAfter [] ('.' :: suffix) = '.' :: lowerAfter ['.'] suffix := by
    have hchar : lowerChar '.' = '.' := by decide +kernel
    rw [lowerAfter, if_neg (by decide), if_neg (by decide), hchar]
    rfl
  rw [lower, String.toList_ofList, hdot] at h
  have hletters : lowerAfter ['.'] suffix = ['c', 's'] := by
    have hlist := congrArg String.toList h
    rw [String.toList_ofList] at hlist
    exact (List.cons.inj hlist).2
  -- the letters are taken off one by one, and each has two forms only
  obtain ⟨c, _, rfl, hc, hrest⟩ := exists_of_lowerAfter_eq_cons (by decide) hletters
  obtain ⟨s, _, rfl, hs, hrest⟩ := exists_of_lowerAfter_eq_cons (by decide) hrest
  obtain rfl := lowerAfter_eq_nil hrest
  rcases hc with rfl | rfl
  · rcases hs with rfl | rfl <;> decide +kernel
  · rcases hs with rfl | rfl <;> decide +kernel

end Text

/-! ## Sources are found once -/

namespace Dir

/-- Under a name that a sound directory does not have, no file is listed. -/
theorem notMem_files_of_find?_eq_none {d : Dir} (hsound : d.isSound = true) {n : String}
    (h : d.find? n = none) (names : List String) : n :: names ∉ d.files := by
  intro hmem
  obtain ⟨⟨content, hcontent⟩, -⟩ := exists_look_of_mem_files hsound hmem
  rw [look_cons, h] at hcontent
  cases hcontent

theorem nodup_files {d : Dir} (hsound : d.isSound = true) : d.files.Nodup := by
  induction d with
  | empty => exact List.nodup_nil
  | file n content rest ih =>
    simp only [isSound, Bool.and_eq_true, Option.isNone_iff_eq_none] at hsound
    obtain ⟨⟨-, hnone⟩, hrest⟩ := hsound
    exact List.nodup_cons.mpr ⟨notMem_files_of_find?_eq_none hrest hnone [], ih hrest⟩
  | folder n inner rest ihInner ihRest =>
    simp only [isSound, Bool.and_eq_true, Option.isNone_iff_eq_none] at hsound
    obtain ⟨⟨⟨-, hnone⟩, hinner⟩, hrest⟩ := hsound
    have hbelow := (ihInner hinner).map (List.cons_injective (a := n))
    refine List.nodup_append.mpr ⟨hbelow, ihRest hrest, ?_⟩
    rintro _ hnames _ hothers rfl
    obtain ⟨tail, -, rfl⟩ := List.mem_map.mp hnames
    exact notMem_files_of_find?_eq_none hrest hnone tail hothers

end Dir

/-- **No source is found twice.** -/
theorem Files.nodup_sourcesBelow {fs : Files} (hsound : fs.isSound = true) {input : Path}
    {sources : List (List String)} (h : fs.sourcesBelow input = .ok sources) : sources.Nodup := by
  cases sources with
  | nil => exact List.nodup_nil
  | cons names rest =>
    obtain ⟨d, hlocate, hd, hlistable, -⟩ := mem_sourcesBelow h List.mem_cons_self
    rw [sourcesBelow_of_folder hlocate hd, if_pos hlistable] at h
    rw [isSound, Bool.and_eq_true] at hsound
    rw [← Except.ok.inj h]
    apply (List.mergeSort_perm _ _).nodup_iff.mpr
    exact (Dir.nodup_files (Dir.isSound_of_folder hsound.1 hd)).filter _

/-! ## Where diagrams meet -/

namespace Command

/-- Two names of sources that differ in the case of their extension and in nothing else. -/
def DifferInCase (names others : List String) : Prop :=
  ∃ dirs stem extension extension', names = dirs ++ [stem ++ extension] ∧
    others = dirs ++ [stem ++ extension'] ∧ extension ∈ Text.extensionSpellings ∧
    extension' ∈ Text.extensionSpellings ∧ extension ≠ extension'

/-- The place that the diagram of a source goes to. -/
def diagramPlace (fs : Files) (output : Path) (names : List String) : List String :=
  (destination output names).resolve fs.cwd

theorem append_extension_inj {stem stem' extension extension' : String}
    (hextension : extension ∈ Text.extensionSpellings)
    (hextension' : extension' ∈ Text.extensionSpellings)
    (h : stem ++ extension = stem' ++ extension') : stem = stem' ∧ extension = extension' := by
  have hlength : ∀ e ∈ Text.extensionSpellings, e.toList.length = 3 := by decide +kernel
  have hlist := congrArg String.toList h
  rw [String.toList_append, String.toList_append] at hlist
  obtain ⟨hstem, hrest⟩ := List.append_inj' hlist
    ((hlength extension hextension).trans (hlength extension' hextension').symm)
  exact ⟨String.toList_inj.mp hstem, String.toList_inj.mp hrest⟩

section Sources

variable {fs : Files} {input : Path} {names others : List String}

/-- The last name of a source is a stem and a spelling of the extension, that of its diagram has the
stem. -/
theorem IsSourceAt.exists_spelling (h : IsSourceAt fs input names) :
    ∃ dirs stem extension, extension ∈ Text.extensionSpellings ∧
      names = dirs ++ [stem ++ extension] ∧ diagramNames names = dirs ++ [stem ++ ".puml"] := by
  obtain ⟨dirs, last, rfl⟩ := (List.eq_nil_or_concat' names).resolve_left h.ne_nil
  obtain ⟨stem, suffix, -, hname, hsplit, hlower⟩ := exists_stem_of_languageOf? h.language
  rw [Path.name, List.getLast?_concat, Option.getD_some] at hname hsplit
  refine ⟨dirs, String.ofList stem, String.ofList ('.' :: suffix),
    Text.mem_extensionSpellings hlower, ?_, ?_⟩
  · rw [hname, String.ofList_append]
  · rw [diagramNames, List.dropLast_concat, List.getLast?_concat, Option.getD_some, hsplit]

/-- **Sources whose diagrams have the same names** differ in the case of the extension. -/
theorem diagramNames_eq_iff (hnames : IsSourceAt fs input names)
    (hothers : IsSourceAt fs input others) (hne : names ≠ others) :
    diagramNames names = diagramNames others ↔ DifferInCase names others := by
  obtain ⟨dirs, stem, extension, hextension, rfl, hdiagram⟩ := hnames.exists_spelling
  obtain ⟨dirs', stem', extension', hextension', rfl, hdiagram'⟩ := hothers.exists_spelling
  rw [hdiagram, hdiagram']
  constructor
  · intro h
    obtain ⟨rfl, hlast⟩ := List.append_inj' h rfl
    obtain rfl := (String.append_left_inj _).mp (List.singleton_inj.mp hlast)
    refine ⟨dirs, stem, extension, extension', rfl, rfl, hextension, hextension', ?_⟩
    rintro rfl
    exact hne rfl
  · -- a source has only one stem, whatever its extension
    rintro ⟨d, s, e, e', hhere, hthere, he, he', -⟩
    obtain ⟨rfl, hlast⟩ := List.append_inj' hhere rfl
    obtain ⟨rfl, hlast'⟩ := List.append_inj' hthere rfl
    obtain ⟨rfl, -⟩ := append_extension_inj hextension he (List.singleton_inj.mp hlast)
    obtain ⟨rfl, -⟩ := append_extension_inj hextension' he' (List.singleton_inj.mp hlast')
    rfl

theorem destination_eq_iff (hnames : IsSourceAt fs input names)
    (hothers : IsSourceAt fs input others) (hne : names ≠ others) (output : Path) :
    destination output names = destination output others ↔ DifferInCase names others := by
  rw [← diagramNames_eq_iff hnames hothers hne, destination_eq output hnames.ne_nil,
    destination_eq output hothers.ne_nil]
  constructor
  · intro h
    exact List.append_cancel_left (congrArg Path.parts h)
  · intro h
    rw [h]

theorem diagramPlace_eq_iff (hnames : IsSourceAt fs input names)
    (hothers : IsSourceAt fs input others) (hne : names ≠ others) (output : Path) :
    diagramPlace fs output names = diagramPlace fs output others ↔ DifferInCase names others := by
  rw [← diagramNames_eq_iff hnames hothers hne, diagramPlace, diagramPlace,
    resolve_destination fs.cwd output hnames.ne_nil hnames.isName,
    resolve_destination fs.cwd output hothers.ne_nil hothers.isName, List.append_cancel_left_eq]

theorem DifferInCase.ne (h : DifferInCase names others) : names ≠ others := by
  obtain ⟨dirs, stem, extension, extension', rfl, rfl, hextension, hextension', hne⟩ := h
  intro hsame
  have hlast := List.singleton_inj.mp (List.append_cancel_left hsame)
  exact hne (append_extension_inj hextension hextension' hlast).2

/-- **The diagrams of sources have places of their own** if no two differ in case. -/
theorem length_eq_card_iff {drawn : List (List String)} (hnodup : drawn.Nodup)
    (hdrawn : ∀ names ∈ drawn, IsSourceAt fs input names) (output : Path) :
    drawn.length = (drawn.map (diagramPlace fs output)).toFinset.card ↔
      ∀ names ∈ drawn, ∀ others ∈ drawn, ¬ DifferInCase names others := by
  -- as many places as sources means that the places are distinct
  have hcard : drawn.length = (drawn.map (diagramPlace fs output)).toFinset.card ↔
      (drawn.map (diagramPlace fs output)).Nodup := by
    rw [← List.length_map (diagramPlace fs output), eq_comm]
    exact Multiset.toFinset_card_eq_card_iff_nodup
  rw [hcard, List.nodup_map_iff_inj_on hnodup]
  constructor
  · intro hinj names hmem others hothers hdiffer
    have hplace := (diagramPlace_eq_iff (hdrawn names hmem) (hdrawn others hothers) hdiffer.ne
      output).mpr hdiffer
    exact hdiffer.ne (hinj names hmem others hothers hplace)
  · intro hnone names hmem others hothers hplace
    by_contra hne
    exact hnone names hmem others hothers
      ((diagramPlace_eq_iff (hdrawn names hmem) (hdrawn others hothers) hne output).mp hplace)

end Sources

/-! ## What a run leaves -/

/-- The sources that are texts, of which diagrams are made. -/
def drawnSources (fs : Files) (input : Path) (sources : List (List String)) : List (List String) :=
  sources.filter fun names => fs.IsReadableAt (input.join names)

/-- The diagram of a source, as it was before a run, is in its place after it. -/
def HasDiagram (host : Host) (input output : Path) (style : Style) (w next : World)
    (names : List String) : Prop :=
  ∃ text : String,
    ((generateFromFile host (input.join names) style).on w).1 = .ok (RawText.ofString text) ∧
    next.files.read (destination output names) = .ok (Text.Utf8.encode text)

/-- What a run over sources reports and leaves, as seen from a world `w` before it: it has written
the diagrams of the sources that are texts, and of those in one place the last one is there. The
files were `fs` when the run began. -/
structure Leaves (host : Host) (input output : Path) (style : Style) (sources : List (List String))
    (w : World) (fs : Files) (next : World) (report : DirectoryReport) : Prop where
  written : report.written =
    (drawnSources w.files input sources).map fun names => (destination output names).toText
  edits : Files.Edits (fun q => ∃ names ∈ drawnSources w.files input sources,
    q = diagramPlace w.files output names) fs next.files
  last : ∀ before names after, drawnSources w.files input sources = before ++ names :: after →
    (∀ others ∈ after, diagramPlace w.files output names ≠ diagramPlace w.files output others) →
    HasDiagram host input output style w next names

section Run

variable {host : Host} {input output : Path} {style : Style} {names : List String}
  {sources : List (List String)} {w mid next : World} {report : DirectoryReport}
  {extend : DirectoryReport → DirectoryReport}

/-- A step leaves the other sources as they are. -/
theorem SourceStep.sameSources
    (hbase : w.files.look ((destination output names).base w.files.cwd) = .folder)
    (hsource : IsSourceAt w.files input names)
    (hothers : ∀ others ∈ sources, IsSourceAt w.files input others)
    (hstep : SourceStep host input output style names w mid extend) :
    SameSources host input w mid sources := by
  obtain ⟨P, hP, hedits⟩ := hstep.edits hbase hsource
  refine ⟨hedits.grows.cwd_eq, ?_, hothers, fun others hmem => ?_⟩
  · cases hstep with
    | skip => rfl
    | write _ _ hparser =>
      rw [hparser, ← parserFor_withParser host hparser]
      rfl
  · obtain ⟨content, hread⟩ := (hothers others hmem).read
    rw [hread]
    exact read_of_edits hP hedits .refl (hothers others hmem) hread

/-- The diagram of a source that a step has written. -/
theorem diagram_of_write {content : Text.Bytes} {text drawn : String} {parser : Parser}
    {unit : Declaration} (hsource : IsSourceAt w.files input names)
    (hread : w.files.read (input.join names) = .ok content)
    (hdecode : Text.Utf8.decodeFile content = .ok text) (hparser : parserFor host w = .ok parser)
    (hunit : (fileOutline parser (input.join names) text).outcome = .ok unit)
    (hdrawn : diagram style unit = RawText.ofString drawn) :
    ((generateFromFile host (input.join names) style).on w).1 = .ok (RawText.ofString drawn) := by
  have hrun := generateFromFile_on host hsource.language_join style w
  simp only [hread, hdecode, hparser, hunit] at hrun
  rw [hrun, hdrawn]

/-- A run leaves the same as seen from a world with the same sources. -/
theorem Leaves.of_sameSources {fs : Files}
    (h : Leaves host input output style sources mid fs next report)
    (hsame : SameSources host input w mid sources) :
    Leaves host input output style sources w fs next report := by
  have hlist : drawnSources mid.files input sources = drawnSources w.files input sources :=
    hsame.filter_eq
  have hplace : diagramPlace mid.files output = diagramPlace w.files output := by
    funext names
    rw [diagramPlace, diagramPlace, hsame.cwd_eq]
  obtain ⟨hwritten, hedits, hlast⟩ := h
  rw [hlist] at hwritten hedits hlast
  rw [hplace] at hedits hlast
  refine ⟨hwritten, hedits, fun before names after hsplit hafter => ?_⟩
  have hmem : names ∈ drawnSources w.files input sources := by
    rw [hsplit]
    exact List.mem_append_right before List.mem_cons_self
  rw [HasDiagram, ← hsame.diagram_eq style names (List.mem_filter.mp hmem).1]
  exact hlast before names after hsplit hafter

/-- **One step more.** A source that is no text leaves nothing. The diagram of one that is a text
stays where it was written, if no later one goes there. -/
theorem Leaves.cons (hbase : w.files.look ((destination output names).base w.files.cwd) = .folder)
    (hsource : IsSourceAt w.files input names)
    (hstep : SourceStep host input output style names w mid extend)
    (hrest : Leaves host input output style sources w mid.files next report) :
    Leaves host input output style (names :: sources) w w.files next (extend report) := by
  obtain ⟨hwritten, hedits, hlast⟩ := hrest
  cases hstep with
  | skip hread hdecode =>
    have hnot : ¬ w.files.IsReadableAt (input.join names) := by
      simp [Files.isReadableAt_iff hread, hdecode]
    have hlist : drawnSources w.files input (names :: sources) =
        drawnSources w.files input sources :=
      List.filter_cons_of_neg (by simpa using hnot)
    rw [← hlist] at hwritten hedits hlast
    exact ⟨hwritten, hedits, hlast⟩
  | @write _ text drawn _ _ _ after hread hdecode hparser hunit hdrawn hmade hafter =>
    have hreadable : w.files.IsReadableAt (input.join names) :=
      (Files.isReadableAt_iff hread).mpr ⟨text, hdecode⟩
    have hlist : drawnSources w.files input (names :: sources) =
        names :: drawnSources w.files input sources :=
      List.filter_cons_of_pos (by simpa using hreadable)
    refine ⟨?_, ?_, ?_⟩
    · rw [hlist, List.map_cons, ← hwritten]
      rfl
    · rw [hlist]
      refine (Files.edits_of_write hbase hmade hafter hedits).mono ?_
      rintro q (rfl | ⟨others, hmem, rfl⟩)
      · exact ⟨names, List.mem_cons_self, rfl⟩
      · exact ⟨others, List.mem_cons_of_mem names hmem, rfl⟩
    · rw [hlist]
      intro before others rest hsplit hapart
      cases before with
      | cons _ before => exact hlast before others rest (List.cons.inj hsplit).2 hapart
      | nil =>
        obtain ⟨rfl, rfl⟩ := List.cons.inj hsplit
        have hthere := Files.read_of_makeDirs_write hbase hmade hafter
        have hcwd : after.cwd = w.files.cwd :=
          (Files.edits_of_write (S := fun _ => False) hbase hmade hafter .refl).grows.cwd_eq
        refine ⟨drawn, diagram_of_write hsource hread hdecode hparser hunit hdrawn, ?_⟩
        -- what is written later is written elsewhere
        refine (hedits.grows.read_of_read hthere).2 ?_
        rintro ⟨more, hmem, hmeet⟩
        refine hapart more hmem ?_
        rw [← hmeet, diagramPlace]
        exact congrArg (destination output names).resolve hcwd.symm

/-- **What a run over sources leaves.** -/
theorem leaves_of_run (hbase : w.files.look (output.base w.files.cwd) = .folder)
    (hsources : ∀ names ∈ sources, IsSourceAt w.files input names)
    (h : (generateSources host input output style sources).on w = (.ok report, next)) :
    Leaves host input output style sources w w.files next report := by
  induction sources generalizing w report with
  | nil =>
    cases h
    refine ⟨rfl, .refl, fun before names after hsplit => ?_⟩
    exact absurd hsplit.symm (by simp [drawnSources])
  | cons names sources ih =>
    obtain ⟨hsource, hothers⟩ := List.forall_mem_cons.mp hsources
    have hstart : w.files.look ((destination output names).base w.files.cwd) = .folder := hbase
    obtain ⟨mid, extend, rest, hstep, hrest, rfl⟩ := exists_sourceStep hsource h
    -- the step keeps the other sources, so that their diagrams are those of the beginning
    have hsame := hstep.sameSources hstart hsource hothers
    have hbaseMid : mid.files.look (output.base mid.files.cwd) = .folder := by
      obtain ⟨P, -, hedits⟩ := hstep.edits hstart hsource
      exact hedits.grows.look_base hbase
    have hleaves := (ih hbaseMid hsame.isSourceAt hrest).of_sameSources hsame
    exact hleaves.cons hstart hsource hstep

end Run

/-! ## A run over a directory -/

/-- The line in which a run tells in JSON how many files it has written, and which. -/
def reportLine (host : Host) (verdict : String) (files skipped : Nat) (written : List String)
    (faults : Json) : String :=
  Json.canonical (.obj (envelope host.now "generate" (.obj (runSummary verdict files skipped))
    [("written", .arr (written.map Json.ofString)), ("skipped", faults)])) ++ "\n"

theorem exists_printReport_json (host : Host) (input : Path) (report : DirectoryReport)
    (w : World) :
    ∃ verdict faults, (printReport host true input report).on w =
      (.ok (), w.telling [.output (reportLine host verdict report.written.length
        report.skipped.length report.written faults)]) := by
  rw [printReport, if_pos rfl, printEnvelope,
    Job.printLine_of_arePlain (Json.arePlain_canonical _)]
  exact ⟨_, _, rfl⟩

/-- **Which diagrams a run over a directory writes over.** No source is found twice, and the
diagrams of two sources go to one place if and only if their names differ in the case of the
extension. After a run that comes to its end, a source that is a text has its diagram in its place
unless it differs so from a later one. The number of files in the report is the number of these
sources, and it is the number of the places if and only if no two of them differ so. -/
theorem generateDirectory_sharing {w : World} (hsound : w.files.isSound = true) {input : Path}
    {sources : List (List String)} (hsources : w.files.sourcesBelow input = .ok sources)
    (output : Path) :
    let drawn := drawnSources w.files input sources
    sources.Nodup ∧
    (∀ names ∈ sources, ∀ others ∈ sources, names ≠ others →
      (destination output names = destination output others ↔ DifferInCase names others) ∧
      (diagramPlace w.files output names = diagramPlace w.files output others ↔
        DifferInCase names others)) ∧
    ∀ (host : Host) (json : Bool) (style : Style) (code : Int) (next : World),
      (generateDirectory host json input output style).on w = (.ok code, next) →
      (∀ before names after, drawn = before ++ names :: after →
        (∀ others ∈ after, ¬ DifferInCase names others) →
        HasDiagram host input output style w next names) ∧
      (json = true → ∃ verdict skipped faults, next.events.getLast? =
        some (.output (reportLine host verdict drawn.length skipped
          (drawn.map fun names => (destination output names).toText) faults))) ∧
      (drawn.length = (drawn.map (diagramPlace w.files output)).toFinset.card ↔
        ∀ names ∈ drawn, ∀ others ∈ drawn, ¬ DifferInCase names others) := by
  intro drawn
  have hat : ∀ names ∈ sources, IsSourceAt w.files input names :=
    fun names hmem => isSourceAt_of_mem_sourcesBelow hsound hsources hmem
  have hnodup := Files.nodup_sourcesBelow hsound hsources
  have hdrawn : ∀ names ∈ drawn, IsSourceAt w.files input names :=
    fun names hmem => hat names (List.mem_filter.mp hmem).1
  refine ⟨hnodup, ?_, ?_⟩
  · intro names hmem others hothers hne
    exact ⟨destination_eq_iff (hat names hmem) (hat others hothers) hne output,
      diagramPlace_eq_iff (hat names hmem) (hat others hothers) hne output⟩
  · intro host json style code next h
    rw [generateDirectory_of_sources hsources] at h
    obtain ⟨report, mid, hrun, htells⟩ := Job.on_bind_eq_ok h
    obtain ⟨_, last, hprints, hlast⟩ := Job.on_bind_eq_ok htells
    obtain rfl : last = next := (Prod.mk.inj hlast).2
    have hleaves := leaves_of_run (Files.look_base_of_isSound hsound output) hat hrun
    have hnodupDrawn : drawn.Nodup := hnodup.filter _
    refine ⟨?_, ?_, length_eq_card_iff hnodupDrawn hdrawn output⟩
    · intro before names after hsplit hafter
      obtain ⟨events, hevents⟩ := speaks_printReport host json input report mid
      obtain rfl : mid.telling events = last := (Prod.mk.inj (hevents.symm.trans hprints)).2
      refine hleaves.last before names after hsplit fun others hothers hplace => ?_
      rw [hsplit] at hnodupDrawn hdrawn
      have hne : names ≠ others := by
        rintro rfl
        exact (List.nodup_cons.mp (List.nodup_append.mp hnodupDrawn).2.1).1 hothers
      have hmem : names ∈ before ++ names :: after := List.mem_append_right _ List.mem_cons_self
      have hmemOthers : others ∈ before ++ names :: after :=
        List.mem_append_right _ (List.mem_cons_of_mem _ hothers)
      exact hafter others hothers
        ((diagramPlace_eq_iff (hdrawn names hmem) (hdrawn others hmemOthers) hne output).mp hplace)
    · rintro rfl
      obtain ⟨verdict, faults, htold⟩ := exists_printReport_json host input report mid
      obtain rfl : mid.telling _ = last := (Prod.mk.inj (htold.symm.trans hprints)).2
      refine ⟨verdict, report.skipped.length, faults, ?_⟩
      rw [World.telling, List.getLast?_concat, hleaves.written, List.length_map]

theorem sourcesBelow_collidingFiles : (collidingFiles .empty).sourcesBelow ⟨.here, []⟩ =
    .ok [["d.cs", "y.cs"], ["x.CS"], ["x.cs"]] := by
  have hfound : (collidingFiles .empty).root.files.filter isSource =
      [["d.cs", "y.cs"], ["x.CS"], ["x.cs"]] := by decide +kernel
  rw [← hfound]
  exact Files.sourcesBelow_of_sorted rfl rfl (by decide +kernel) (by decide +kernel)

/-- Of two sources one diagram is left, and two files are reported. -/
theorem generateDirectory_sharing_collidingFiles :
    let files := collidingFiles .empty
    let dir : Path := ⟨.here, []⟩
    let drawn := drawnSources files dir [["d.cs", "y.cs"], ["x.CS"], ["x.cs"]]
    ∃ next, (generateDirectory namingHost true dir dir {}).on { files } = (.ok 5, next) ∧
      drawn = [["x.CS"], ["x.cs"]] ∧ destination dir ["x.CS"] = destination dir ["x.cs"] ∧
      HasDiagram namingHost dir dir {} { files } next ["x.cs"] ∧
      ¬ HasDiagram namingHost dir dir {} { files } next ["x.CS"] ∧
      (∃ verdict skipped faults, next.events.getLast? = some (.output (reportLine namingHost verdict
        2 skipped ["x.puml", "x.puml"] faults))) ∧
      (drawn.map (diagramPlace files dir)).toFinset.card ≠ 2 := by
  intro files dir drawn
  have hdrawn : drawn = [["x.CS"], ["x.cs"]] := by decide +kernel
  have hdiffer : DifferInCase ["x.CS"] ["x.cs"] :=
    ⟨[], "x", ".CS", ".cs", rfl, rfl, by decide, by decide, by decide⟩
  have hsources : ((generateSources namingHost dir dir {} [["d.cs", "y.cs"], ["x.CS"], ["x.cs"]]).on
      { files }).1 = .ok ⟨["x.puml", "x.puml"], [⟨"d.cs/y.cs",
        "'utf-8' codec can't decode byte 0xff in position 0: invalid start byte"⟩]⟩ := by
    decide +kernel
  -- the text of the report is left as it is
  obtain ⟨next, hrun⟩ : ∃ next,
      (generateDirectory namingHost true dir dir {}).on { files } = (.ok 5, next) := by
    obtain ⟨_, _, htold⟩ := exists_printReport_json namingHost dir _ _
    exact ⟨_, (generateDirectory_of_sources sourcesBelow_collidingFiles).trans
      ((Job.on_bind_ok (Job.on_eq_of_fst hsources)).trans (Job.on_bind_ok htold))⟩
  obtain ⟨-, hplaces, hruns⟩ := generateDirectory_sharing (w := { files }) (by decide +kernel)
    sourcesBelow_collidingFiles dir
  obtain ⟨hlast, hreport, hcount⟩ := hruns namingHost true {} 5 next hrun
  change drawn.length = _ ↔ _ at hcount
  rw [hdrawn] at hcount
  have hsame : destination dir ["x.CS"] = destination dir ["x.cs"] :=
    (hplaces ["x.CS"] (by decide) ["x.cs"] (by decide) (by decide)).1.mpr hdiffer
  have hleft := hlast [["x.CS"]] ["x.cs"] [] hdrawn nofun
  refine ⟨next, hrun, hdrawn, hsame, hleft, ?_, ?_, ?_⟩
  · rintro ⟨lost, hlost, hthere⟩
    obtain ⟨text, htext, hread⟩ := hleft
    rw [hsame, hread] at hthere
    have hdecoded := congrArg Text.Utf8.decodeLossy (Except.ok.inj hthere)
    rw [Text.Utf8.decodeLossy_encode, Text.Utf8.decodeLossy_encode] at hdecoded
    have hne : ((generateFromFile namingHost (dir.join ["x.CS"]) {}).on { files }).1 ≠
        ((generateFromFile namingHost (dir.join ["x.cs"]) {}).on { files }).1 := by decide +kernel
    exact hne (by rw [hlost, htext, hdecoded])
  · have htold : ∃ verdict skipped faults, next.events.getLast? =
        some (.output (reportLine namingHost verdict drawn.length skipped
          (drawn.map fun names => (destination dir names).toText) faults)) := hreport rfl
    have hwritten : (drawn.map fun names => (destination dir names).toText) =
        ["x.puml", "x.puml"] := by decide +kernel
    rw [hwritten, hdrawn] at htold
    exact htold
  · intro hcard
    rw [hdrawn] at hcard
    exact hcount.mp hcard.symm ["x.CS"] (by decide) ["x.cs"] (by decide) hdiffer

end Command

end ClassChart
