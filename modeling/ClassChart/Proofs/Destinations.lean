import ClassChart.Proofs.Rendering
import ClassChart.Proofs.SourceRuns

/-!
# Where diagrams go

The diagram of a source goes to a file with the names of the source below the output directory, but
for another suffix. No such file has the extension of a source, so that writing it disturbs no
source. Writing a diagram makes the directories on the way to its file, and the file.

## Main definitions

* `Style.IsText`: a style whose unit of indentation and title are texts
* `Files.Builds`: a file system is another one with some files and folders put in

## Main results

* `isText_diagram`: a diagram is a text if the unit of indentation and the title are texts
* `destination_of_language`: where the diagram of a source goes
* `resolve_ne_destination`: no source is where a diagram goes
* `writeDiagram_eq_ok`: what was done when a diagram was written
* `writeDiagram_on`: what stands where after a diagram was written
-/

namespace ClassChart

open Text (Bytes)

/-! ## Diagrams are texts -/

theorem Declaration.isText_render {indent : RawText} (h : indent.IsText) (d : Declaration)
    {line : RawText} (hline : line ∈ d.render indent) : line.IsText := by
  intro symbol hsymbol
  rw [render, writes_eq] at hline
  obtain ⟨written, hwritten, hmem⟩ := List.mem_flatten.mp (Text.mem_of_mem_lines hline hsymbol)
  obtain ⟨shown, hshown, rfl⟩ := List.mem_map.mp hwritten
  obtain ⟨l, -, rfl⟩ := List.mem_map.mp hshown
  rcases List.mem_append.mp hmem with hmem | hmem
  · rcases List.mem_append.mp hmem with hmem | hmem
    · exact h symbol (RawText.mem_of_mem_times hmem)
    · exact RawText.isText_ofString _ symbol hmem
  · exact ⟨'\n', List.mem_singleton.mp hmem⟩

theorem isText_titleLine {title : RawText} (h : title.IsText) : (titleLine title).IsText := by
  intro symbol hsymbol
  rcases mem_titleLine hsymbol with hsymbol | ⟨w, hw, hsymbol⟩
  · exact RawText.isText_ofString _ symbol hsymbol
  · exact h symbol (Text.mem_of_mem_words hw hsymbol).1

/-- The unit of indentation and the title, if there is one, have no lone surrogates. -/
structure Style.IsText (style : Style) : Prop where
  indent : style.indent.IsText
  title : ∀ title ∈ style.title, title.IsText

theorem Style.isText_default : ({} : Style).IsText :=
  ⟨RawText.isText_ofString _, by simp⟩

/-- **A diagram is a text** if the unit of indentation and the title are. -/
theorem isText_diagram {style : Style} (h : style.IsText) (unit : Declaration) :
    (diagram style unit).IsText := by
  intro symbol hsymbol
  rw [diagram, document] at hsymbol
  obtain ⟨line, hline, hmem⟩ := List.mem_flatMap.mp hsymbol
  rcases List.mem_append.mp hmem with hmem | hmem
  · rcases mem_documentLines hline with hline | hline | rfl | rfl
    · exact unit.isText_render h.indent hline symbol hmem
    · obtain ⟨t, ht, rfl⟩ := exists_of_mem_titleLines hline
      exact isText_titleLine (h.title t ht) symbol hmem
    · exact RawText.isText_ofString _ symbol hmem
    · exact RawText.isText_ofString _ symbol hmem
  · exact ⟨'\n', List.mem_singleton.mp hmem⟩

/-! ## The names of a diagram -/

/-- A name without a suffix is all stem; any other is its stem, a dot and the rest. -/
theorem splitSuffix_cases (name : List Char) :
    splitSuffix name = (name, []) ∨ ∃ stem extension, stem ≠ [] ∧
      name = stem ++ '.' :: extension ∧ splitSuffix name = (stem, '.' :: extension) := by
  -- the last dot is the first one of the reversed name
  have hparts := List.takeWhile_append_dropWhile (p := (· != '.')) (l := name.reverse)
  rw [splitSuffix]
  cases hdrop : name.reverse.dropWhile (· != '.') with
  | nil =>
    rw [hdrop, List.append_nil] at hparts
    simp [hparts]
  | cons d rest =>
    have hdot : d = '.' := by
      have hhead := List.head_dropWhile_not (· != '.') (by rw [hdrop]; exact List.cons_ne_nil d rest)
      simpa [hdrop] using hhead
    subst hdot
    rw [hdrop] at hparts
    generalize name.reverse.takeWhile (· != '.') = extension at hparts ⊢
    have hname : name = rest.reverse ++ '.' :: extension.reverse := by
      rw [← List.reverse_reverse name, ← hparts]
      simp
    have hbefore : name.take (name.length - extension.reverse.length - 1) = rest.reverse := by
      have hlength : name.length - extension.reverse.length - 1 = rest.reverse.length := by
        rw [hname]
        simp
        omega
      rw [hlength, hname, List.take_left]
    simp only [hbefore]
    split
    · exact .inl rfl
    · rename_i hsplit
      simp only [Bool.or_eq_true, List.isEmpty_iff, not_or] at hsplit
      exact .inr ⟨rest.reverse, extension.reverse, hsplit.2, hname, rfl⟩

/-- The last name of a source is a stem and the extension of sources. -/
theorem exists_stem_of_languageOf? {p : Path} {language : String} (h : languageOf? p = some language) :
    ∃ stem suffix, stem ≠ [] ∧ p.name = String.ofList (stem ++ '.' :: suffix) ∧
      splitSuffix p.name.toList = (stem, '.' :: suffix) ∧
      Text.lower (String.ofList ('.' :: suffix)) = ".cs" := by
  rw [languageOf?, languageOfExtension, List.lookup_cons] at h
  split at h
  case h_2 => cases h
  case h_1 hkey =>
    have hsuffix : Text.lower p.suffix = ".cs" := beq_iff_eq.mp hkey
    rw [Path.suffix] at hsuffix
    rcases splitSuffix_cases p.name.toList with hnone | ⟨stem, suffix, hne, hname, hsplit⟩
    · have hempty : Text.lower (String.ofList []) ≠ ".cs" := by decide +kernel
      rw [hnone] at hsuffix
      exact absurd hsuffix hempty
    · rw [hsplit] at hsuffix
      exact ⟨stem, suffix, hne, by rw [← hname, String.ofList_toList], hsplit, hsuffix⟩

theorem splitSuffix_diagram {stem : List Char} (h : stem ≠ []) :
    splitSuffix (stem ++ ".puml".toList) = (stem, ".puml".toList) := by
  simp [splitSuffix, List.takeWhile, h]

namespace Command

/-- The names that lead to a diagram below the output directory, by those of its source. -/
def diagramNames (names : List String) : List String :=
  names.dropLast ++ [String.ofList (splitSuffix (names.getLast?.getD "").toList).1 ++ ".puml"]

theorem diagramNames_ne_nil (names : List String) : diagramNames names ≠ [] := by
  simp [diagramNames]

theorem destination_eq (output : Path) {names : List String} (h : names ≠ []) :
    destination output names = output.join (diagramNames names) := by
  rcases List.eq_nil_or_concat' names with rfl | ⟨dirs, last, rfl⟩
  · exact absurd rfl h
  · simp [destination, Path.withSuffix, Path.parent, Path.join, Path.name, diagramNames,
      ← List.append_assoc]

/-- The last name of a diagram, which has the stem of the source. -/
theorem languageOf?_diagramNames {names : List String} {language : String}
    (h : languageOf? ⟨.here, names⟩ = some language) :
    languageOf? ⟨.here, diagramNames names⟩ = none := by
  have hlower : Text.lower ".puml" = ".puml" := by decide +kernel
  obtain ⟨stem, suffix, hstem, -, hsplit, -⟩ := exists_stem_of_languageOf? h
  rw [Path.name] at hsplit
  have hsuffix : Path.suffix ⟨.here, diagramNames names⟩ = ".puml" := by
    rw [Path.suffix, Path.name, diagramNames, List.getLast?_concat, Option.getD_some,
      String.toList_append, String.toList_ofList, hsplit, splitSuffix_diagram hstem,
      String.ofList_toList]
  rw [languageOf?, hsuffix, hlower]
  rfl

theorem stepTo_diagram (place : List String) (stem : String) :
    stepTo place (stem ++ ".puml") = place ++ [stem ++ ".puml"] := by
  have hlength : 5 ≤ (stem ++ ".puml").length := by
    rw [String.length_append]
    exact Nat.le_add_left 5 stem.length
  have hne : ∀ name : String, name.length < 5 → stem ++ ".puml" ≠ name := by
    rintro name hname rfl
    omega
  rw [stepTo, if_neg, if_neg]
  · exact hne ".." (by decide)
  · rintro (h | h)
    · exact hne "" (by decide) h
    · exact hne "." (by decide) h

/-- **Where the diagram of a source goes**: below the output directory as the source below the input
directory. -/
theorem resolve_destination (cwd : List String) (output : Path) {names : List String}
    (hne : names ≠ []) (hnames : ∀ name ∈ names, Dir.isName name = true) :
    (destination output names).resolve cwd = output.resolve cwd ++ diagramNames names := by
  have hdirs : ∀ name ∈ names.dropLast, Dir.isName name = true :=
    fun name hname => hnames name (List.dropLast_subset names hname)
  rw [destination_eq output hne, Path.resolve_join, diagramNames, List.foldl_concat,
    foldl_stepTo_of_isName hdirs, stepTo_diagram, List.append_assoc]

/-- No source is where a diagram goes. -/
theorem resolve_ne_destination (cwd : List String) (input output : Path)
    {names others : List String} {language : String}
    (hlanguage : languageOf? ⟨.here, names⟩ = some language)
    (hothers : languageOf? ⟨.here, others⟩ = some language)
    (hne : names ≠ []) (hnames : ∀ name ∈ names, Dir.isName name = true)
    (hneOthers : others ≠ []) (hnamesOthers : ∀ name ∈ others, Dir.isName name = true) :
    (input.join names).resolve cwd ≠ (destination output others).resolve cwd := by
  intro h
  rw [Path.resolve_join, foldl_stepTo_of_isName hnames,
    resolve_destination cwd output hneOthers hnamesOthers] at h
  -- the extension of the place is that of a source on one side, and of a diagram on the other
  have hsource := languageOf?_join ⟨.here, input.resolve cwd⟩ hne
  have hdiagram := languageOf?_join ⟨.here, output.resolve cwd⟩ (diagramNames_ne_nil others)
  rw [Path.join, h, hlanguage] at hsource
  rw [Path.join, languageOf?_diagramNames hothers, hsource] at hdiagram
  cases hdiagram

end Command

/-! ## Files put in -/

/-- The file system `next` is `fs` with files and folders put in at some places. -/
structure Files.Builds (fs next : Files) (files : List (List String × Bytes))
    (folders : List String → Prop) : Prop where
  cwd_eq : next.cwd = fs.cwd
  file : ∀ x ∈ files, next.look x.1 = .file x.2
  folder : ∀ q, folders q → next.look q = .folder
  other : ∀ q, (∀ x ∈ files, x.1 ≠ q) → ¬ folders q → next.look q = fs.look q

namespace Files.Builds

variable {fs made next : Files} {A B : List (List String × Bytes)} {P Q : List String → Prop}

/-- What is put in later must not be where something was put in before, but for folders. -/
theorem trans (h : Builds fs made A P) (k : Builds made next B Q)
    (hfiles : ∀ x ∈ A, (∀ y ∈ B, y.1 ≠ x.1) ∧ ¬ Q x.1) (hfolders : ∀ q, P q → ∀ y ∈ B, y.1 ≠ q) :
    Builds fs next (A ++ B) fun q => P q ∨ Q q where
  cwd_eq := k.cwd_eq.trans h.cwd_eq
  file := by
    intro x hx
    rcases List.mem_append.mp hx with hx | hx
    · obtain ⟨hapart, hnot⟩ := hfiles x hx
      rw [k.other x.1 hapart hnot, h.file x hx]
    · exact k.file x hx
  folder := by
    rintro q (hP | hQ)
    · -- a folder may be put in twice
      by_cases hQ : Q q
      · exact k.folder q hQ
      · rw [k.other q (hfolders q hP) hQ, h.folder q hP]
    · exact k.folder q hQ
  other := by
    intro q hq hnot
    obtain ⟨hA, hB⟩ := List.forall_mem_append.mp hq
    obtain ⟨hP, hQ⟩ := not_or.mp hnot
    rw [k.other q hB hQ, h.other q hA hP]

/-- Folders stay folders where no file is put in. -/
theorem look_folder (h : Builds fs next A P) {q : List String} (hq : fs.look q = .folder)
    (hfiles : ∀ x ∈ A, fs.look x.1 ≠ .folder) : next.look q = .folder := by
  by_cases hP : P q
  · exact h.folder q hP
  · rw [h.other q _ hP, hq]
    rintro x hx rfl
    exact hfiles x hx hq

/-- What is put in leaves the files that can be read, unless it is in their place. -/
theorem read_eq (h : Builds fs next A P) {p : Path} {content : Bytes}
    (hread : fs.read p = .ok content) (hfiles : ∀ x ∈ A, fs.look x.1 ≠ .folder)
    (hplace : ∀ x ∈ A, x.1 ≠ p.resolve fs.cwd) (hfolders : ∀ q, P q → fs.look q ≠ .file content) :
    next.read p = .ok content := by
  obtain ⟨hfits, hpassed, hlook⟩ := read_eq_ok_iff.mp hread
  rw [read_eq_ok_iff, h.cwd_eq]
  refine ⟨hfits, ?_, ?_⟩
  · exact fun r hr => h.look_folder (hpassed r hr) hfiles
  · rw [h.other _ hplace fun hP => hfolders _ hP hlook, hlook]

end Files.Builds

/-! ## Writing a diagram -/

namespace Job

variable {p : Path} {w next : World}

theorem makeDirs_eq_ok (h : (makeDirs p).on w = (.ok (), next)) :
    ∃ made, w.files.makeDirs p = (.ok (), made) ∧ next = { w with files := made } := by
  have hrun : (makeDirs p).on w = (ofFileFault (w.files.makeDirs p).1).on
      { w with files := (w.files.makeDirs p).2 } := rfl
  rw [hrun] at h
  rcases hmade : w.files.makeDirs p with ⟨fault | _, made⟩
  · rw [hmade] at h
    cases h
  · rw [hmade] at h
    exact ⟨made, rfl, (Prod.mk.inj h).2.symm⟩

theorem writeBytes_eq_ok {content : Bytes} (h : (writeBytes p content).on w = (.ok (), next)) :
    ∃ after, w.files.write p content = .ok after ∧ next = { w with files := after } := by
  rw [writeBytes, on_bind_ok (on_files w)] at h
  cases hafter : w.files.write p content with
  | error fault =>
    rw [hafter] at h
    cases h
  | ok after =>
    rw [hafter] at h
    exact ⟨after, rfl, (Prod.mk.inj h).2.symm⟩

/-- Only what has an encoding is written. -/
theorem write_eq_ok {text : RawText} (h : (write p text).on w = (.ok (), next)) :
    ∃ (s : String) (after : Files), text = RawText.ofString s ∧
      w.files.write p (Text.Utf8.encode s) = .ok after ∧ next = { w with files := after } := by
  unfold write at h
  split at h
  · rename_i s hs
    obtain ⟨after, hafter, hnext⟩ := writeBytes_eq_ok h
    exact ⟨s, after, RawText.eq_ofString hs, hafter, hnext⟩
  · rw [on_bind] at h
    split at h <;> cases h

end Job

namespace Command

/-- **A diagram that was written** is a text. Its directory was made, then its file written. -/
theorem writeDiagram_eq_ok {target : Path} {text : RawText} {w next : World}
    (h : (writeDiagram target text).on w = (.ok (), next)) :
    ∃ (s : String) (made after : Files), text = RawText.ofString s ∧
      w.files.makeDirs target.parent = (.ok (), made) ∧
      made.write target (Text.Utf8.encode s) = .ok after ∧
      next = World.noting { w with files := after } [.wrote target.toText] := by
  rw [writeDiagram] at h
  obtain ⟨_, mid, hmakes, hrest⟩ := Job.on_bind_eq_ok h
  obtain ⟨made, hmade, rfl⟩ := Job.makeDirs_eq_ok hmakes
  obtain ⟨_, last, hwrites, hlast⟩ := Job.on_bind_eq_ok hrest
  obtain ⟨s, after, htext, hafter, rfl⟩ := Job.write_eq_ok hwrites
  exact ⟨s, made, after, htext, hmade, hafter, (Prod.mk.inj hlast).2.symm⟩

/-- A diagram is written once its directory is made. -/
theorem writeDiagram_of_write {target : Path} {text : String} {w : World} {made after : Files}
    (hmade : w.files.makeDirs target.parent = (.ok (), made))
    (hafter : made.write target (Text.Utf8.encode text) = .ok after) :
    (writeDiagram target text).on w =
      (.ok (), World.noting { w with files := after } [.wrote target.toText]) := by
  have hdirs : (Job.makeDirs target.parent).on w = (.ok (), { w with files := made }) := by
    rw [Job.makeDirs, Job.on_bind_ok (Job.on_files w), hmade]
    rfl
  have hwrite : (Job.write target text).on { w with files := made } =
      (.ok (), { w with files := after }) := by
    rw [Job.on_write]
    simp only [hafter]
  rw [writeDiagram, Job.on_bind_ok hdirs, Job.on_bind_ok hwrite]
  rfl

/-- **Writing a diagram** puts in its file and the folders on the way, if none of these places is in
the way of another. -/
theorem writeDiagram_on {target : Path} {w : World} (hfits : target.Fits) (hne : target.parts ≠ [])
    (hbase : w.files.look (target.base w.files.cwd) = .folder)
    (hfree : ∀ q ∈ target.passed w.files.cwd, ∀ content, w.files.look q ≠ .file content)
    (hplace : w.files.look (target.resolve w.files.cwd) ≠ .folder)
    (hself : target.resolve w.files.cwd ∉ target.passed w.files.cwd) (text : String) :
    ∃ next, (writeDiagram target text).on w = (.ok (), next) ∧ next.parsers = w.parsers ∧
      w.files.Builds next.files [(target.resolve w.files.cwd, Text.Utf8.encode text)]
        (· ∈ target.passed w.files.cwd) := by
  obtain ⟨made, hmade, hadds⟩ := Files.makeDirs_ok hfits.parent hbase
    fun q hq => hfree q ((Path.mem_passed_iff hne).mpr hq)
  -- the folders are there once they are made, and the place of the file is still free
  have hpassed : ∀ q ∈ target.passed made.cwd, made.look q = .folder := by
    intro q hq
    rw [hadds.cwd_eq] at hq
    exact hadds.folder q ((Path.mem_passed_iff hne).mp hq)
  have hend : made.look (target.resolve made.cwd) ≠ .folder := by
    rw [hadds.cwd_eq, hadds.other _ fun hq => hself ((Path.mem_passed_iff hne).mpr hq)]
    exact hplace
  obtain ⟨after, hafter, hcwd, hlook⟩ := Files.write_ok hfits
    (by rw [hadds.cwd_eq]; exact hadds.look_folder hbase) hpassed hend (Text.Utf8.encode text)
  rw [hadds.cwd_eq] at hcwd hlook
  refine ⟨_, writeDiagram_of_write hmade hafter, rfl, hcwd, ?_, ?_, ?_⟩
  · intro x hx
    rw [List.mem_singleton.mp hx]
    exact (hlook _).trans (if_pos rfl)
  · intro q hq
    refine (hlook q).trans ?_
    rw [if_neg (by rintro rfl; exact hself hq)]
    exact hadds.folder q ((Path.mem_passed_iff hne).mp hq)
  · intro q hq hnot
    refine (hlook q).trans ?_
    rw [if_neg fun h => hq _ (List.mem_singleton_self _) h.symm]
    exact hadds.other q fun h => hnot ((Path.mem_passed_iff hne).mpr h)

end Command

end ClassChart
