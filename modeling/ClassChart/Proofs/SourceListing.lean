import ClassChart.Files.Sources
import ClassChart.Proofs.FileAccess
import ClassChart.Proofs.JobRuns

/-!
# The sources below a directory

What the search for sources finds is a source by its name, and in a sound file system it can be read
by its path. The search looks at the extension of a name below the directory, and a diagram is made
by the extension of the whole path; the two agree.

## Main results

* `languageOf?_join`: the extension of a path is that of the names at its end
* `Files.sourcesBelow_of_sorted`: what is found where the files are listed in order
* `Files.mem_sourcesBelow`: what is found is a file of the directory and a source
* `Files.exists_read_of_mem_sourcesBelow`: what is found can be read
-/

namespace ClassChart

open Text (Bytes)

/-! ## Names and paths -/

theorem Path.join_join (p : Path) (names others : List String) :
    (p.join names).join others = p.join (names ++ others) := by
  simp [Path.join]

/-- The last name of a path that ends with names is the last of them. -/
theorem Path.name_join (p : Path) {names : List String} (h : names ≠ []) :
    (p.join names).name = Path.name ⟨.here, names⟩ := by
  simp [Path.name, Path.join, List.getLast?_append_of_ne_nil _ h]

/-- **The extension of a path is that of the names at its end.** -/
theorem languageOf?_join (p : Path) {names : List String} (h : names ≠ []) :
    languageOf? (p.join names) = languageOf? ⟨.here, names⟩ := by
  rw [languageOf?, languageOf?, Path.suffix, Path.suffix, Path.name_join p h]

theorem Path.resolve_join (cwd : List String) (p : Path) (names : List String) :
    (p.join names).resolve cwd = names.foldl stepTo (p.resolve cwd) := by
  simp only [Path.resolve, Path.join, List.foldl_append]
  rfl

theorem passed_append (place names others : List String) :
    passed place (names ++ others) =
      passed place names ++ passed (names.foldl stepTo place) others := by
  induction names generalizing place with
  | nil => rfl
  | cons n names ih => simp [passed, ih]

theorem Path.passed_join (cwd : List String) (p : Path) (names : List String) :
    (p.join names).passed cwd = p.passed cwd ++ ClassChart.passed (p.resolve cwd) names := by
  simp only [Path.passed, Path.join, passed_append]
  rfl

/-! ## Below a folder -/

/-- What stands below a folder stands in it. -/
theorem Dir.look_append {d inner : Dir} {place : List String}
    (h : d.entry? place = some (.folder inner)) (q : List String) :
    d.look (place ++ q) = inner.look q := by
  induction place generalizing d with
  | nil =>
    simp only [Dir.entry?, Option.some.injEq, Entry.folder.injEq] at h
    rw [h, List.nil_append]
  | cons n place ih =>
    obtain ⟨next, hn, hnext⟩ := exists_find?_of_entry? h
    rw [List.cons_append, look_cons, hn]
    exact ih hnext

/-- On the way from a folder to something below it there are only folders. -/
theorem Dir.look_passed {d : Dir} {place names : List String}
    (hnames : ∀ name ∈ names, isName name = true) (hplace : d.look (place ++ names) ≠ .nothing) :
    ∀ r ∈ passed place names, d.look r = .folder := by
  induction names generalizing place with
  | nil => simp [passed]
  | cons n names ih =>
    obtain ⟨hn, hnames⟩ := List.forall_mem_cons.mp hnames
    have hstep : place ++ n :: names = place ++ [n] ++ names := by simp
    rw [passed, stepTo_of_isName hn, List.forall_mem_cons]
    rw [hstep] at hplace
    refine ⟨?_, ih hnames hplace⟩
    apply look_concat n
    cases names with
    | nil => simpa using hplace
    | cons m names =>
      have hfolder := ih hnames hplace (place ++ [n]) (by simp [passed])
      rw [hfolder]
      intro hnothing
      cases hnothing

/-! ## What is found -/

theorem isShort_of_isListable {d : Dir} {p : Path} (h : d.isListable p = true)
    {names : List String} (hmem : names ∈ d.files)
    (hlanguage : (languageOf? ⟨.here, names⟩).isSome = true) :
    Files.isShort (p.join names) = true := by
  induction d generalizing p names with
  | empty => simp [Dir.files] at hmem
  | file n content rest ih =>
    simp only [Dir.isListable, Bool.and_eq_true, Bool.or_eq_true] at h
    rcases List.mem_cons.mp hmem with rfl | hmem
    · rw [languageOf?_join p (List.cons_ne_nil n []), Option.isNone_iff_eq_none] at h
      rcases h.1 with hnone | hshort
      · rw [hnone] at hlanguage
        cases hlanguage
      · exact hshort
    · exact ih h.2 hmem hlanguage
  | folder n inner rest ihInner ihRest =>
    simp only [Dir.isListable, Bool.and_eq_true] at h
    rcases List.mem_append.mp hmem with hmem | hmem
    · obtain ⟨tail, htail, rfl⟩ := List.mem_map.mp hmem
      have hne := Dir.mem_files_ne_nil htail
      -- only the last name has an extension
      have hjoin : languageOf? ⟨.here, n :: tail⟩ = languageOf? ⟨.here, tail⟩ :=
        languageOf?_join ⟨.here, [n]⟩ hne
      rw [hjoin] at hlanguage
      have hshort := ihInner h.1.2 htail hlanguage
      rwa [Path.join_join, List.singleton_append] at hshort
    · exact ihRest h.2 hmem hlanguage

namespace Files

/-- A search of the folder that a path leads to. -/
theorem sourcesBelow_of_folder {fs : Files} {input : Path} {d : Dir}
    (hlocate : fs.locate input = .ok (input.resolve fs.cwd))
    (hd : fs.root.entry? (input.resolve fs.cwd) = some (.folder d)) :
    fs.sourcesBelow input = if d.isListable input then .ok d.sources else .error .tooLong := by
  have hprobe : fs.probe input = .ok (some (.folder d)) := by
    rw [probe, hlocate]
    simp only [hd]
  simp only [sourcesBelow, hprobe, bind, Except.bind]
  rfl

/-- Files that are listed in order are found in that order. -/
theorem sourcesBelow_of_sorted {fs : Files} {input : Path} {d : Dir}
    (hlocate : fs.locate input = .ok (input.resolve fs.cwd))
    (hd : fs.root.entry? (input.resolve fs.cwd) = some (.folder d))
    (hlistable : d.isListable input = true)
    (hsorted : (d.files.filter isSource).Pairwise fun a b => namesLe a b) :
    fs.sourcesBelow input = .ok (d.files.filter isSource) := by
  rw [sourcesBelow_of_folder hlocate hd, if_pos hlistable, Dir.sources,
    List.mergeSort_of_pairwise hsorted]

/-- What is found below a directory is a file of it and a source. -/
theorem mem_sourcesBelow {fs : Files} {input : Path} {sources : List (List String)}
    (h : fs.sourcesBelow input = .ok sources) {names : List String} (hmem : names ∈ sources) :
    ∃ d, fs.locate input = .ok (input.resolve fs.cwd) ∧
      fs.root.entry? (input.resolve fs.cwd) = some (.folder d) ∧ d.isListable input = true ∧
      names ∈ d.files ∧ isSource names = true := by
  have hprobe : ∃ found, fs.probe input = .ok found := by
    cases hprobe : fs.probe input with
    | error fault => simp [sourcesBelow, hprobe, bind, Except.bind] at h
    | ok found => exact ⟨found, rfl⟩
  obtain ⟨found, hprobe⟩ := hprobe
  simp only [sourcesBelow, hprobe, bind, Except.bind] at h
  split at h
  case h_1 d =>
    split at h
    case isTrue hlistable =>
      simp only [pure, Except.pure, Except.ok.injEq] at h
      subst h
      obtain ⟨hfile, hsource⟩ := List.mem_filter.mp (List.mem_mergeSort.mp hmem)
      unfold probe at hprobe
      split at hprobe
      case h_1 place hlocate =>
        have hplace := (locate_eq_ok_iff.mp hlocate).2.2
        subst hplace
        exact ⟨d, hlocate, by simpa using hprobe, hlistable, hfile, hsource⟩
      case h_2 => simp at hprobe
      case h_3 => simp at hprobe
    case isFalse => simp at h
  case h_2 =>
    simp only [pure, Except.pure, Except.ok.injEq] at h
    subst h
    simp at hmem

/-- What is found has the extension of a source. -/
theorem languageOf?_of_mem_sourcesBelow {fs : Files} {input : Path} {sources : List (List String)}
    (h : fs.sourcesBelow input = .ok sources) {names : List String} (hmem : names ∈ sources)
    (p : Path) : languageOf? (p.join names) = some defaultLanguage := by
  obtain ⟨d, -, -, -, hfile, hsource⟩ := mem_sourcesBelow h hmem
  rw [languageOf?_join p (Dir.mem_files_ne_nil hfile)]
  rw [isSource, Bool.and_eq_true] at hsource
  rcases languageOf?_eq ⟨.here, names⟩ with hnone | hsome
  · simp [hnone] at hsource
  · exact hsome

/-- **What is found can be read**: its path fits and leads to a file, by names that are names. -/
theorem exists_read_of_mem_sourcesBelow {fs : Files} (hsound : fs.isSound = true) {input : Path}
    {sources : List (List String)} (h : fs.sourcesBelow input = .ok sources) {names : List String}
    (hmem : names ∈ sources) :
    (∃ content, fs.read (input.join names) = .ok content) ∧
      ∀ name ∈ names, Dir.isName name = true := by
  obtain ⟨d, hlocate, hentry, hlistable, hfile, hsource⟩ := mem_sourcesBelow h hmem
  obtain ⟨hfits, hpassed, -⟩ := locate_eq_ok_iff.mp hlocate
  rw [isSound, Bool.and_eq_true] at hsound
  obtain ⟨⟨content, hcontent⟩, hnames⟩ :=
    Dir.exists_look_of_mem_files (Dir.isSound_of_folder hsound.1 hentry) hfile
  -- the file stands at its names below the place of the directory
  have hlook : fs.root.look (input.resolve fs.cwd ++ names) = .file content := by
    rw [Dir.look_append hentry, hcontent]
  refine ⟨⟨content, read_eq_ok_iff.mpr ⟨⟨?_, ?_, ?_⟩, ?_, ?_⟩⟩, hnames⟩
  · rw [Path.hasNull, Path.join, List.any_append, Bool.or_eq_false_iff]
    exact ⟨hfits.noNull, List.any_eq_false.mpr fun n hn => by simp [Dir.hasNull_of_isName (hnames n hn)]⟩
  · rw [isSource, Bool.and_eq_true] at hsource
    exact isShort_of_isListable hlistable hfile hsource.1
  · intro name hname
    rcases List.mem_append.mp hname with hname | hname
    · exact hfits.names_short name hname
    · exact Dir.size_of_isName (hnames name hname)
  · intro r hr
    rw [Path.passed_join] at hr
    rcases List.mem_append.mp hr with hr | hr
    · exact hpassed r hr
    · exact Dir.look_passed hnames (by simp [hlook]) r hr
  · rw [Path.resolve_join, foldl_stepTo_of_isName hnames]
    exact hlook

end Files

end ClassChart
