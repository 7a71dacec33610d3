import ClassChart.Proofs.SharedDestinations
import Mathlib.Data.List.Lex
import Mathlib.Data.String.Basic

/-!
# The search for sources

The sources below a directory are its files with the right extension, at any depth, except those
below a directory that is skipped. A search finds all of them, each once, in the order of their
names. It goes by what stands below the directory and not by the way to it, but the way counts for
the length of paths: where a folder or a file with the extension of a source is out of reach, the
search fails.

## Main definitions

* `Files.IsSourceBelow`: a file below a directory is a source
* `Files.IsSearchable`: nothing that the search has to look at is out of reach
* `Files.SameBelow`: two directories have the same files and folders below them

## Main results

* `namesLe_iff`: lists of names are compared name by name
* `Dir.mem_files_iff`: the listed files of a sound directory are those that stand below it
* `Dir.pairwise_sources`: sources are found in increasing order
* `Files.isListable_iff`: when a directory can be searched
* `Files.sources_below`: what a search finds, in which order, and what it depends on
-/

namespace ClassChart

/-! ## The order of names -/

/-- **Lists of names are compared name by name**, and names character by character. -/
theorem namesLe_iff {a b : List String} : namesLe a b = true ↔ a < b ∨ a = b := by
  induction a generalizing b with
  | nil =>
    cases b with
    | nil => simp [namesLe]
    | cons y ys => simp [namesLe]
  | cons x xs ih =>
    cases b with
    | nil => simp [namesLe]
    | cons y ys =>
      rw [namesLe, Bool.or_eq_true, Bool.and_eq_true, decide_eq_true_iff, beq_iff_eq, ih,
        List.cons_lt_cons_iff, List.cons.injEq, and_or_left, or_assoc]

theorem namesLe_trans (a b c : List String) (hab : namesLe a b = true) (hbc : namesLe b c = true) :
    namesLe a c = true := by
  rw [namesLe_iff] at *
  rcases hab with hab | rfl
  · rcases hbc with hbc | rfl
    · exact .inl (lt_trans hab hbc)
    · exact .inl hab
  · exact hbc

theorem namesLe_total (a b : List String) : (namesLe a b || namesLe b a) = true := by
  rw [Bool.or_eq_true, namesLe_iff, namesLe_iff]
  rcases lt_trichotomy a b with h | h | h
  · exact .inl (.inl h)
  · exact .inl (.inr h)
  · exact .inr (.inl h)

/-! ## What is listed -/

/-- The extension of sources, in small letters or capitals. -/
theorem isSome_languageOf?_iff (p : Path) :
    (languageOf? p).isSome = true ↔ Text.lower p.suffix = ".cs" := by
  rw [languageOf?, languageOfExtension, List.lookup_cons]
  split
  · rename_i h
    exact iff_of_true rfl (beq_iff_eq.mp h)
  · rename_i h
    exact iff_of_false (by simp) (beq_eq_false_iff_ne.mp h)

theorem Path.suffix_join (p : Path) {names : List String} (h : names ≠ []) :
    (p.join names).suffix = Path.suffix ⟨.here, names⟩ := by
  rw [Path.suffix, Path.suffix, Path.name_join p h]

namespace Dir

variable {d : Dir} {names : List String} {p : Path}

theorem look_file (n : String) (content : Text.Bytes) (rest : Dir) (m : String)
    (place : List String) :
    (Dir.file n content rest).look (m :: place) =
      if n = m then if place = [] then .file content else .nothing else rest.look (m :: place) := by
  rw [look_cons, find?]
  by_cases hm : n = m
  · simp only [hm, if_true]
  · simp only [hm, if_false, look_cons]

theorem look_folder (n : String) (inner rest : Dir) (m : String) (place : List String) :
    (Dir.folder n inner rest).look (m :: place) =
      if n = m then inner.look place else rest.look (m :: place) := by
  rw [look_cons, find?]
  by_cases hm : n = m
  · simp only [hm, if_true]
  · simp only [hm, if_false, look_cons]

/-- The extension of a file below a directory is that of its names, wherever the directory is. -/
theorem suffix_join_of_look {content : Text.Bytes} (h : d.look names = .file content) (p : Path) :
    (p.join names).suffix = Path.suffix ⟨.here, names⟩ := by
  apply Path.suffix_join
  -- no file stands at the directory itself
  rintro rfl
  cases h

/-- A file that stands below a directory is listed. -/
theorem mem_files_of_look {content : Text.Bytes} (h : d.look names = .file content) :
    names ∈ d.files := by
  induction d generalizing names with
  | empty => cases names <;> cases h
  -- a name may be given twice: the first entry hides the others
  | file n found rest ih =>
    cases names with
    | nil => cases h
    | cons m place =>
      rw [look_file] at h
      split at h
      · rename_i hm
        split at h
        · rename_i hplace
          exact List.mem_cons.mpr (.inl (by rw [hm, hplace]))
        · cases h
      · exact List.mem_cons_of_mem _ (ih h)
  | folder n inner rest ihInner ihRest =>
    cases names with
    | nil => cases h
    | cons m place =>
      rw [look_folder] at h
      split at h
      · rename_i hm
        exact List.mem_append_left _ (List.mem_map.mpr ⟨place, ihInner h, by rw [hm]⟩)
      · exact List.mem_append_right _ (ihRest h)

/-- **The listed files of a sound directory are those that stand below it.** -/
theorem mem_files_iff (hsound : d.isSound = true) :
    names ∈ d.files ↔ ∃ content, d.look names = .file content :=
  ⟨fun h => (exists_look_of_mem_files hsound h).1, fun ⟨_, h⟩ => mem_files_of_look h⟩

theorem nodup_sources (hsound : d.isSound = true) : d.sources.Nodup :=
  (List.mergeSort_perm _ _).nodup_iff.mpr ((nodup_files hsound).filter _)

/-- **Sources are found in increasing order.** -/
theorem pairwise_sources (hsound : d.isSound = true) : d.sources.Pairwise (· < ·) := by
  have hsorted := List.pairwise_mergeSort namesLe_trans namesLe_total (d.files.filter isSource)
  refine List.Pairwise.imp₂ ?_ hsorted (nodup_sources hsound)
  intro a b hle hne
  exact (namesLe_iff.mp hle).resolve_right hne

theorem mem_sources_iff (hsound : d.isSound = true) :
    names ∈ d.sources ↔ (∃ content, d.look names = .file content) ∧ isSource names = true := by
  rw [sources, List.mem_mergeSort, List.mem_filter, mem_files_iff hsound]

/-- **Directories with the same files below them have the same sources**, in the same order: there
is only one way to put them into increasing order. -/
theorem sources_eq {other : Dir} (hsound : d.isSound = true) (hother : other.isSound = true)
    (h : ∀ names, d.look names = other.look names) : d.sources = other.sources := by
  have hperm : d.sources.Perm other.sources := by
    refine (List.perm_ext_iff_of_nodup (nodup_sources hsound) (nodup_sources hother)).mpr ?_
    intro names
    rw [mem_sources_iff hsound, mem_sources_iff hother, h]
  exact hperm.eq_of_pairwise (fun _ _ _ _ hab hba => absurd hba (lt_asymm hab))
    (pairwise_sources hsound) (pairwise_sources hother)

/-- A directory can be searched if every folder in it and every file with the extension of a source
is within reach. -/
theorem isListable_of_isShort (hsound : d.isSound = true)
    (hfolders : ∀ names, names ≠ [] → d.look names = .folder → Files.isShort (p.join names) = true)
    (hfiles : ∀ names content, d.look names = .file content →
      (languageOf? ⟨.here, names⟩).isSome = true → Files.isShort (p.join names) = true) :
    d.isListable p = true := by
  induction d generalizing p with
  | empty => rfl
  | file n content rest ih =>
    simp only [isSound, Bool.and_eq_true, Option.isNone_iff_eq_none] at hsound
    obtain ⟨⟨-, hnone⟩, hrest⟩ := hsound
    -- what stands in the rest also stands in the whole
    have hlook {names : List String} (h : rest.look names ≠ .nothing) :
        (Dir.file n content rest).look names = rest.look names :=
      look_eq_of_find?_eq_none (fun m hm => by rw [find?, if_neg hm]) hnone h
    rw [isListable, Bool.and_eq_true]
    constructor
    · rw [languageOf?_join p (List.cons_ne_nil n []), Bool.or_eq_true, Option.isNone_iff_eq_none]
      cases hlanguage : languageOf? ⟨.here, [n]⟩ with
      | none => exact .inl rfl
      | some language =>
        exact .inr (hfiles [n] content (by simp [look_file]) (by rw [hlanguage]; rfl))
    · refine ih hrest (fun names hne h => ?_) (fun names found h => ?_)
      · exact hfolders names hne ((hlook (by simp [h])).trans h)
      · exact hfiles names found ((hlook (by simp [h])).trans h)
  | folder n inner rest ihInner ihRest =>
    simp only [isSound, Bool.and_eq_true, Option.isNone_iff_eq_none] at hsound
    obtain ⟨⟨⟨-, hnone⟩, hinner⟩, hrest⟩ := hsound
    have hlook {names : List String} (h : rest.look names ≠ .nothing) :
        (Dir.folder n inner rest).look names = rest.look names :=
      look_eq_of_find?_eq_none (fun m hm => by rw [find?, if_neg hm]) hnone h
    have hbelow (names : List String) :
        (Dir.folder n inner rest).look (n :: names) = inner.look names := by
      rw [look_folder, if_pos rfl]
    have hjoin (names : List String) : (p.join [n]).join names = p.join (n :: names) :=
      Path.join_join p [n] names
    rw [isListable, Bool.and_eq_true, Bool.and_eq_true]
    refine ⟨⟨?_, ihInner hinner (fun names _ h => ?_) fun names found h hlanguage => ?_⟩,
      ihRest hrest (fun names hne h => ?_) fun names found h => ?_⟩
    · exact hfolders [n] (List.cons_ne_nil n []) (hbelow [])
    · rw [hjoin]
      exact hfolders _ (List.cons_ne_nil n names) ((hbelow names).trans h)
    · rw [hjoin]
      refine hfiles _ found ((hbelow names).trans h) ?_
      have hne : names ≠ [] := by
        rintro rfl
        cases h
      rw [← hlanguage]
      exact congrArg Option.isSome (languageOf?_join ⟨.here, [n]⟩ hne)
    · exact hfolders names hne ((hlook (by simp [h])).trans h)
    · exact hfiles names found ((hlook (by simp [h])).trans h)

end Dir

/-- A source, told by its names: the last one has the extension, and none before it is skipped. -/
theorem isSource_iff {names : List String} :
    isSource names = true ↔ Text.lower (Path.suffix ⟨.here, names⟩) = ".cs" ∧
      ∀ name ∈ names.dropLast, name ∉ skippedDirs := by
  rw [isSource, Bool.and_eq_true, isSome_languageOf?_iff]
  simp

/-! ## What a search finds -/

namespace Files

variable {fs : Files} {p : Path}

/-- The names lead from a directory to a source below it: to a file whose last name has the
extension of sources, by way of no directory that is skipped. -/
structure IsSourceBelow (fs : Files) (p : Path) (names : List String) : Prop where
  file : ∃ content, fs.look (p.resolve fs.cwd ++ names) = .file content
  extension : Text.lower (p.join names).suffix = ".cs"
  notSkipped : ∀ name ∈ names.dropLast, name ∉ skippedDirs

/-- **Nothing that the search has to look at is out of reach**: no folder below the directory, and
no file with the extension of a source, be it in a folder that is skipped. -/
structure IsSearchable (fs : Files) (p : Path) : Prop where
  folders : fs.IsShortBelow p
  sources : ∀ names content, fs.look (p.resolve fs.cwd ++ names) = .file content →
    Text.lower (p.join names).suffix = ".cs" → isShort (p.join names) = true

/-- The same files and folders stand below two directories. -/
def SameBelow (fs : Files) (p : Path) (other : Files) (r : Path) : Prop :=
  ∀ names, fs.look (p.resolve fs.cwd ++ names) = other.look (r.resolve other.cwd ++ names)

/-- **When a directory can be searched**: exactly if nothing is out of reach. -/
theorem isListable_iff {d : Dir} (hsound : d.isSound = true)
    (hlocate : fs.locate p = .ok (p.resolve fs.cwd))
    (hd : fs.root.entry? (p.resolve fs.cwd) = some (.folder d)) :
    d.isListable p = true ↔ fs.IsSearchable p := by
  have hlook (names : List String) : fs.look (p.resolve fs.cwd ++ names) = d.look names :=
    Dir.look_append hd names
  have hextension {names : List String} {content : Text.Bytes} (h : d.look names = .file content) :
      Text.lower (p.join names).suffix = ".cs" ↔ (languageOf? ⟨.here, names⟩).isSome = true := by
    rw [isSome_languageOf?_iff, Dir.suffix_join_of_look h p]
  constructor
  · intro hlistable
    refine ⟨isShortBelow_of_isListable hlocate hd hlistable, fun names content hfile hsuffix => ?_⟩
    rw [hlook] at hfile
    exact isShort_of_isListable hlistable (Dir.mem_files_of_look hfile)
      ((hextension hfile).mp hsuffix)
  · intro hsearch
    refine Dir.isListable_of_isShort hsound (fun names _ h => ?_) fun names content h hext => ?_
    · exact hsearch.folders names ((hlook names).trans h)
    · exact hsearch.sources names content ((hlook names).trans h) ((hextension h).mpr hext)

/-- The directory that a path leads to, and what a search of it gives. -/
theorem exists_folder_of_isDir (hsound : fs.isSound = true) (hdir : fs.isDir p = true) :
    ∃ d : Dir, d.isSound = true ∧
      (∀ names, fs.look (p.resolve fs.cwd ++ names) = d.look names) ∧
      (d.isListable p = true ↔ fs.IsSearchable p) ∧
      fs.sourcesBelow p = if d.isListable p then .ok d.sources else .error .tooLong := by
  obtain ⟨place, hlocate, hfolder⟩ := isDir_eq_true_iff.mp hdir
  obtain ⟨-, -, rfl⟩ := locate_eq_ok_iff.mp hlocate
  obtain ⟨d, hd⟩ := Dir.exists_folder_of_look hfolder
  rw [isSound, Bool.and_eq_true] at hsound
  have hinner : d.isSound = true := Dir.isSound_of_folder hsound.1 hd
  exact ⟨d, hinner, Dir.look_append hd, isListable_iff hinner hlocate hd,
    sourcesBelow_of_folder hlocate hd⟩

/-- The sources of a directory are those below the path that leads to it. -/
theorem mem_sources_iff_isSourceBelow {d : Dir} (hsound : d.isSound = true)
    (hlook : ∀ names, fs.look (p.resolve fs.cwd ++ names) = d.look names) {names : List String} :
    names ∈ d.sources ↔ fs.IsSourceBelow p names := by
  rw [Dir.mem_sources_iff hsound, isSource_iff]
  constructor
  · rintro ⟨⟨content, hfile⟩, hextension, hdirs⟩
    refine ⟨⟨content, (hlook names).trans hfile⟩, ?_, hdirs⟩
    rw [Dir.suffix_join_of_look hfile p, hextension]
  · rintro ⟨⟨content, hfile⟩, hextension, hdirs⟩
    rw [hlook] at hfile
    rw [Dir.suffix_join_of_look hfile p] at hextension
    exact ⟨⟨content, hfile⟩, hextension, hdirs⟩

/-- **What a search for sources finds**, below a directory of a sound file system. If something that
it has to look at is out of reach, it fails. Otherwise it finds exactly the sources below the
directory, each once, in the order of their names; and the same names below every other directory,
wherever it is, that has the same files and folders below it and can be searched. -/
theorem sources_below (hsound : fs.isSound = true) (hdir : fs.isDir p = true) :
    (¬ fs.IsSearchable p → fs.sources p = .error .tooLong) ∧
      (fs.IsSearchable p → ∃ paths, fs.sources p = .ok paths ∧
        (∀ q, q ∈ paths ↔ ∃ names, q = p.join names ∧ fs.IsSourceBelow p names) ∧
        paths.Nodup ∧ paths.Pairwise (fun a b => a.parts < b.parts) ∧
        ∀ (other : Files) (r : Path), other.isSound = true → other.isDir r = true →
          other.IsSearchable r → fs.SameBelow p other r →
            ∃ found : List (List String), paths = found.map p.join ∧
              other.sources r = .ok (found.map r.join)) := by
  obtain ⟨d, hd, hlook, hlistable, hsearch⟩ := exists_folder_of_isDir hsound hdir
  constructor
  · intro hnot
    rw [sources, hsearch, if_neg (mt hlistable.mp hnot)]
    rfl
  · intro hreach
    have hordered : (d.sources.map p.join).Pairwise fun a b => a.parts < b.parts :=
      List.pairwise_map.mpr ((Dir.pairwise_sources hd).imp List.append_left_lt)
    refine ⟨d.sources.map p.join, ?_, fun q => ?_, ?_, hordered, ?_⟩
    · rw [sources, hsearch, if_pos (hlistable.mpr hreach)]
      rfl
    · simp only [List.mem_map, mem_sources_iff_isSourceBelow hd hlook, eq_comm, and_comm]
    · refine hordered.imp ?_
      rintro a b h rfl
      exact lt_irrefl _ h
    · -- the way to the other directory is in its paths only, not in the names below it
      intro other r hother hdir' hreach' hsame
      obtain ⟨d', hd', hlook', hlistable', hsearch'⟩ := exists_folder_of_isDir hother hdir'
      have hsources : d.sources = d'.sources := Dir.sources_eq hd hd' fun names => by
        rw [← hlook, ← hlook', hsame]
      refine ⟨d.sources, rfl, ?_⟩
      rw [sources, hsearch', if_pos (hlistable'.mpr hreach'), hsources]
      rfl

/-- A directory with sources, some of them skipped. -/
def scatteredSources : Dir :=
  .file ".cs" [] (.folder "a" (.file "b.cs" [] .empty) (.file "a.cs" []
    (.folder "bin" (.file "x.cs" [] .empty) (.file "c.CS" []
      (.folder "x.cs" (.file "y.cs" [] .empty) .empty)))))

/-- The directory at two places, one of them below names that are skipped. -/
def movedSources : Files :=
  ⟨.folder "bin" (.folder "obj" scatteredSources .empty) (.folder "s" scatteredSources .empty), []⟩

/-- The sources are the same below both directories. A directory comes before a file whose name
starts with its name, and may be named like a source. -/
theorem sources_below_movedSources :
    let names := [["a", "b.cs"], ["a.cs"], ["c.CS"], ["x.cs", "y.cs"]]
    movedSources.sources ⟨.here, ["s"]⟩ = .ok (names.map (Path.join ⟨.here, ["s"]⟩)) ∧
      movedSources.sources ⟨.here, ["bin", "obj"]⟩ =
        .ok (names.map (Path.join ⟨.here, ["bin", "obj"]⟩)) := by
  intro names
  have hsound : movedSources.isSound = true := by decide +kernel
  have hfound : movedSources.sources ⟨.here, ["s"]⟩ =
      .ok (names.map (Path.join ⟨.here, ["s"]⟩)) := by
    have hfiles : scatteredSources.files.filter isSource = names := by decide +kernel
    have hbelow : movedSources.sourcesBelow ⟨.here, ["s"]⟩ =
        .ok (scatteredSources.files.filter isSource) :=
      sourcesBelow_of_sorted rfl rfl (by decide +kernel) (by decide +kernel)
    rw [sources, hbelow, hfiles]
    rfl
  have hsearch := (sources_below (p := ⟨.here, ["s"]⟩) hsound (by decide +kernel)).2
    ((isListable_iff (by decide +kernel) rfl rfl).mp (by decide +kernel))
  obtain ⟨paths, hpaths, -, -, -, hmoved⟩ := hsearch
  obtain ⟨found, rfl, hother⟩ := hmoved movedSources ⟨.here, ["bin", "obj"]⟩ hsound
    (by decide +kernel) ((isListable_iff (by decide +kernel) rfl rfl).mp (by decide +kernel))
    fun _ => rfl
  have hsame : found = names := by
    have hmap := Except.ok.inj (hpaths.symm.trans hfound)
    refine List.map_injective_iff.mpr (fun _ _ h => ?_) hmap
    exact List.append_cancel_left (congrArg Path.parts h)
  exact ⟨hfound, hsame ▸ hother⟩

/-! ## A source that is out of reach -/

/-- A source with a long name beside a directory to go through. -/
def farSource : Files :=
  ⟨.folder "d" .empty (.file "xxxxxxxxxxxxx.cs" [] .empty), []⟩

/-- Behind a detour the source is out of reach. The length of the detour is kept as a variable, so
that nothing is computed with it. -/
theorem sources_farSource_of_eq {n : Nat} (hn : n = 816) :
    farSource.isDir (detour n) = true ∧
      farSource.IsSourceBelow (detour n) ["xxxxxxxxxxxxx.cs"] ∧
      farSource.sources (detour n) = .error .tooLong := by
  have hlocate : farSource.locate (detour n) = .ok ((detour n).resolve farSource.cwd) :=
    Command.locate_detour rfl rfl hn.le
  have hresolve : (detour n).resolve farSource.cwd = [] := resolve_detour n
  have hentry : farSource.root.entry? ((detour n).resolve farSource.cwd) =
      some (.folder farSource.root) := by
    rw [hresolve]
    rfl
  have hfile : farSource.look ((detour n).resolve farSource.cwd ++ ["xxxxxxxxxxxxx.cs"]) =
      .file [] := by
    rw [hresolve]
    rfl
  refine ⟨isDir_eq_true_iff.mpr ⟨_, hlocate, by rw [hresolve]; rfl⟩, ⟨⟨[], hfile⟩, ?_, by simp⟩, ?_⟩
  · rw [Path.suffix_join _ (List.cons_ne_nil _ [])]
    decide +kernel
  · have hlong : ¬ isShort ((detour n).join ["xxxxxxxxxxxxx.cs"]) = true := by
      have hsize : (["xxxxxxxxxxxxx.cs"].map fun name => 1 + name.utf8ByteSize).sum = 17 := by
        decide
      -- five bytes for each step of the detour
      rw [Command.isShort_join_detour (List.cons_ne_nil _ []), hsize]
      omega
    have hnot : ¬ farSource.root.isListable (detour n) = true := fun hlistable =>
      hlong (isShort_of_isListable hlistable (by decide +kernel) (by decide +kernel))
    rw [sources, sourcesBelow_of_folder hlocate hentry, if_neg hnot]
    rfl

/-- A search fails although there is a source to find. -/
theorem sources_farSource :
    farSource.isSound = true ∧ farSource.isDir (detour 816) = true ∧
      farSource.IsSourceBelow (detour 816) ["xxxxxxxxxxxxx.cs"] ∧
      ∀ paths, farSource.sources (detour 816) ≠ .ok paths := by
  obtain ⟨hdir, hsource, hfails⟩ := sources_farSource_of_eq rfl
  refine ⟨by decide +kernel, hdir, hsource, fun paths hpaths => ?_⟩
  rw [hfails] at hpaths
  cases hpaths

end Files

end ClassChart
