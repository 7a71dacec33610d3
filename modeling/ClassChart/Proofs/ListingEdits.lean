import ClassChart.Proofs.SourceListing
import ClassChart.Proofs.TreeEdits

/-!
# The sources found after edits

A run over a directory may write into the directory that it has searched. New folders are empty and
the files that it writes are no sources, so that a search finds the same sources again, in the same
order. It can fail on one account only: a new folder below the directory may have a path that is too
long to look into.

## Main definitions

* `Dir.Keeps`: a directory in which the same sources are found
* `Files.IsShortBelow`: no folder below a path is out of reach

## Main results

* `Dir.entry?_insert`: a folder after an insertion
* `Dir.keeps_insert_folder`, `Dir.keeps_insert_file`: the two kinds of edits
* `Files.Edits.keeps`: what a sequence of edits keeps
* `Files.Edits.sourcesBelow_eq`: what a search finds after edits
* `Files.Edits.exists_new_folder`: what can keep a search from succeeding
-/

namespace ClassChart

open Text (Bytes)

namespace Dir

variable {d inner : Dir} {name : String} {e : Entry} {p : Path} {place : List String}

/-! ## A folder after an insertion -/

/-- **A folder after an insertion** has in it what was inserted below it, and nothing else new. -/
theorem entry?_insert {root : Dir} {base : List String} (e : Entry)
    (hd : root.entry? base = some (.folder d)) (hplace : root.look place = .folder)
    (hnot : root.look (place ++ [name]) ≠ .folder) :
    (∃ rest, place = base ++ rest ∧ Dir.entry? (root.insert e (place ++ [name])) base =
        some (.folder (d.insert e (rest ++ [name])))) ∨
      Dir.entry? (root.insert e (place ++ [name])) base = some (.folder d) := by
  induction base generalizing root place with
  | nil =>
    cases hd
    exact .inl ⟨place, rfl, rfl⟩
  | cons n base ih =>
    obtain ⟨inner, hn, hinner⟩ := exists_find?_of_entry? hd
    cases place with
    | nil =>
      -- the name of the new entry is none of a folder
      have hne : name ≠ n := by
        rintro rfl
        rw [List.nil_append, look_cons, hn] at hnot
        exact hnot rfl
      refine .inr ?_
      rw [List.nil_append, insert, entry?_cons_of_find? (by rw [find?_put, if_neg hne, hn]), hinner]
    | cons m place =>
      obtain ⟨next, hm, hnext⟩ := look_cons_eq_folder hplace
      rw [List.cons_append, insert_cons hm (by simp)]
      -- the two places part here, or the folder of the name is where to look further
      by_cases hmn : m = n
      · subst hmn
        obtain rfl : next = inner := by simpa [hm] using hn
        rw [List.cons_append, look_cons, hm] at hnot
        rw [entry?_cons_of_find? (by rw [find?_put, if_pos rfl])]
        rcases ih hinner hnext hnot with ⟨rest, rfl, hrest⟩ | hsame
        · exact .inl ⟨rest, rfl, hrest⟩
        · exact .inr hsame
      · refine .inr ?_
        rw [entry?_cons_of_find? (by rw [find?_put, if_neg hmn, hn]), hinner]

/-! ## The files of a directory after an insertion -/

theorem files_cons (name : String) (e : Entry) (rest : Dir) :
    (cons name e rest).files = (cons name e .empty).files ++ rest.files := by
  cases e <;> simp [cons, files]

/-- Of the files of a directory those are kept that are kept of an entry. -/
theorem filter_files_put {keep : List String → Bool}
    (h : (cons name e .empty).files.filter keep =
      (d.find? name).elim [] fun old => (cons name old .empty).files.filter keep) :
    (d.put name e).files.filter keep = d.files.filter keep := by
  -- the entry takes the place of an old one of its name
  have hcons (old : Entry) (rest : Dir)
      (hold : (cons name e .empty).files.filter keep = (cons name old .empty).files.filter keep) :
      (cons name e rest).files.filter keep = (cons name old rest).files.filter keep := by
    rw [files_cons, files_cons name old, List.filter_append, List.filter_append, hold]
  induction d with
  | empty => exact h
  | file n content rest ih =>
    rw [find?] at h
    rw [put]
    split
    · rename_i hn
      subst hn
      rw [if_pos rfl] at h
      exact hcons (.file content) rest h
    · rename_i hn
      rw [if_neg hn] at h
      rw [files, files, List.filter_cons, List.filter_cons, ih h]
  | folder n found rest _ ih =>
    rw [find?] at h
    rw [put]
    split
    · rename_i hn
      subst hn
      rw [if_pos rfl] at h
      exact hcons (.folder found) rest h
    · rename_i hn
      rw [if_neg hn] at h
      rw [files, files, List.filter_append, List.filter_append, ih h]

/-- Of the files of a directory those are kept that are kept of the folder with the new entry. -/
theorem filter_files_insert (keep : List String → Bool)
    (hd : d.entry? place = some (.folder inner))
    (h : (inner.put name e).files.filter (fun q => keep (place ++ q)) =
      inner.files.filter fun q => keep (place ++ q)) :
    (d.insert e (place ++ [name])).files.filter keep = d.files.filter keep := by
  induction place generalizing d keep with
  | nil =>
    cases hd
    exact h
  | cons n place ih =>
    obtain ⟨next, hn, hnext⟩ := exists_find?_of_entry? hd
    -- in the folder of the name, files are kept by the names that lead to them from outside
    have hinner := ih (fun q => keep (n :: q)) hnext h
    rw [List.cons_append, insert_cons hn (by simp)]
    apply filter_files_put
    rw [hn, Option.elim_some]
    simp only [cons, files, List.append_nil, List.filter_map, Function.comp_def, hinner]

/-! ## Searching a directory after an insertion -/

theorem isListable_put (h : d.isListable p = true)
    (he : (cons name e .empty).isListable p = true) : (d.put name e).isListable p = true := by
  have hcons (rest : Dir) (hrest : rest.isListable p = true) :
      (cons name e rest).isListable p = true := by
    cases e <;> simp_all [cons, isListable]
  induction d with
  | empty => exact he
  | file n content rest ih | folder n found rest _ ih =>
    simp only [isListable, Bool.and_eq_true] at h
    rw [put]
    split
    · exact hcons rest h.2
    · simp only [isListable, Bool.and_eq_true]
      exact ⟨h.1, ih h.2⟩

/-- In a directory that can be searched, every folder is within reach and can be searched. -/
theorem isListable_of_find? {n : String} (h : d.isListable p = true)
    (hn : d.find? n = some (.folder inner)) :
    Files.isShort (p.join [n]) = true ∧ inner.isListable (p.join [n]) = true := by
  induction d with
  | empty => cases hn
  | file m content rest ih =>
    simp only [isListable, Bool.and_eq_true] at h
    rw [find?] at hn
    split at hn
    · cases hn
    · exact ih h.2 hn
  | folder m found rest _ ih =>
    simp only [isListable, Bool.and_eq_true] at h
    rw [find?] at hn
    split at hn
    · rename_i hm
      cases hn
      exact hm ▸ h.1
    · exact ih h.2 hn

theorem isListable_insert (h : d.isListable p = true) (hplace : d.look place = .folder)
    (he : (cons name e .empty).isListable (p.join place) = true) :
    (d.insert e (place ++ [name])).isListable p = true := by
  induction place generalizing d p with
  | nil => exact isListable_put h (by simpa [Path.join] using he)
  | cons n place ih =>
    obtain ⟨inner, hn, hinner⟩ := look_cons_eq_folder hplace
    obtain ⟨hshort, hlistable⟩ := isListable_of_find? h hn
    rw [List.cons_append, insert_cons hn (by simp)]
    apply isListable_put h
    simp only [cons, isListable, Bool.and_true, Bool.and_eq_true]
    refine ⟨hshort, ih hlistable hinner ?_⟩
    rwa [Path.join_join, List.singleton_append]

/-- **In a directory that can be searched** every folder below is within reach. -/
theorem isShort_of_look {names : List String} (h : d.isListable p = true) (hne : names ≠ [])
    (hlook : d.look names = .folder) : Files.isShort (p.join names) = true := by
  induction names generalizing d p with
  | nil => exact absurd rfl hne
  | cons n names ih =>
    obtain ⟨inner, hn, hinner⟩ := look_cons_eq_folder hlook
    obtain ⟨hshort, hlistable⟩ := isListable_of_find? h hn
    cases names with
    | nil => exact hshort
    | cons m names =>
      have hbelow := ih hlistable (List.cons_ne_nil m names) hinner
      rwa [Path.join_join, List.singleton_append] at hbelow

/-! ## The same sources -/

/-- The directory `next` at a path has the folders of `d` and the same sources. It can be searched
if `d` can and no folder in it is out of reach. -/
structure Keeps (p : Path) (d next : Dir) : Prop where
  look_folder : ∀ names, d.look names = .folder → next.look names = .folder
  sources_eq : next.sources = d.sources
  isListable : d.isListable p = true →
    (∀ names, next.look names = .folder → Files.isShort (p.join names) = true) →
    next.isListable p = true

theorem Keeps.refl (p : Path) (d : Dir) : Keeps p d d :=
  ⟨fun _ => id, rfl, fun h _ => h⟩

theorem Keeps.trans {made next : Dir} (h : Keeps p d made) (k : Keeps p made next) :
    Keeps p d next where
  look_folder names hnames := k.look_folder names (h.look_folder names hnames)
  sources_eq := k.sources_eq.trans h.sources_eq
  isListable hlistable hshort := by
    apply k.isListable _ hshort
    exact h.isListable hlistable fun names hnames => hshort names (k.look_folder names hnames)

/-- The folders of a directory are there after an insertion. -/
theorem look_folder_insert (he : e.isBare = true) (hplace : d.look place = .folder)
    (hnot : d.look (place ++ [name]) ≠ .folder) {names : List String}
    (hnames : d.look names = .folder) : (d.insert e (place ++ [name])).look names = .folder := by
  rw [look_insert he hplace hnot, if_neg _, hnames]
  rintro rfl
  exact hnot hnames

/-- **A new folder** has no sources in it. -/
theorem keeps_insert_folder (hplace : d.look place = .folder)
    (hfree : d.look (place ++ [name]) = .nothing) :
    Keeps p d (d.insert (.folder .empty) (place ++ [name])) := by
  have hnot : d.look (place ++ [name]) ≠ .folder := by
    rw [hfree]
    nofun
  refine ⟨fun names => look_folder_insert rfl hplace hnot, ?_, ?_⟩
  · obtain ⟨inner, hinner⟩ := exists_folder_of_look hplace
    have hnone : inner.find? name = none := by
      rw [look_append hinner, look_cons] at hfree
      cases hname : inner.find? name with
      | none => rfl
      | some found => cases found <;> simp [hname] at hfree
    unfold sources
    rw [filter_files_insert isSource hinner]
    apply filter_files_put
    rw [hnone]
    rfl
  · intro hlistable hshort
    apply isListable_insert hlistable hplace
    have hnew : (d.insert (.folder .empty) (place ++ [name])).look (place ++ [name]) = .folder := by
      rw [look_insert rfl hplace hnot, if_pos rfl]
      rfl
    simp only [cons, isListable, Bool.and_true, Path.join_join]
    exact hshort _ hnew

/-- **A file that is no source**, new or instead of another file of its name, is not found. -/
theorem keeps_insert_file (content : Bytes) (hplace : d.look place = .folder)
    (hnot : d.look (place ++ [name]) ≠ .folder) (hname : languageOf? ⟨.here, [name]⟩ = none) :
    Keeps p d (d.insert (.file content) (place ++ [name])) := by
  refine ⟨fun names => look_folder_insert rfl hplace hnot, ?_, ?_⟩
  · obtain ⟨inner, hinner⟩ := exists_folder_of_look hplace
    have hskipped : isSource (place ++ [name]) = false := by
      have hjoin : languageOf? ⟨.here, place ++ [name]⟩ = none := by
        rw [← hname]
        exact languageOf?_join ⟨.here, place⟩ (List.cons_ne_nil name [])
      rw [isSource, hjoin]
      rfl
    unfold sources
    rw [filter_files_insert isSource hinner]
    apply filter_files_put
    -- neither the new file nor the one it replaces is a source
    cases hold : inner.find? name with
    | none => simp [cons, files, hskipped]
    | some old =>
      cases old with
      | file old => simp [cons, files]
      | folder found =>
        rw [look_append hinner, look_cons, hold] at hnot
        exact absurd rfl hnot
  · intro hlistable _
    apply isListable_insert hlistable hplace
    rw [cons, isListable, languageOf?_join _ (List.cons_ne_nil name []), hname]
    rfl

end Dir

namespace Files

variable {P : List String → Prop} {fs next : Files} {input : Path}

/-! ## Searching after edits -/

/-- No folder below a path is out of reach from it. -/
def IsShortBelow (fs : Files) (input : Path) : Prop :=
  ∀ names, fs.look (input.resolve fs.cwd ++ names) = .folder → isShort (input.join names) = true

/-- **One edit keeps the sources of a directory** if no source may be written. -/
theorem Edit.keeps (h : Edit P fs next) (hP : ∀ q, P q → languageOf? ⟨.here, q⟩ = none) (p : Path)
    {base : List String} {d : Dir} (hd : fs.root.entry? base = some (.folder d)) :
    ∃ after, next.root.entry? base = some (.folder after) ∧ d.Keeps p after := by
  cases h with
  | @folder place name hplace hfree =>
    have hnot : fs.root.look (place ++ [name]) ≠ .folder := by
      rw [← look, hfree]
      intro hfolder
      cases hfolder
    -- the new folder is below the directory, or the directory is as it was
    rcases Dir.entry?_insert (.folder .empty) hd hplace hnot with ⟨rest, rfl, hrest⟩ | hsame
    · rw [look, Dir.look_append hd] at hplace
      rw [look, List.append_assoc, Dir.look_append hd] at hfree
      exact ⟨_, hrest, Dir.keeps_insert_folder hplace hfree⟩
    · exact ⟨d, hsame, .refl p d⟩
  | @file place name content hplace hnot hfile =>
    rcases Dir.entry?_insert (.file content) hd hplace hnot with ⟨rest, rfl, hrest⟩ | hsame
    · have hname : languageOf? ⟨.here, [name]⟩ = none := by
        rw [← hP _ hfile]
        exact (languageOf?_join ⟨.here, base ++ rest⟩ (List.cons_ne_nil name [])).symm
      rw [look, Dir.look_append hd] at hplace
      rw [look, List.append_assoc, Dir.look_append hd] at hnot
      exact ⟨_, hrest, Dir.keeps_insert_file content hplace hnot hname⟩
    · exact ⟨d, hsame, .refl p d⟩

/-- **A sequence of edits keeps the sources of a directory** if no source may be written. -/
theorem Edits.keeps (h : Edits P fs next) (hP : ∀ q, P q → languageOf? ⟨.here, q⟩ = none) (p : Path)
    {base : List String} {d : Dir} (hd : fs.root.entry? base = some (.folder d)) :
    ∃ after, next.root.entry? base = some (.folder after) ∧ d.Keeps p after := by
  induction h with
  | refl => exact ⟨d, hd, .refl p d⟩
  | tail _ hstep ih =>
    obtain ⟨made, hmade, hkeeps⟩ := ih
    obtain ⟨after, hafter, hlast⟩ := hstep.keeps hP p hmade
    exact ⟨after, hafter, hkeeps.trans hlast⟩

/-- Where a directory can be searched, no folder below it is out of reach. -/
theorem isShortBelow_of_isListable {d : Dir}
    (hlocate : fs.locate input = .ok (input.resolve fs.cwd))
    (hd : fs.root.entry? (input.resolve fs.cwd) = some (.folder d))
    (hlistable : d.isListable input = true) : fs.IsShortBelow input := by
  intro names hnames
  rw [look, Dir.look_append hd] at hnames
  cases names with
  | nil => simpa [Path.join] using (locate_eq_ok_iff.mp hlocate).1.short
  | cons n names => exact Dir.isShort_of_look hlistable (List.cons_ne_nil n names) hnames

/-- Where a search succeeds, no folder is out of reach. -/
theorem isShortBelow_of_sourcesBelow (hdir : fs.isDir input = true) {sources : List (List String)}
    (h : fs.sourcesBelow input = .ok sources) : fs.IsShortBelow input := by
  obtain ⟨place, hlocate, hfolder⟩ := isDir_eq_true_iff.mp hdir
  obtain ⟨-, -, rfl⟩ := locate_eq_ok_iff.mp hlocate
  obtain ⟨d, hd⟩ := Dir.exists_folder_of_look hfolder
  rw [sourcesBelow_of_folder hlocate hd] at h
  split at h
  · rename_i hlistable
    exact isShortBelow_of_isListable hlocate hd hlistable
  · cases h

/-- A folder that is out of reach after edits was made by them, where a search succeeded before. -/
theorem Edits.exists_new_folder (h : Edits P fs next) (hdir : fs.isDir input = true)
    {sources : List (List String)} (hsources : fs.sourcesBelow input = .ok sources)
    (hlong : ¬ next.IsShortBelow input) :
    ∃ names, fs.look (input.resolve fs.cwd ++ names) = .nothing ∧
      next.look (input.resolve fs.cwd ++ names) = .folder ∧ isShort (input.join names) = false := by
  obtain ⟨names, hfolder, hfar⟩ : ∃ names, next.look (input.resolve next.cwd ++ names) = .folder ∧
      ¬ isShort (input.join names) = true := by
    simpa [IsShortBelow] using hlong
  rw [h.grows.cwd_eq] at hfolder
  refine ⟨names, ?_, hfolder, by simpa using hfar⟩
  rcases h.grows.look_cases (input.resolve fs.cwd ++ names) with
    hsame | ⟨-, -, content, hfile⟩ | ⟨hnew, -⟩
  · -- a folder that was there before was within reach
    rw [hsame] at hfolder
    exact absurd (isShortBelow_of_sourcesBelow hdir hsources names hfolder) hfar
  · rw [hfile] at hfolder
    cases hfolder
  · exact hnew

/-- **What a search finds after edits**: the same as before, unless a folder is out of reach. -/
theorem Edits.sourcesBelow_eq (h : Edits P fs next)
    (hP : ∀ q, P q → languageOf? ⟨.here, q⟩ = none) (hdir : fs.isDir input = true)
    {sources : List (List String)} (hsources : fs.sourcesBelow input = .ok sources) :
    (next.IsShortBelow input → next.sourcesBelow input = .ok sources) ∧
      (¬ next.IsShortBelow input → next.sourcesBelow input = .error .tooLong) := by
  obtain ⟨place, hlocate, hfolder⟩ := isDir_eq_true_iff.mp hdir
  obtain ⟨hfits, hpassed, rfl⟩ := locate_eq_ok_iff.mp hlocate
  obtain ⟨d, hd⟩ := Dir.exists_folder_of_look hfolder
  obtain ⟨after, hafter, hkeeps⟩ := h.keeps hP input hd
  have hcwd := h.grows.cwd_eq
  rw [← hcwd] at hafter
  -- the path still leads through folders
  have hthere : next.locate input = .ok (input.resolve next.cwd) := by
    refine locate_eq_ok_iff.mpr ⟨hfits, fun r hr => ?_, rfl⟩
    rw [hcwd] at hr
    exact h.grows.look_folder (hpassed r hr)
  have hsearch := sourcesBelow_of_folder hthere hafter
  rw [sourcesBelow_of_folder hlocate hd] at hsources
  split at hsources
  case isFalse => cases hsources
  case isTrue hlistable =>
    cases hsources
    constructor
    · intro hshort
      have hagain : after.isListable input = true := by
        refine hkeeps.isListable hlistable fun names hnames => hshort names ?_
        rw [look, Dir.look_append hafter, hnames]
      rw [hsearch, if_pos hagain, hkeeps.sources_eq]
    · intro hlong
      rw [hsearch, if_neg (mt (isShortBelow_of_isListable hthere hafter) hlong)]

end Files

end ClassChart
