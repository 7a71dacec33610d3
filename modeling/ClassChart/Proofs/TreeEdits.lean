import ClassChart.Proofs.FileAccess
import Mathlib.Logic.Relation

/-!
# Edits of a file system

Writing files and making directories come down to two kinds of edits: an empty folder is put where
nothing was, or a file where no folder is. Whatever becomes of a sequence of such edits, folders stay
folders and files stay files, and content changes only where a file may be written.

## Main definitions

* `Files.Edit`: one edit, which writes files only at given places
* `Files.Edits`: a sequence of edits
* `Files.Grows`: what edits do to what stands where

## Main results

* `Files.write_eq_ok_iff`, `Files.ensureDir_eq_ok`: what the single accesses do
* `Files.edits_makeDirs`: making directories is a sequence of edits, also if it fails on the way
* `Files.Edits.grows`: what a sequence of edits does
* `Files.read_of_write`, `Files.read_of_makeDirs_write`: what was written can be read
* `Files.makeDirs_of_folders`: directories that are there are not made again
-/

namespace ClassChart.Files

open Text (Bytes)

variable {fs made next : Files} {p : Path}

/-! ## Single accesses -/

/-- **Writing a file** succeeds where its path leads to a folder, and puts the file there. -/
theorem write_eq_ok_iff {content : Bytes} :
    fs.write p content = .ok next ↔
      p.Fits ∧ (∀ r ∈ p.passed fs.cwd, fs.look r = .folder) ∧
        fs.look (p.resolve fs.cwd) ≠ .folder ∧
        next = { fs with root := fs.root.insert (.file content) (p.resolve fs.cwd) } := by
  cases hlocate : fs.locate p with
  | error fault =>
    have hnot : ¬ (p.Fits ∧ ∀ r ∈ p.passed fs.cwd, fs.look r = .folder) := by
      rintro ⟨hfits, hpassed⟩
      rw [locate_eq_ok_iff.mpr ⟨hfits, hpassed, rfl⟩] at hlocate
      cases hlocate
    simp only [write, hlocate, bind, Except.bind, reduceCtorEq, false_iff]
    exact fun h => hnot ⟨h.1, h.2.1⟩
  | ok place =>
    obtain ⟨hfits, hpassed, rfl⟩ := locate_eq_ok_iff.mp hlocate
    rw [write_of_locate hlocate]
    cases hlook : fs.look (p.resolve fs.cwd) with
    | folder => simp
    | nothing | file => simp [hfits, eq_comm (a := next), and_iff_right hpassed]

/-- A directory that is there after it was made was there before or is a new empty folder. -/
theorem ensureDir_eq_ok (h : fs.ensureDir p = .ok next) :
    p.Fits ∧ (∀ r ∈ p.passed fs.cwd, fs.look r = .folder) ∧
      (fs.look (p.resolve fs.cwd) = .folder ∧ next = fs ∨
        fs.look (p.resolve fs.cwd) = .nothing ∧
          next = { fs with root := fs.root.insert (.folder .empty) (p.resolve fs.cwd) }) := by
  rw [ensureDir] at h
  cases hlocate : fs.locate p with
  | error fault =>
    have hdir : fs.isDir p = false := by
      simp only [isDir, entry?, hlocate]
    simp [makeDir, hlocate, bind, Except.bind, hdir] at h
  | ok place =>
    obtain ⟨hfits, hpassed, rfl⟩ := locate_eq_ok_iff.mp hlocate
    refine ⟨hfits, hpassed, ?_⟩
    rw [makeDir_of_locate hlocate] at h
    cases hlook : fs.look (p.resolve fs.cwd) with
    | nothing =>
      rw [hlook] at h
      exact .inr ⟨rfl, (Except.ok.inj h).symm⟩
    -- what is there is only accepted if it is a directory
    | folder | file =>
      rw [hlook] at h
      simp only at h
      split at h
      · rename_i hdir
        obtain ⟨q, hq, hfolder⟩ := isDir_eq_true_iff.mp hdir
        rw [hlocate] at hq
        cases hq
        rw [hlook] at hfolder
        exact .inl ⟨hfolder, (Except.ok.inj h).symm⟩
      · cases h

/-! ## Edits -/

/-- One edit of a file system: a new empty folder, or a file in a place `P`, new or instead of the
file that was there. -/
inductive Edit (P : List String → Prop) (fs : Files) : Files → Prop
  | folder {place : List String} {name : String} (hplace : fs.look place = .folder)
    (hfree : fs.look (place ++ [name]) = .nothing) :
    Edit P fs { fs with root := fs.root.insert (.folder .empty) (place ++ [name]) }
  | file {place : List String} {name : String} (content : Bytes) (hplace : fs.look place = .folder)
    (hnot : fs.look (place ++ [name]) ≠ .folder) (hP : P (place ++ [name])) :
    Edit P fs { fs with root := fs.root.insert (.file content) (place ++ [name]) }

/-- A sequence of edits. -/
def Edits (P : List String → Prop) : Files → Files → Prop :=
  Relation.ReflTransGen (Edit P)

/-- The file system `next` has all folders and files of `fs`, with new content only in places `P`,
and new folders where there was nothing. -/
structure Grows (P : List String → Prop) (fs next : Files) : Prop where
  cwd_eq : next.cwd = fs.cwd
  look_cases : ∀ q, next.look q = fs.look q ∨
    (P q ∧ fs.look q ≠ .folder ∧ ∃ content, next.look q = .file content) ∨
    fs.look q = .nothing ∧ next.look q = .folder

variable {P : List String → Prop}

theorem Grows.refl (fs : Files) : Grows P fs fs :=
  ⟨rfl, fun _ => .inl rfl⟩

theorem Grows.trans (h : Grows P fs made) (k : Grows P made next) : Grows P fs next where
  cwd_eq := k.cwd_eq.trans h.cwd_eq
  look_cases := by
    intro q
    rcases k.look_cases q with hk | ⟨hP, hnot, hfile⟩ | ⟨hnothing, hfolder⟩
    · rw [hk]
      exact h.look_cases q
    · -- a file comes where no folder was, and so no folder was there at the beginning
      refine .inr (.inl ⟨hP, ?_, hfile⟩)
      rcases h.look_cases q with hh | ⟨-, hnotBefore, -⟩ | ⟨hnothing, -⟩
      · rwa [← hh]
      · exact hnotBefore
      · rw [hnothing]
        nofun
    · -- a folder comes where nothing was, and so nothing was put there before
      rcases h.look_cases q with hh | ⟨-, -, content, hfile⟩ | ⟨-, hfolderMade⟩
      · exact .inr (.inr ⟨hh ▸ hnothing, hfolder⟩)
      · rw [hfile] at hnothing
        cases hnothing
      · rw [hfolderMade] at hnothing
        cases hnothing

theorem Grows.look_folder (h : Grows P fs next) {q : List String} (hq : fs.look q = .folder) :
    next.look q = .folder := by
  rcases h.look_cases q with hsame | ⟨-, hnot, -⟩ | ⟨hnothing, -⟩
  · rw [hsame, hq]
  · exact absurd hq hnot
  · rw [hq] at hnothing
    cases hnothing

/-- Every path still starts at a folder. -/
theorem Grows.look_base (h : Grows P fs next) (hbase : fs.look (p.base fs.cwd) = .folder) :
    next.look (p.base next.cwd) = .folder := by
  rw [h.cwd_eq]
  exact h.look_folder hbase

/-- **A file that can be read** can still be read, with other content only in a place `P`. -/
theorem Grows.read_of_read (h : Grows P fs next) {content : Bytes} (hread : fs.read p = .ok content) :
    (∃ now, next.read p = .ok now) ∧
      (¬ P (p.resolve fs.cwd) → next.read p = .ok content) := by
  obtain ⟨hfits, hpassed, hlook⟩ := read_eq_ok_iff.mp hread
  have hway : ∀ r ∈ p.passed next.cwd, next.look r = .folder := by
    intro r hr
    rw [h.cwd_eq] at hr
    exact h.look_folder (hpassed r hr)
  have hreads : ∀ {now}, next.look (p.resolve fs.cwd) = .file now → next.read p = .ok now := by
    intro now hnow
    exact read_eq_ok_iff.mpr ⟨hfits, hway, by rwa [h.cwd_eq]⟩
  rcases h.look_cases (p.resolve fs.cwd) with hsame | ⟨hP, -, now, hnow⟩ | ⟨hnothing, -⟩
  · rw [hlook] at hsame
    exact ⟨⟨content, hreads hsame⟩, fun _ => hreads hsame⟩
  · exact ⟨⟨now, hreads hnow⟩, fun hnot => absurd hP hnot⟩
  · rw [hlook] at hnothing
    cases hnothing

/-- **What one edit does.** -/
theorem Edit.grows (h : Edit P fs next) : Grows P fs next := by
  cases h with
  | @folder place name hplace hfree =>
    refine ⟨rfl, fun q => ?_⟩
    have hlook := Dir.look_insert (e := .folder .empty) rfl hplace (by rw [← look, hfree]; simp) q
    by_cases hq : q = place ++ [name]
    · rw [if_pos hq] at hlook
      exact .inr (.inr ⟨by rw [hq, hfree], hlook⟩)
    · rw [if_neg hq] at hlook
      exact .inl hlook
  | @file place name content hplace hnot hP =>
    refine ⟨rfl, fun q => ?_⟩
    have hlook := Dir.look_insert (e := .file content) rfl hplace hnot q
    by_cases hq : q = place ++ [name]
    · rw [if_pos hq] at hlook
      exact .inr (.inl ⟨hq ▸ hP, hq ▸ hnot, content, hlook⟩)
    · rw [if_neg hq] at hlook
      exact .inl hlook

/-- **What a sequence of edits does.** -/
theorem Edits.grows (h : Edits P fs next) : Grows P fs next := by
  induction h with
  | refl => exact .refl fs
  | tail _ hstep ih => exact ih.trans hstep.grows

theorem Edits.mono {Q : List String → Prop} (hPQ : ∀ q, P q → Q q) (h : Edits P fs next) :
    Edits Q fs next := by
  refine Relation.ReflTransGen.mono (fun fs next hstep => ?_) _ _ h
  cases hstep with
  | folder hplace hfree => exact .folder hplace hfree
  | file content hplace hnot hP => exact .file content hplace hnot (hPQ _ hP)

/-! ## Writing -/

theorem edit_write (hbase : fs.look (p.base fs.cwd) = .folder) (hP : P (p.resolve fs.cwd))
    {content : Bytes} (h : fs.write p content = .ok next) : Edit P fs next := by
  obtain ⟨-, hpassed, hnot, rfl⟩ := write_eq_ok_iff.mp h
  obtain ⟨place, name, hresolve, hplace⟩ := resolve_eq_concat hbase hpassed hnot
  rw [hresolve] at hP hnot ⊢
  exact .file content hplace hnot hP

/-- **What was written can be read.** -/
theorem read_of_write (hbase : fs.look (p.base fs.cwd) = .folder) {content : Bytes}
    (h : fs.write p content = .ok next) : next.read p = .ok content := by
  obtain ⟨hfits, hpassed, hnot, rfl⟩ := write_eq_ok_iff.mp h
  have hlook := look_insert (e := .file content) rfl hbase hpassed hnot
  refine read_eq_ok_iff.mpr ⟨hfits, ?_, ?_⟩
  · intro r hr
    have hfolder := hpassed r hr
    -- the file is no place on the way to it, as those are folders
    have hne : r ≠ p.resolve fs.cwd := by
      rintro rfl
      exact hnot hfolder
    rw [hlook, if_neg hne, hfolder]
  · rw [hlook]
    exact if_pos rfl

/-! ## Making directories -/

theorem edits_ensureDir (hbase : fs.look (p.base fs.cwd) = .folder)
    (h : fs.ensureDir p = .ok next) : Edits P fs next := by
  obtain ⟨-, hpassed, ⟨-, rfl⟩ | ⟨hnothing, rfl⟩⟩ := ensureDir_eq_ok h
  · exact .refl
  · obtain ⟨place, name, hresolve, hplace⟩ :=
      resolve_eq_concat hbase hpassed (by rw [hnothing]; nofun)
    rw [hresolve] at hnothing ⊢
    exact .single (.folder hplace hnothing)

/-- The directories are made from the outermost one inwards, by the names from the last to the
first. -/
theorem edits_makeDirsUp (anchor : Anchor) (names : List String) {fs : Files}
    (hbase : fs.look (Path.base fs.cwd ⟨anchor, []⟩) = .folder) :
    Edits P fs (makeDirsUp anchor names fs).2 := by
  induction names generalizing fs with
  | nil =>
    rw [makeDirsUp]
    cases hdir : fs.ensureDir ⟨anchor, []⟩ with
    | ok next => exact edits_ensureDir hbase hdir
    | error fault => exact .refl
  | cons name before ih =>
    have hbase' : fs.look (Path.base fs.cwd ⟨anchor, (name :: before).reverse⟩) = .folder := hbase
    rw [makeDirsUp]
    split
    · rename_i next hdir
      exact edits_ensureDir hbase' hdir
    · -- what is missing on the way is made first
      have hmade := ih hbase
      split
      · rename_i made hup
        rw [hup] at hmade
        have hbaseMade : made.look (Path.base made.cwd ⟨anchor, (name :: before).reverse⟩) =
            .folder := hmade.grows.look_base hbase'
        split
        · rename_i next hdir
          exact hmade.trans (edits_ensureDir hbaseMade hdir)
        · exact hmade
      · rename_i fault made hup
        rw [hup] at hmade
        exact hmade
    · exact .refl

/-- **Making directories is a sequence of edits**, also if it fails on the way. -/
theorem edits_makeDirs (hbase : fs.look (p.base fs.cwd) = .folder) :
    Edits P fs (fs.makeDirs p).2 :=
  edits_makeDirsUp p.anchor p.parts.reverse hbase

/-- **A file that was written after its directory was made** can be read. -/
theorem read_of_makeDirs_write (hbase : fs.look (p.base fs.cwd) = .folder)
    (hmade : fs.makeDirs p.parent = (.ok (), made)) {content : Bytes}
    (h : made.write p content = .ok next) : next.read p = .ok content := by
  have hedits := edits_makeDirs (P := fun _ => False) (p := p.parent) hbase
  rw [hmade] at hedits
  -- whatever directories were made, paths start where they did
  exact read_of_write (hedits.grows.look_base hbase) h

/-- Directories that are there are not made again. -/
theorem makeDirs_of_folders (hfits : p.Fits) (h : ∀ q, p.IsPlace fs.cwd q → fs.look q = .folder) :
    fs.makeDirs p = (.ok (), fs) := by
  have hlocate := locate_eq_ok_iff.mpr ⟨hfits, fun r hr => h r (.inl hr), rfl⟩
  have hensure : fs.ensureDir p = .ok fs := ensureDir_of_folder hlocate (h _ (.inr rfl))
  have hpath (names : List String) (hnames : p.parts.reverse = names) :
      (⟨p.anchor, names.reverse⟩ : Path) = p := by
    rw [← hnames, List.reverse_reverse]
  rw [makeDirs]
  cases hnames : p.parts.reverse with
  | nil =>
    have hp := hpath _ hnames
    rw [List.reverse_nil] at hp
    rw [makeDirsUp, hp, hensure]
  | cons name before =>
    rw [makeDirsUp]
    simp only [hpath _ hnames, hensure]

end ClassChart.Files
