import ClassChart.Proofs.FileTree
import Mathlib.Algebra.GroupWithZero.Nat
import Mathlib.Data.String.Lemmas

/-!
# Access to files by what stands where

A path passes some places before the one it leads to. It can be followed if a folder stands at each
of them and its lengths are within bounds. Reading, writing and making directories are described by
what stands at the places of a path before, and what stands where afterwards.

## Main definitions

* `passed`, `Path.passed`: the places that a path passes
* `Path.Fits`: a path within the bounds on lengths
* `Files.look`, `Files.isSound`: what stands at a place; a file system as there can be one

## Main results

* `Files.locate_eq_ok_iff`: when a path can be followed
* `Files.read_eq_ok_iff`: when a file can be read, and what is read
* `Files.write_ok`: what stands where after writing
* `Files.makeDirs_ok`: what stands where after making directories
-/

namespace ClassChart

open Text (Bytes)

/-! ## The places of a path -/

/-- The places that names pass from a place on, without the one they lead to. -/
def passed (place : List String) : List String → List (List String)
  | [] => []
  | name :: names => place :: passed (stepTo place name) names

/-- The places that a path passes, without the one it leads to. -/
def Path.passed (cwd : List String) (p : Path) : List (List String) :=
  ClassChart.passed (p.base cwd) p.parts

/-- The places of a path: those that it passes, and the one it leads to. -/
def Path.IsPlace (cwd : List String) (p : Path) (q : List String) : Prop :=
  q ∈ p.passed cwd ∨ q = p.resolve cwd

theorem passed_concat (place names : List String) (name : String) :
    passed place (names ++ [name]) = passed place names ++ [names.foldl stepTo place] := by
  induction names generalizing place with
  | nil => rfl
  | cons n names ih => simp [passed, ih]

/-- A path passes the places of its parent. -/
theorem Path.mem_passed_iff {p : Path} (h : p.parts ≠ []) {cwd q : List String} :
    q ∈ p.passed cwd ↔ p.parent.IsPlace cwd q := by
  obtain ⟨front, last, hparts⟩ := (List.eq_nil_or_concat' p.parts).resolve_left h
  simp only [Path.passed, IsPlace, Path.parent, Path.resolve, hparts, passed_concat,
    List.dropLast_concat, List.mem_append, List.mem_singleton]
  rfl

/-- A name that is none of the special ones goes down. -/
theorem stepTo_of_isName {name : String} (h : Dir.isName name = true) (place : List String) :
    stepTo place name = place ++ [name] := by
  simp only [Dir.isName, Bool.and_eq_true, bne_iff_ne] at h
  obtain ⟨⟨⟨⟨⟨hempty, hdot⟩, hdots⟩, -⟩, -⟩, -⟩ := h
  rw [stepTo, if_neg (by rintro (h | h) <;> contradiction), if_neg hdots]

theorem foldl_stepTo_of_isName {names : List String} (h : ∀ name ∈ names, Dir.isName name = true)
    (place : List String) : names.foldl stepTo place = place ++ names := by
  induction names generalizing place with
  | nil => simp
  | cons n names ih =>
    obtain ⟨hn, hnames⟩ := List.forall_mem_cons.mp h
    rw [List.foldl_cons, stepTo_of_isName hn, ih hnames, List.append_assoc, List.singleton_append]

/-- A step from a folder leads to a folder or one name down. -/
theorem stepTo_eq_concat {d : Dir} {place : List String} {name : String}
    (hplace : d.look place = .folder) (h : d.look (stepTo place name) ≠ .folder) :
    stepTo place name = place ++ [name] := by
  unfold stepTo at h ⊢
  split at h
  · exact absurd hplace h
  · split at h
    · exact absurd (Dir.look_dropLast hplace) h
    · rename_i hstay hup
      rw [if_neg hstay, if_neg hup]

/-! ## Lengths of paths -/

/-- A path that is within the bounds on lengths and has no null character in it. -/
structure Path.Fits (p : Path) : Prop where
  noNull : p.hasNull = false
  short : Files.isShort p = true
  names_short : ∀ name ∈ p.parts, name.utf8ByteSize ≤ Files.maxNameBytes

instance (p : Path) : Decidable p.Fits :=
  decidable_of_iff (p.hasNull = false ∧ Files.isShort p = true ∧
      ∀ name ∈ p.parts, name.utf8ByteSize ≤ Files.maxNameBytes)
    ⟨fun ⟨hnull, hshort, hnames⟩ => ⟨hnull, hshort, hnames⟩,
      fun h => ⟨h.noNull, h.short, h.names_short⟩⟩

theorem utf8ByteSize_slashes (name : String) (names : List String) :
    ("/".intercalate (name :: names)).utf8ByteSize =
      name.utf8ByteSize + (names.map fun n => 1 + n.utf8ByteSize).sum := by
  induction names generalizing name with
  | nil => simp
  | cons n names ih =>
    have hslash : "/".utf8ByteSize = 1 := by decide
    rw [String.intercalate_cons_cons, String.utf8ByteSize_append, String.utf8ByteSize_append, ih n,
      List.map_cons, List.sum_cons, hslash]
    omega

theorem utf8ByteSize_toText (p : Path) :
    p.toText.utf8ByteSize =
      match p.anchor with
      | .here => if p.parts.isEmpty then 1 else ("/".intercalate p.parts).utf8ByteSize
      | .root => 1 + ("/".intercalate p.parts).utf8ByteSize
      | .doubleRoot => 2 + ("/".intercalate p.parts).utf8ByteSize := by
  have hone : "/".utf8ByteSize = 1 := by decide
  have htwo : "//".utf8ByteSize = 2 := by decide
  unfold Path.toText
  cases p.anchor with
  | here =>
    simp only
    split <;> rfl
  | root => simp only [String.utf8ByteSize_append, hone]
  | doubleRoot => simp only [String.utf8ByteSize_append, htwo]

theorem utf8ByteSize_intercalate_dropLast (names : List String) :
    ("/".intercalate names.dropLast).utf8ByteSize ≤ ("/".intercalate names).utf8ByteSize := by
  rcases List.eq_nil_or_concat' names with rfl | ⟨front, last, rfl⟩
  · exact Nat.le_refl _
  · rw [List.dropLast_concat]
    cases front with
    | nil => simp
    | cons n ns =>
      rw [List.cons_append, utf8ByteSize_slashes, utf8ByteSize_slashes, List.map_append,
        List.sum_append]
      omega

/-- What a path leads through fits if the path does. -/
theorem Path.Fits.parent {p : Path} (h : p.Fits) : p.parent.Fits where
  noNull := by
    have hnull := h.noNull
    rw [Path.hasNull, List.any_eq_false] at hnull ⊢
    exact fun name hname => hnull name (List.dropLast_subset _ hname)
  short := by
    have hshort := h.short
    have hle := utf8ByteSize_intercalate_dropLast p.parts
    have hbound : Files.maxPathBytes = 4095 := rfl
    simp only [Files.isShort, utf8ByteSize_toText, Path.parent, decide_eq_true_eq, hbound]
      at hshort ⊢
    cases hanchor : p.anchor with
    | here =>
      -- the current folder is written as one dot, so that its path is not the shortest
      simp only [hanchor] at hshort ⊢
      split
      · omega
      · rename_i hfront
        have hparts : p.parts.isEmpty = false := by
          cases hp : p.parts with
          | nil => simp [hp] at hfront
          | cons n ns => rfl
        rw [hparts] at hshort
        simp only [Bool.false_eq_true, if_false] at hshort
        omega
    | root | doubleRoot =>
      simp only [hanchor] at hshort ⊢
      omega
  names_short := fun name hname => h.names_short name (List.dropLast_subset _ hname)

namespace Files

/-! ## Following a path -/

/-- What stands at a place. -/
def look (fs : Files) (place : List String) : Standing :=
  fs.root.look place

/-- A file system as there can be one: its names are names, and the current directory is there. -/
def isSound (fs : Files) : Bool :=
  fs.root.isSound && fs.look fs.cwd = .folder

/-- Every path starts at a folder. -/
theorem look_base_of_isSound {fs : Files} (h : fs.isSound = true) (p : Path) :
    fs.look (p.base fs.cwd) = .folder := by
  rw [isSound, Bool.and_eq_true, decide_eq_true_eq] at h
  unfold Path.base
  split
  · exact h.2
  · rfl

theorem follow_cons (root : Dir) (place names : List String) (name : String) :
    follow root place (name :: names) =
      match root.look place with
      | .folder =>
        if name.utf8ByteSize ≤ maxNameBytes then follow root (stepTo place name) names
        else .error .tooLong
      | .file _ => .error .notDirectory
      | .nothing => .error .missing := by
  rw [follow, Dir.look]
  cases root.entry? place with
  | none => rfl
  | some e => cases e <;> rfl

/-- Names can be followed if folders stand at all the places passed. -/
theorem follow_eq_ok_iff {root : Dir} {place names q : List String} :
    follow root place names = .ok q ↔
      (∀ r ∈ passed place names, root.look r = .folder) ∧
        (∀ name ∈ names, name.utf8ByteSize ≤ maxNameBytes) ∧ q = names.foldl stepTo place := by
  induction names generalizing place with
  | nil => simp [follow, passed, eq_comm]
  | cons name names ih =>
    rw [follow_cons]
    simp only [passed, List.forall_mem_cons, List.foldl_cons]
    cases root.look place with
    | nothing => simp
    | file content => simp
    | folder =>
      by_cases hname : name.utf8ByteSize ≤ maxNameBytes
      · simp only [hname, if_true, true_and]
        exact ih
      · simp [hname]

/-- Where no file is in the way, names that cannot be followed lead through a place at which nothing
stands. -/
theorem follow_eq_missing {root : Dir} {place names : List String}
    (hshort : ∀ name ∈ names, name.utf8ByteSize ≤ maxNameBytes)
    (hfree : ∀ r ∈ passed place names, ∀ content, root.look r ≠ .file content)
    (hnot : ¬ ∀ r ∈ passed place names, root.look r = .folder) :
    follow root place names = .error .missing := by
  induction names generalizing place with
  | nil => simp [passed] at hnot
  | cons name names ih =>
    simp only [passed, List.forall_mem_cons] at hshort hfree hnot
    rw [follow_cons]
    cases hplace : root.look place with
    | nothing => rfl
    | file content => exact absurd hplace (hfree.1 content)
    | folder =>
      simp only [if_pos hshort.1]
      exact ih hshort.2 hfree.2 fun hall => hnot ⟨hplace, hall⟩

theorem locate_eq_ok_iff {fs : Files} {p : Path} {q : List String} :
    fs.locate p = .ok q ↔
      p.Fits ∧ (∀ r ∈ p.passed fs.cwd, fs.look r = .folder) ∧ q = p.resolve fs.cwd := by
  rw [locate]
  constructor
  · intro h
    split at h
    · cases h
    split at h
    · rename_i hnull hshort
      obtain ⟨hpassed, hnames, hq⟩ := follow_eq_ok_iff.mp h
      exact ⟨⟨by simpa using hnull, hshort, hnames⟩, hpassed, hq⟩
    · cases h
  · rintro ⟨hfits, hpassed, hq⟩
    rw [if_neg (by simp [hfits.noNull]), if_pos hfits.short]
    exact follow_eq_ok_iff.mpr ⟨hpassed, hfits.names_short, hq⟩

theorem locate_eq_missing {fs : Files} {p : Path} (hfits : p.Fits)
    (hfree : ∀ r ∈ p.passed fs.cwd, ∀ content, fs.look r ≠ .file content)
    (hnot : ¬ ∀ r ∈ p.passed fs.cwd, fs.look r = .folder) :
    fs.locate p = .error .missing := by
  rw [locate, if_neg (by simp [hfits.noNull]), if_pos hfits.short]
  exact follow_eq_missing hfits.names_short hfree hnot

theorem isDir_eq_true_iff {fs : Files} {p : Path} :
    fs.isDir p = true ↔ ∃ q, fs.locate p = .ok q ∧ fs.look q = .folder := by
  rw [isDir, entry?]
  cases hlocate : fs.locate p with
  | error fault => simp
  | ok q =>
    simp only [Except.ok.injEq, exists_eq_left', look, Dir.look]
    cases fs.root.entry? q with
    | none => simp [standingOf]
    | some e => cases e <;> simp [standingOf, Entry.standing]

/-! ## Reading and writing -/

theorem read_of_locate {fs : Files} {p : Path} {q : List String} (h : fs.locate p = .ok q) :
    fs.read p =
      match fs.look q with
      | .file content => .ok content
      | .folder => .error .isDirectory
      | .nothing => .error .missing := by
  simp only [read, h, look, Dir.look, bind, Except.bind]
  cases fs.root.entry? q with
  | none => rfl
  | some e => cases e <;> rfl

/-- **When a file can be read**: its path fits and leads through folders, and the file is there. -/
theorem read_eq_ok_iff {fs : Files} {p : Path} {content : Bytes} :
    fs.read p = .ok content ↔
      p.Fits ∧ (∀ r ∈ p.passed fs.cwd, fs.look r = .folder) ∧
        fs.look (p.resolve fs.cwd) = .file content := by
  constructor
  · intro h
    cases hlocate : fs.locate p with
    | error fault => simp [read, hlocate, bind, Except.bind] at h
    | ok q =>
      rw [read_of_locate hlocate] at h
      obtain ⟨hfits, hpassed, rfl⟩ := locate_eq_ok_iff.mp hlocate
      refine ⟨hfits, hpassed, ?_⟩
      cases hlook : fs.look (p.resolve fs.cwd) with
      | nothing => simp [hlook] at h
      | folder => simp [hlook] at h
      | file found => simpa [hlook] using h
  · rintro ⟨hfits, hpassed, hlook⟩
    rw [read_of_locate (locate_eq_ok_iff.mpr ⟨hfits, hpassed, rfl⟩), hlook]

/-- A path that leads through folders to a place that is none leads one name below a folder. -/
theorem resolve_eq_concat {fs : Files} {p : Path} (hbase : fs.look (p.base fs.cwd) = .folder)
    (hpassed : ∀ r ∈ p.passed fs.cwd, fs.look r = .folder)
    (hplace : fs.look (p.resolve fs.cwd) ≠ .folder) :
    ∃ place name, p.resolve fs.cwd = place ++ [name] ∧ fs.look place = .folder := by
  rcases List.eq_nil_or_concat' p.parts with hparts | ⟨front, last, hparts⟩
  · rw [Path.resolve, hparts] at hplace
    exact absurd hbase hplace
  · have hresolve : p.resolve fs.cwd = stepTo (front.foldl stepTo (p.base fs.cwd)) last := by
      rw [Path.resolve, hparts, List.foldl_concat]
    have hfront : fs.look (front.foldl stepTo (p.base fs.cwd)) = .folder := by
      apply hpassed
      rw [Path.passed, hparts, passed_concat]
      simp
    rw [hresolve] at hplace ⊢
    exact ⟨_, last, stepTo_eq_concat hfront hplace, hfront⟩

/-- What stands where after a bare entry was put at the end of a path. -/
theorem look_insert {fs : Files} {p : Path} {e : Entry} (he : e.isBare = true)
    (hbase : fs.look (p.base fs.cwd) = .folder)
    (hpassed : ∀ r ∈ p.passed fs.cwd, fs.look r = .folder)
    (hplace : fs.look (p.resolve fs.cwd) ≠ .folder) (q : List String) :
    look { fs with root := fs.root.insert e (p.resolve fs.cwd) } q =
      if q = p.resolve fs.cwd then e.standing else fs.look q := by
  obtain ⟨place, name, hresolve, hfolder⟩ := resolve_eq_concat hbase hpassed hplace
  rw [hresolve] at hplace ⊢
  exact Dir.look_insert he hfolder hplace q

theorem write_of_locate {fs : Files} {p : Path} {q : List String} (h : fs.locate p = .ok q)
    (content : Bytes) :
    fs.write p content =
      match fs.look q with
      | .folder => .error .isDirectory
      | _ => .ok { fs with root := fs.root.insert (.file content) q } := by
  simp only [write, h, look, Dir.look, bind, Except.bind]
  cases fs.root.entry? q with
  | none => rfl
  | some e => cases e <;> rfl

/-- **Writing a file changes what stands at the end of its path and nowhere else.** -/
theorem write_ok {fs : Files} {p : Path} (hfits : p.Fits)
    (hbase : fs.look (p.base fs.cwd) = .folder)
    (hpassed : ∀ r ∈ p.passed fs.cwd, fs.look r = .folder)
    (hplace : fs.look (p.resolve fs.cwd) ≠ .folder) (content : Bytes) :
    ∃ next, fs.write p content = .ok next ∧ next.cwd = fs.cwd ∧
      ∀ q, next.look q = if q = p.resolve fs.cwd then .file content else fs.look q := by
  refine ⟨{ fs with root := fs.root.insert (.file content) (p.resolve fs.cwd) }, ?_, rfl,
    look_insert rfl hbase hpassed hplace⟩
  rw [write_of_locate (locate_eq_ok_iff.mpr ⟨hfits, hpassed, rfl⟩)]
  cases hlook : fs.look (p.resolve fs.cwd) with
  | folder => exact absurd hlook hplace
  | nothing | file => rfl

/-! ## Making directories -/

theorem makeDir_of_locate {fs : Files} {p : Path} {q : List String} (h : fs.locate p = .ok q) :
    fs.makeDir p =
      match fs.look q with
      | .nothing => .ok { fs with root := fs.root.insert (.folder .empty) q }
      | _ => .error .occupied := by
  simp only [makeDir, h, look, Dir.look, bind, Except.bind]
  cases fs.root.entry? q with
  | none => rfl
  | some e => cases e <;> rfl

/-- The file system `next` is `fs` with folders at some places. -/
structure AddsFolders (fs next : Files) (places : List String → Prop) : Prop where
  cwd_eq : next.cwd = fs.cwd
  folder : ∀ q, places q → next.look q = .folder
  other : ∀ q, ¬ places q → next.look q = fs.look q

namespace AddsFolders

variable {fs made next : Files} {P Q : List String → Prop}

/-- Folders stay folders. -/
theorem look_folder (h : AddsFolders fs next P) {q : List String} (hq : fs.look q = .folder) :
    next.look q = .folder := by
  by_cases hp : P q
  · exact h.folder q hp
  · rw [h.other q hp, hq]

/-- No file appears where none was. -/
theorem look_ne_file (h : AddsFolders fs next P) {q : List String} {content : Bytes}
    (hq : fs.look q ≠ .file content) : next.look q ≠ .file content := by
  by_cases hp : P q
  · rw [h.folder q hp]
    intro hfile
    cases hfile
  · rwa [h.other q hp]

theorem trans (h : AddsFolders fs made P) (k : AddsFolders made next Q) :
    AddsFolders fs next fun q => P q ∨ Q q where
  cwd_eq := k.cwd_eq.trans h.cwd_eq
  folder := by
    rintro q (hp | hq)
    · exact k.look_folder (h.folder q hp)
    · exact k.folder q hq
  other := by
    intro q hq
    obtain ⟨hp, hq⟩ := not_or.mp hq
    rw [k.other q hq, h.other q hp]

/-- Places at which folders stood before may be counted in. -/
theorem of_folders (hP : ∀ q, P q → fs.look q = .folder) : AddsFolders fs fs P where
  cwd_eq := rfl
  folder := hP
  other := fun _ _ => rfl

end AddsFolders

/-- A directory that is there is left as it is. -/
theorem ensureDir_of_folder {fs : Files} {p : Path} {place : List String}
    (hlocate : fs.locate p = .ok place) (hlook : fs.look place = .folder) :
    fs.ensureDir p = .ok fs := by
  rw [ensureDir, makeDir_of_locate hlocate, hlook]
  exact if_pos (isDir_eq_true_iff.mpr ⟨_, hlocate, hlook⟩)

/-- A directory is made, or left as it is, if the path to it leads through folders to no file. -/
theorem ensureDir_ok {fs : Files} {p : Path} (hfits : p.Fits)
    (hbase : fs.look (p.base fs.cwd) = .folder)
    (hpassed : ∀ r ∈ p.passed fs.cwd, fs.look r = .folder)
    (hfree : ∀ content, fs.look (p.resolve fs.cwd) ≠ .file content) :
    ∃ next, fs.ensureDir p = .ok next ∧ AddsFolders fs next (· = p.resolve fs.cwd) := by
  have hlocate := locate_eq_ok_iff.mpr ⟨hfits, hpassed, rfl⟩
  cases hlook : fs.look (p.resolve fs.cwd) with
  | file content => exact absurd hlook (hfree content)
  | nothing =>
    rw [ensureDir, makeDir_of_locate hlocate, hlook]
    have hplace : fs.look (p.resolve fs.cwd) ≠ .folder := by rw [hlook]; nofun
    have hinsert := look_insert (e := .folder .empty) rfl hbase hpassed hplace
    refine ⟨_, rfl, rfl, ?_, ?_⟩
    · rintro q rfl
      rw [hinsert, if_pos rfl]
      rfl
    · intro q hq
      rw [hinsert, if_neg hq]
  | folder =>
    refine ⟨fs, ensureDir_of_folder hlocate hlook, AddsFolders.of_folders ?_⟩
    rintro q rfl
    exact hlook

/-- Where a place on the way is missing, a directory cannot be made at once. -/
theorem ensureDir_missing {fs : Files} {p : Path} (hfits : p.Fits)
    (hfree : ∀ r ∈ p.passed fs.cwd, ∀ content, fs.look r ≠ .file content)
    (hnot : ¬ ∀ r ∈ p.passed fs.cwd, fs.look r = .folder) :
    fs.ensureDir p = .error .missing := by
  have hlocate := locate_eq_missing hfits hfree hnot
  have hdir : fs.isDir p ≠ true := by
    intro h
    obtain ⟨q, hq, -⟩ := isDir_eq_true_iff.mp h
    rw [hlocate] at hq
    cases hq
  rw [ensureDir, makeDir, hlocate]
  simp [bind, Except.bind, hdir]

/-- What stands where after a directory was made with those on the way to it. The names of its path
are given from the last to the first. -/
theorem makeDirsUp_ok (names : List String) {fs : Files} {p : Path} (hp : p.parts.reverse = names)
    (hfits : p.Fits) (hbase : fs.look (p.base fs.cwd) = .folder)
    (hfree : ∀ q, p.IsPlace fs.cwd q → ∀ content, fs.look q ≠ .file content) :
    ∃ next, makeDirsUp p.anchor names fs = (.ok (), next) ∧
      AddsFolders fs next (p.IsPlace fs.cwd) := by
  induction names generalizing fs p with
  | nil =>
    have hparts : p.parts = [] := List.reverse_eq_nil_iff.mp hp
    have hpassed : p.passed fs.cwd = [] := by rw [Path.passed, hparts, passed]
    obtain ⟨next, hnext, hadds⟩ :=
      ensureDir_ok hfits hbase (by simp [hpassed]) (hfree _ (.inr rfl))
    refine ⟨next, ?_, hadds.cwd_eq, ?_, ?_⟩
    · have hpath : p = ⟨p.anchor, []⟩ := by rw [← hparts]
      rw [makeDirsUp, ← hpath, hnext]
    · rintro q (hq | hq)
      · simp [hpassed] at hq
      · exact hadds.folder q hq
    · exact fun q hq => hadds.other q fun h => hq (.inr h)
  | cons name before ih =>
    have hparts : p.parts = (name :: before).reverse := by rw [← hp, List.reverse_reverse]
    have hpath : (⟨p.anchor, (name :: before).reverse⟩ : Path) = p := by rw [← hparts]
    have hne : p.parts ≠ [] := by simp [hparts]
    rw [makeDirsUp]
    simp only [hpath]
    by_cases hpassed : ∀ r ∈ p.passed fs.cwd, fs.look r = .folder
    · -- all is there but perhaps the directory itself
      obtain ⟨next, hnext, hadds⟩ := ensureDir_ok hfits hbase hpassed (hfree _ (.inr rfl))
      rw [hnext]
      exact ⟨next, rfl, (AddsFolders.of_folders hpassed).trans hadds⟩
    · -- something on the way is missing, and is made first
      have hmissing := ensureDir_missing hfits (fun r hr => hfree r (.inl hr)) hpassed
      obtain ⟨made, hmade, haddsMade⟩ := ih (p := p.parent) (by simp [Path.parent, hparts])
        hfits.parent hbase fun q hq => hfree q (.inl ((Path.mem_passed_iff hne).mpr hq))
      have hpassedMade : ∀ r ∈ p.passed made.cwd, made.look r = .folder := by
        intro r hr
        rw [haddsMade.cwd_eq] at hr
        exact haddsMade.folder r ((Path.mem_passed_iff hne).mp hr)
      have hbaseMade : made.look (p.base made.cwd) = .folder := by
        rw [haddsMade.cwd_eq]
        exact haddsMade.look_folder hbase
      have hendMade : ∀ content, made.look (p.resolve made.cwd) ≠ .file content := by
        intro content
        rw [haddsMade.cwd_eq]
        exact haddsMade.look_ne_file (hfree _ (.inr rfl) content)
      obtain ⟨next, hnext, hadds⟩ := ensureDir_ok hfits hbaseMade hpassedMade hendMade
      have hanchor : makeDirsUp p.anchor before fs = (.ok (), made) := hmade
      rw [hmissing]
      simp only [hanchor, hnext]
      rw [haddsMade.cwd_eq] at hadds
      have hplaces : p.IsPlace fs.cwd = fun q => p.parent.IsPlace fs.cwd q ∨ q = p.resolve fs.cwd :=
        funext fun q => by rw [Path.IsPlace, Path.mem_passed_iff hne]
      exact ⟨next, rfl, hplaces ▸ haddsMade.trans hadds⟩

/-- **Making a directory with those on the way to it** puts folders at the places of the path and
changes nothing else, if no file is in the way. -/
theorem makeDirs_ok {fs : Files} {p : Path} (hfits : p.Fits)
    (hbase : fs.look (p.base fs.cwd) = .folder)
    (hfree : ∀ q, p.IsPlace fs.cwd q → ∀ content, fs.look q ≠ .file content) :
    ∃ next, fs.makeDirs p = (.ok (), next) ∧ AddsFolders fs next (p.IsPlace fs.cwd) :=
  makeDirsUp_ok p.parts.reverse rfl hfits hbase hfree

end Files

end ClassChart
