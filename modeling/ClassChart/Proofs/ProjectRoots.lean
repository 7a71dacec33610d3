import ClassChart.Proofs.SettingsLookup
import ClassChart.Proofs.TypedPaths
import Mathlib.Data.List.Induction

/-!
# The root of a project

The search for the root of a project goes from a place upwards and ends at the first place with a
mark. It does not look at the root of the file system, and where it finds no mark it comes back to
where it began. So the root is the longest marked place on the way to where the search began, and
from any place between the two the search ends at the same root. A search fails only at its first
step: what can be looked at from a place can be looked at from all places above it.

## Main definitions

* `LeadsDown`: a name by which a path goes down
* `Files.hasMark`, `Files.IsMarkOn`: a marked place; one on the way to a place
* `Files.IsRootOf`: the root of the project that a place belongs to
* `Files.IsOutOfReach`: a place whose mark has too long a path to be looked at

## Main results

* `isMarked_of_reach`, `isMarked_of_outOfReach`: looking at the mark of a place
* `projectRoot_of_isRootOf`: the result of a search
* `projectRoot_nearest`: the nearest marked place, and the same from all places on the way
-/

namespace ClassChart

/-! ## Names that lead down -/

/-- A name by which a path goes down: it is neither empty nor a name of the directory itself or of
the one above, and has no null character in it. -/
structure LeadsDown (name : String) : Prop where
  ne_empty : name ≠ ""
  ne_dot : name ≠ "."
  ne_dots : name ≠ ".."
  noNull : hasNull name = false

theorem LeadsDown.stepTo {name : String} (h : LeadsDown name) (place : List String) :
    ClassChart.stepTo place name = place ++ [name] := by
  rw [ClassChart.stepTo, if_neg (not_or.mpr ⟨h.ne_empty, h.ne_dot⟩), if_neg h.ne_dots]

theorem LeadsDown.of_isName {name : String} (h : Dir.isName name = true) : LeadsDown name where
  ne_empty := by
    rintro rfl
    cases h
  ne_dot := by
    rintro rfl
    cases h
  ne_dots := by
    rintro rfl
    cases h
  noNull := Dir.hasNull_of_isName h

theorem leadsDown_mark : LeadsDown ".git" where
  ne_empty := by decide
  ne_dot := by decide
  ne_dots := by decide
  noNull := by decide

/-- Names that lead down lead to what they say. -/
theorem foldl_stepTo_of_leadsDown {names : List String} (h : ∀ name ∈ names, LeadsDown name)
    (place : List String) : names.foldl stepTo place = place ++ names := by
  induction names generalizing place with
  | nil => simp
  | cons n names ih =>
    obtain ⟨hn, hnames⟩ := List.forall_mem_cons.mp h
    rw [List.foldl_cons, hn.stepTo, ih hnames, List.append_assoc, List.singleton_append]

/-- All names of a place are such that lead down, if those of the place before are. -/
theorem leadsDown_foldl_stepTo {names place : List String}
    (hnames : ∀ name ∈ names, hasNull name = false) (hplace : ∀ name ∈ place, LeadsDown name) :
    ∀ name ∈ names.foldl stepTo place, LeadsDown name := by
  induction names generalizing place with
  | nil => exact hplace
  | cons n names ih =>
    obtain ⟨hn, hnames⟩ := List.forall_mem_cons.mp hnames
    apply ih hnames
    unfold stepTo
    split_ifs with hstay hup
    · exact hplace
    · exact fun name hname => hplace name (List.dropLast_subset place hname)
    · obtain ⟨hempty, hdot⟩ := not_or.mp hstay
      exact List.forall_mem_append.mpr
        ⟨hplace, List.forall_mem_singleton.mpr ⟨hempty, hdot, hup, hn⟩⟩

namespace Dir

/-- The names in a sound directory are names. -/
theorem isName_of_find? {d : Dir} (hsound : d.isSound = true) {name : String} {e : Entry}
    (h : d.find? name = some e) : isName name = true := by
  induction d with
  | empty => cases h
  | file n content rest ih =>
    simp only [isSound, Bool.and_eq_true] at hsound
    rw [find?] at h
    split_ifs at h with hn
    · exact hn ▸ hsound.1.1
    · exact ih hsound.2 h
  | folder n inner rest _ ih =>
    simp only [isSound, Bool.and_eq_true] at hsound
    rw [find?] at h
    split_ifs at h with hn
    · exact hn ▸ hsound.1.1.1
    · exact ih hsound.2 h

theorem isName_of_look {d : Dir} (hsound : d.isSound = true) {place : List String}
    (h : d.look place = .folder) : ∀ name ∈ place, isName name = true := by
  induction place generalizing d with
  | nil => exact List.forall_mem_nil _
  | cons n place ih =>
    obtain ⟨inner, hn, hinner⟩ := look_cons_eq_folder h
    exact List.forall_mem_cons.mpr
      ⟨isName_of_find? hsound hn, ih (isSound_of_find? hsound hn) hinner⟩

/-- Something can stand below a folder only. -/
theorem look_eq_folder_of_append {d : Dir} {place rest : List String} (hrest : rest ≠ [])
    (h : d.look (place ++ rest) ≠ .nothing) : d.look place = .folder := by
  induction rest using List.reverseRecOn with
  | nil => exact absurd rfl hrest
  | append_singleton front last ih =>
    rw [← List.append_assoc] at h
    have hfront := look_concat last h
    rcases front with - | ⟨n, front⟩
    · rwa [List.append_nil] at hfront
    · exact ih (List.cons_ne_nil n front) (by simp [hfront])

end Dir

/-- The names of the place that a path leads to. -/
theorem leadsDown_resolve {fs : Files} (hsound : fs.isSound = true) {start : Path}
    (hnull : start.hasNull = false) : ∀ name ∈ start.resolve fs.cwd, LeadsDown name := by
  rw [Files.isSound, Bool.and_eq_true, decide_eq_true_eq] at hsound
  have hnames : ∀ name ∈ start.parts, hasNull name = false := by
    intro name hname
    simpa using List.any_eq_false.mp hnull name hname
  apply leadsDown_foldl_stepTo hnames
  rw [Path.base]
  split
  · exact fun name hname => .of_isName (Dir.isName_of_look hsound.1 hsound.2 name hname)
  · exact List.forall_mem_nil _

/-! ## Looking at marks -/

namespace Files

/-- Whether the directory at a place has an entry that marks it as the root of a project. -/
def hasMark (fs : Files) (place : List String) : Bool :=
  fs.look (place ++ [".git"]) ≠ .nothing

/-- A place whose mark cannot be looked at: the path of the mark is too long, or there is a name on
the way that is too long for the folder that would have it. -/
def IsOutOfReach (fs : Files) (place : List String) : Prop :=
  isShort (.absolute (place ++ [".git"])) = false ∨
    ∃ folder name, folder ++ [name] <+: place ∧ fs.look folder = .folder ∧
      maxNameBytes < name.utf8ByteSize

theorem hasMark_eq_isSome (fs : Files) (place : List String) :
    fs.hasMark place = (fs.root.entry? (place ++ [".git"])).isSome := by
  rw [hasMark, look, Dir.look]
  cases fs.root.entry? (place ++ [".git"]) with
  | none => rfl
  | some e => cases e <;> rfl

/-- When names that lead down cannot be followed for their length. -/
theorem follow_eq_tooLong_iff {root : Dir} {place names : List String}
    (h : ∀ name ∈ names, LeadsDown name) :
    follow root place names = .error .tooLong ↔
      ∃ folder name, folder ++ [name] <+: names ∧ root.look (place ++ folder) = .folder ∧
        maxNameBytes < name.utf8ByteSize := by
  induction names generalizing place with
  | nil => simp [follow]
  | cons n names ih =>
    obtain ⟨hn, hnames⟩ := List.forall_mem_cons.mp h
    rw [follow_cons, hn.stepTo]
    constructor
    · intro hlong
      split at hlong
      · rename_i hplace
        split_ifs at hlong with hsize
        · obtain ⟨folder, name, hle, hfolder, hname⟩ := (ih hnames).mp hlong
          refine ⟨n :: folder, name, List.cons_prefix_cons.mpr ⟨rfl, hle⟩, ?_, hname⟩
          rwa [List.append_assoc] at hfolder
        · exact ⟨[], n, by simp, by simpa using hplace, by omega⟩
      · cases hlong
      · cases hlong
    · rintro ⟨folder, name, hle, hfolder, hname⟩
      -- a folder further down is only there if its own place is one
      have hplace : root.look place = .folder := by
        rcases folder with - | ⟨m, folder⟩
        · rwa [List.append_nil] at hfolder
        · exact Dir.look_eq_folder_of_append (List.cons_ne_nil m folder) (by simp [hfolder])
      rw [hplace]
      simp only
      split_ifs with hsize
      · rcases folder with - | ⟨m, folder⟩
        · obtain ⟨rfl, -⟩ := List.cons_prefix_cons.mp hle
          omega
        · obtain ⟨rfl, hrest⟩ := List.cons_prefix_cons.mp hle
          refine (ih hnames).mpr ⟨folder, name, hrest, ?_, hname⟩
          rwa [List.append_assoc]
      · rfl

/-- Where names that lead down cannot be followed for another reason, nothing stands at their
end. -/
theorem look_eq_nothing_of_follow {root : Dir} {place names : List String} {fault : FileFault}
    (h : ∀ name ∈ names, LeadsDown name) (hfollow : follow root place names = .error fault)
    (hfault : fault ≠ .tooLong) : root.look (place ++ names) = .nothing := by
  induction names generalizing place with
  | nil => cases hfollow
  | cons n names ih =>
    obtain ⟨hn, hnames⟩ := List.forall_mem_cons.mp h
    by_contra hnot
    have hplace := Dir.look_eq_folder_of_append (List.cons_ne_nil n names) hnot
    rw [follow_cons, hn.stepTo, hplace] at hfollow
    simp only at hfollow
    split_ifs at hfollow
    · have hrest := ih hnames hfollow
      rw [List.append_assoc] at hrest
      exact hnot hrest
    · cases hfollow
      exact hfault rfl

/-- The text of an absolute path has a slash before each name. -/
theorem utf8ByteSize_absolute {names : List String} (h : names ≠ []) :
    (Path.absolute names).toText.utf8ByteSize = slashedSize names := by
  obtain ⟨first, rest, rfl⟩ := List.exists_cons_of_ne_nil h
  rw [utf8ByteSize_toText, slashedSize_cons]
  simp only [Path.absolute]
  rw [utf8ByteSize_slashes, slashedSize]
  omega

/-- A place below one that is out of reach is out of reach as well. -/
theorem IsOutOfReach.mono {fs : Files} {q place : List String} (hle : q <+: place)
    (h : fs.IsOutOfReach q) : fs.IsOutOfReach place := by
  rcases h with hlong | ⟨folder, name, hname, hfolder, hsize⟩
  · left
    obtain ⟨rest, rfl⟩ := hle
    have hmark : slashedSize (q ++ [".git"]) ≤ slashedSize (q ++ rest ++ [".git"]) := by
      simp only [slashedSize, List.map_append, List.sum_append]
      omega
    rw [isShort, decide_eq_false_iff_not, utf8ByteSize_absolute (by simp)] at hlong ⊢
    omega
  · exact .inr ⟨folder, name, hname.trans hle, hfolder, hsize⟩

/-- A place is in reach if the path of its mark is within the bounds on lengths. -/
theorem not_isOutOfReach_of_fits {fs : Files} {place : List String}
    (h : (Path.absolute (place ++ [".git"])).Fits) : ¬ fs.IsOutOfReach place := by
  rintro (hlong | ⟨folder, name, hname, -, hsize⟩)
  · rw [h.short] at hlong
    cases hlong
  · have hmem : name ∈ place := hname.subset (by simp)
    have hle := h.names_short name (List.mem_append_left [".git"] hmem)
    omega

/-- The root of the file system is in reach. -/
theorem not_isOutOfReach_nil (fs : Files) : ¬ fs.IsOutOfReach [] :=
  not_isOutOfReach_of_fits (by decide)

variable {fs : Files} {place : List String} (hnames : ∀ name ∈ place, LeadsDown name)

include hnames

theorem leadsDown_concat_mark : ∀ name ∈ place ++ [".git"], LeadsDown name :=
  List.forall_mem_append.mpr ⟨hnames, List.forall_mem_singleton.mpr leadsDown_mark⟩

theorem hasNull_mark : (Path.absolute (place ++ [".git"])).hasNull = false := by
  rw [Path.hasNull, List.any_eq_false]
  intro name hname
  simp [(leadsDown_concat_mark hnames name hname).noNull]

/-- Following the path of a mark within the greatest length of paths. -/
theorem follow_mark_eq_tooLong_iff :
    follow fs.root [] (place ++ [".git"]) = .error .tooLong ↔
      ∃ folder name, folder ++ [name] <+: place ∧ fs.look folder = .folder ∧
        maxNameBytes < name.utf8ByteSize := by
  rw [follow_eq_tooLong_iff (leadsDown_concat_mark hnames)]
  refine exists_congr fun folder => exists_congr fun name => ?_
  rw [List.prefix_concat_iff, List.nil_append, look, or_and_right]
  refine or_iff_right ?_
  -- the name of the mark is not too long
  rintro ⟨hlast, -, hsize⟩
  obtain rfl : name = ".git" := by simpa using (List.append_inj' hlast rfl).2
  exact absurd hsize (by decide)

/-- **A mark out of reach** cannot be looked at. -/
theorem isMarked_of_outOfReach (h : fs.IsOutOfReach place) :
    isMarked fs place = .error .tooLong := by
  have hlocate : fs.locate (.absolute (place ++ [".git"])) = .error .tooLong := by
    rw [locate, if_neg (by simp [hasNull_mark hnames])]
    rcases h with hlong | hname
    · rw [if_neg (by simp [hlong])]
    · split_ifs
      · exact (follow_mark_eq_tooLong_iff hnames).mpr hname
      · rfl
  rw [isMarked, probe, hlocate]
  rfl

/-- **A mark in reach** is seen exactly if it is there. -/
theorem isMarked_of_reach (h : ¬ fs.IsOutOfReach place) :
    isMarked fs place = .ok (fs.hasMark place) := by
  obtain ⟨hshort, hname⟩ := not_or.mp h
  rw [Bool.not_eq_false] at hshort
  have hlocate : fs.locate (.absolute (place ++ [".git"])) =
      follow fs.root [] (place ++ [".git"]) := by
    rw [locate, if_neg (by simp [hasNull_mark hnames]), if_pos hshort]
    rfl
  have hmarks := leadsDown_concat_mark hnames
  rw [isMarked, probe, hlocate]
  cases hfollow : follow fs.root [] (place ++ [".git"]) with
  | ok q =>
    obtain ⟨-, -, rfl⟩ := follow_eq_ok_iff.mp hfollow
    rw [foldl_stepTo_of_leadsDown hmarks, List.nil_append, hasMark_eq_isSome]
    rfl
  | error fault =>
    -- a name that is too long would put the mark out of reach
    have hfault : fault ≠ .tooLong := by
      rintro rfl
      exact hname ((follow_mark_eq_tooLong_iff hnames).mp hfollow)
    have hnone : fs.hasMark place = false := by
      have hnothing := look_eq_nothing_of_follow hmarks hfollow hfault
      rw [List.nil_append] at hnothing
      simp [hasMark, look, hnothing]
    rw [hnone]
    cases fault with
    | tooLong => exact absurd rfl hfault
    | _ => rfl

end Files

/-! ## The search for the root -/

namespace Files

/-- A marked place on the way to a place, where the root of the file system does not count. -/
structure IsMarkOn (fs : Files) (place q : List String) : Prop where
  isPrefix : q <+: place
  ne_nil : q ≠ []
  hasMark : fs.hasMark q = true

/-- The root of the project that a place belongs to: the longest marked place on the way to it, and
the place itself if none is marked. -/
inductive IsRootOf (fs : Files) (place : List String) : List String → Prop
  | marked {root : List String} (hroot : fs.IsMarkOn place root)
      (hlongest : ∀ q, fs.IsMarkOn place q → q.length ≤ root.length) : IsRootOf fs place root
  | unmarked (hnone : ∀ q, ¬ fs.IsMarkOn place q) : IsRootOf fs place place

variable {fs : Files} {place q root : List String}

/-- A marked place on the way to a place one name further down. -/
theorem isMarkOn_concat_iff {name : String} :
    fs.IsMarkOn (place ++ [name]) q ↔
      q = place ++ [name] ∧ fs.hasMark (place ++ [name]) = true ∨ fs.IsMarkOn place q := by
  constructor
  · rintro ⟨hle, hne, hmark⟩
    rcases List.prefix_concat_iff.mp hle with rfl | hle
    · exact .inl ⟨rfl, hmark⟩
    · exact .inr ⟨hle, hne, hmark⟩
  · rintro (⟨rfl, hmark⟩ | ⟨hle, hne, hmark⟩)
    · exact ⟨List.prefix_rfl, by simp, hmark⟩
    · exact ⟨hle.trans (List.prefix_append place [name]), hne, hmark⟩

/-- Of the places on the way to a place, only one can be the root. -/
theorem IsRootOf.unique {other : List String} (h : fs.IsRootOf place root)
    (hother : fs.IsRootOf place other) : root = other := by
  cases h with
  | marked hroot hlongest =>
    cases hother with
    | marked hother hlongest' =>
      have hlength := Nat.le_antisymm (hlongest' root hroot) (hlongest other hother)
      exact (List.prefix_of_prefix_length_le hroot.isPrefix hother.isPrefix
        (Nat.le_of_eq hlength)).eq_of_length hlength
    | unmarked hnone => exact absurd hroot (hnone root)
  | unmarked hnone =>
    cases hother with
    | marked hother _ => exact absurd hother (hnone other)
    | unmarked _ => rfl

/-- The root is on the way to the place. -/
theorem IsRootOf.isPrefix (h : fs.IsRootOf place root) : root <+: place := by
  cases h with
  | marked hroot _ => exact hroot.isPrefix
  | unmarked _ => exact List.prefix_rfl

/-- A root is its own root. -/
theorem IsRootOf.self (h : fs.IsRootOf place root) : fs.IsRootOf root root := by
  cases h with
  | marked hroot _ =>
    exact .marked ⟨List.prefix_rfl, hroot.ne_nil, hroot.hasMark⟩ fun q hq => hq.isPrefix.length_le
  | unmarked hnone => exact .unmarked hnone

/-- **All places between a marked root and a place have the same root.** -/
theorem IsRootOf.between (h : fs.IsRootOf place root) (hmark : fs.hasMark root = true)
    (hroot : root <+: q) (hq : q <+: place) : fs.IsRootOf q root := by
  cases h with
  | marked hfound hlongest =>
    refine .marked ⟨hroot, hfound.ne_nil, hmark⟩ ?_
    intro r hr
    exact hlongest r ⟨hr.isPrefix.trans hq, hr.ne_nil, hr.hasMark⟩
  | unmarked hnone =>
    obtain rfl : q = place := hq.eq_of_length (Nat.le_antisymm hq.length_le hroot.length_le)
    exact .unmarked hnone

/-- The current directory plays no part in what is marked. -/
theorem isMarkOn_withCwd_iff {cwd : List String} :
    IsMarkOn { fs with cwd } place q ↔ fs.IsMarkOn place q :=
  ⟨fun h => ⟨h.isPrefix, h.ne_nil, h.hasMark⟩, fun h => ⟨h.isPrefix, h.ne_nil, h.hasMark⟩⟩

theorem IsRootOf.withCwd (h : fs.IsRootOf place root) (cwd : List String) :
    IsRootOf { fs with cwd } place root := by
  cases h with
  | marked hroot hlongest =>
    exact .marked (isMarkOn_withCwd_iff.mpr hroot) fun q hq =>
      hlongest q (isMarkOn_withCwd_iff.mp hq)
  | unmarked hnone => exact .unmarked fun q hq => hnone q (isMarkOn_withCwd_iff.mp hq)

end Files

/-- One step of the search upwards. -/
theorem nearestMarked?_concat (fs : Files) (place : List String) (name : String) :
    nearestMarked? fs (place ++ [name]).reverse =
      (isMarked fs (place ++ [name])).bind fun found =>
        if found then .ok (some (place ++ [name])) else nearestMarked? fs place.reverse := by
  rw [List.reverse_concat, nearestMarked?, List.reverse_cons, List.reverse_reverse]
  rfl

/-- The search upwards finds the longest marked place, or none if none is marked. -/
theorem nearestMarked?_of_reach {fs : Files} {place : List String}
    (hnames : ∀ name ∈ place, LeadsDown name) (hreach : ¬ fs.IsOutOfReach place) :
    (∃ root, nearestMarked? fs place.reverse = .ok (some root) ∧ fs.IsMarkOn place root ∧
      ∀ q, fs.IsMarkOn place q → q.length ≤ root.length) ∨
    nearestMarked? fs place.reverse = .ok none ∧ ∀ q, ¬ fs.IsMarkOn place q := by
  induction place using List.reverseRecOn with
  | nil =>
    refine .inr ⟨rfl, ?_⟩
    rintro q ⟨hle, hne, -⟩
    exact hne (List.prefix_nil.mp hle)
  | append_singleton place name ih =>
    rw [nearestMarked?_concat, Files.isMarked_of_reach hnames hreach]
    cases hmark : fs.hasMark (place ++ [name]) with
    | true =>
      refine .inl ⟨place ++ [name], rfl, Files.isMarkOn_concat_iff.mpr (.inl ⟨rfl, hmark⟩), ?_⟩
      exact fun q hq => hq.isPrefix.length_le
    | false =>
      -- no mark here, so the marks on the way are those on the way to the place above
      have hmarks (q : List String) : fs.IsMarkOn (place ++ [name]) q ↔ fs.IsMarkOn place q := by
        rw [Files.isMarkOn_concat_iff, hmark]
        simp
      simp only [hmarks]
      exact ih (fun n hn => hnames n (List.mem_append_left [name] hn))
        fun h => hreach (h.mono (List.prefix_append place [name]))

theorem nearestMarked?_of_outOfReach {fs : Files} {place : List String}
    (hnames : ∀ name ∈ place, LeadsDown name) (h : fs.IsOutOfReach place) :
    nearestMarked? fs place.reverse = .error .tooLong := by
  rcases List.eq_nil_or_concat' place with rfl | ⟨front, name, rfl⟩
  · exact absurd h (Files.not_isOutOfReach_nil fs)
  · rw [nearestMarked?_concat, Files.isMarked_of_outOfReach hnames h]
    rfl

section Search

variable {fs : Files} {start : Path} {place : List String} (hnull : start.hasNull = false)
  (hplace : start.resolve fs.cwd = place) (hnames : ∀ name ∈ place, LeadsDown name)

include hnull hplace hnames

/-- A search fails if the first mark cannot be looked at. -/
theorem projectRoot_of_outOfReach (h : fs.IsOutOfReach place) :
    projectRoot fs start = .error .tooLong := by
  rw [projectRoot, if_neg (by simp [hnull])]
  simp only [hplace, nearestMarked?_of_outOfReach hnames h]
  rfl

/-- A search from a place in reach ends at a root of the place. -/
theorem exists_projectRoot (hreach : ¬ fs.IsOutOfReach place) :
    ∃ root, projectRoot fs start = .ok (.absolute root) ∧ fs.IsRootOf place root := by
  rw [projectRoot, if_neg (by simp [hnull])]
  simp only [hplace]
  rcases nearestMarked?_of_reach hnames hreach with
    ⟨root, hfound, hmark, hlongest⟩ | ⟨hfound, hnone⟩
  · rw [hfound]
    exact ⟨root, rfl, .marked hmark hlongest⟩
  · rw [hfound]
    exact ⟨place, rfl, .unmarked hnone⟩

/-- **The result of a search** from a place in reach is the root of the place. -/
theorem projectRoot_of_isRootOf (hreach : ¬ fs.IsOutOfReach place) {root : List String}
    (hroot : fs.IsRootOf place root) : projectRoot fs start = .ok (.absolute root) := by
  obtain ⟨found, hrun, hfound⟩ := exists_projectRoot hnull hplace hnames hreach
  rw [hrun, hfound.unique hroot]

end Search

/-- **The root of a project is the nearest marked place.** A search from a path without null
characters ends at the longest marked place on the way to where the path leads, the root of the file
system apart, and where the path leads if there is none. A search from there ends there again. If
that root is marked, every search that begins between it and the first place ends at it, in whatever
directory and by whatever path, and so finds the same settings. A search fails exactly if the path
of the first mark is too long to be looked at. -/
theorem projectRoot_nearest {fs : Files} (hsound : fs.isSound = true) (start : Path) :
    let place := start.resolve fs.cwd
    (start.hasNull = true → projectRoot fs start = .error .nullCharacter) ∧
    (start.hasNull = false → fs.IsOutOfReach place → projectRoot fs start = .error .tooLong) ∧
    (start.hasNull = false → ¬ fs.IsOutOfReach place →
      ∃ root, projectRoot fs start = .ok (.absolute root) ∧ fs.IsRootOf place root ∧
        projectRoot fs (.absolute root) = .ok (.absolute root) ∧
        (fs.hasMark root = true → ∀ q, root <+: q → q <+: place →
          projectRoot fs (.absolute q) = .ok (.absolute root) ∧
          ∀ cwd path, path.hasNull = false → path.resolve cwd = q →
            projectRoot { fs with cwd } path = .ok (.absolute root) ∧
            settingsAt { fs with cwd } (.absolute root) = settingsAt fs (.absolute root))) := by
  intro place
  refine ⟨?_, ?_, ?_⟩
  · intro hnull
    rw [projectRoot, if_pos hnull]
  · intro hnull h
    exact projectRoot_of_outOfReach hnull rfl (leadsDown_resolve hsound hnull) h
  intro hnull hreach
  have hnames := leadsDown_resolve hsound hnull
  obtain ⟨root, hrun, hroot⟩ := exists_projectRoot hnull rfl hnames hreach
  -- from a place on the way, all marks above it are in reach as well
  have hsearch {q found : List String} (hq : q <+: place) (hfound : fs.IsRootOf q found)
      (cwd : List String) {path : Path} (hpath : path.hasNull = false)
      (hleads : path.resolve cwd = q) :
      projectRoot { fs with cwd } path = .ok (.absolute found) := by
    have hq_names : ∀ name ∈ q, LeadsDown name := fun name hname => hnames name (hq.subset hname)
    have hq_reach : ¬ Files.IsOutOfReach { fs with cwd } q :=
      fun h => hreach (Files.IsOutOfReach.mono hq h)
    exact projectRoot_of_isRootOf hpath hleads hq_names hq_reach (hfound.withCwd cwd)
  have habsolute {q found : List String} (hq : q <+: place) (hfound : fs.IsRootOf q found) :
      projectRoot fs (.absolute q) = .ok (.absolute found) := by
    have hq_names : ∀ name ∈ q, LeadsDown name := fun name hname => hnames name (hq.subset hname)
    apply hsearch hq hfound fs.cwd
    · exact List.any_eq_false.mpr fun name hname => by simp [(hq_names name hname).noNull]
    · exact foldl_stepTo_of_leadsDown hq_names []
  refine ⟨root, hrun, hroot, habsolute hroot.isPrefix hroot.self, ?_⟩
  intro hmark q hrootq hq
  have hbetween := hroot.between hmark hrootq hq
  refine ⟨habsolute hq hbetween, ?_⟩
  intro cwd path hpath hleads
  exact ⟨hsearch hq hbetween cwd hpath hleads, rfl⟩

/-- A file system with a mark at its root, a project with directories in it, and a marked directory
beside them. -/
def nestedMarks : Files :=
  ⟨.folder ".git" .empty (.folder "p" (.file ".git" [] (.folder "q" (.folder "r" .empty .empty)
    (.folder "s" (.folder ".git" .empty .empty) .empty))) .empty), ["p", "q"]⟩

theorem projectRoot_nearest_nestedMarks :
    projectRoot nestedMarks ⟨.here, ["r", "..", "r", "t"]⟩ = .ok (.absolute ["p"]) ∧
    nestedMarks.IsRootOf ["p", "q", "r", "t"] ["p"] ∧
    projectRoot nestedMarks (.absolute ["p", "q"]) = .ok (.absolute ["p"]) ∧
    projectRoot { nestedMarks with cwd := ["p", "q", "r"] } here = .ok (.absolute ["p"]) := by
  have hreach : ¬ nestedMarks.IsOutOfReach ["p", "q", "r", "t"] :=
    Files.not_isOutOfReach_of_fits (by decide)
  have hsound : nestedMarks.isSound = true := by decide
  obtain ⟨-, -, hnearest⟩ := projectRoot_nearest hsound ⟨.here, ["r", "..", "r", "t"]⟩
  obtain ⟨root, hrun, hroot, -, hshared⟩ := hnearest rfl hreach
  obtain rfl : root = ["p"] := by
    have hp : projectRoot nestedMarks ⟨.here, ["r", "..", "r", "t"]⟩ = .ok (.absolute ["p"]) := by
      decide
    rw [hp] at hrun
    cases hrun
    rfl
  have hmark : nestedMarks.hasMark ["p"] = true := by decide
  refine ⟨hrun, hroot, ?_, ?_⟩
  · exact (hshared hmark ["p", "q"] (by decide) (by decide)).1
  · exact ((hshared hmark ["p", "q", "r"] (by decide) (by decide)).2 _ here rfl rfl).1

/-- A name of more bytes than a name may have. -/
def longName : String :=
  String.ofList (List.replicate 256 'r')

/-- An empty file system. -/
def bareRoot : Files :=
  ⟨.empty, []⟩

/-- Where a name is too long the search fails: there is no mark, but it does not come back to where
it began. -/
theorem projectRoot_longName :
    (∀ q, ¬ bareRoot.IsMarkOn (Path.resolve bareRoot.cwd ⟨.here, [longName]⟩) q) ∧
      projectRoot bareRoot ⟨.here, [longName]⟩ = .error .tooLong := by
  refine ⟨?_, by decide +kernel⟩
  rintro q ⟨-, hne, hmark⟩
  obtain ⟨n, rest, rfl⟩ := List.exists_cons_of_ne_nil hne
  cases hmark

end ClassChart
