import ClassChart.Files.Access
import Mathlib.Data.List.Basic

/-!
# What stands where in a directory

A directory is described by what stands at each place in it, where a folder counts as such and not
by its content. Putting a file or an empty folder at a place changes what stands there and at no
other place.

## Main definitions

* `Standing`: nothing, a file with its content, or a folder
* `Dir.look`: what stands at a place
* `Dir.isSound`: whether the names of a directory are names, each given once

## Main results

* `Dir.look_concat`: what stands below a place, by what stands at the place
* `Dir.look_insert`: what stands where after an insertion
* `Dir.exists_look_of_mem_files`: in a sound directory the listed files stand where they are listed
-/

namespace ClassChart

open Text (Bytes)

/-- What stands at a place, of a folder not what is in it. -/
inductive Standing where
  | nothing
  | file (content : Bytes)
  | folder
  deriving DecidableEq, Repr

instance (s : Standing) : Decidable (∀ content, s ≠ .file content) :=
  match s with
  | .nothing | .folder => isTrue fun _ => nofun
  | .file content => isFalse fun h => h content rfl

/-- An entry without what is in it. -/
def Entry.standing : Entry → Standing
  | .file content => .file content
  | .folder _ => .folder

/-- What a name or a place that may stand for nothing stands for. -/
def standingOf : Option Entry → Standing
  | some e => e.standing
  | none => .nothing

/-- Whether an entry has nothing in it: a file, or a folder that is empty. -/
def Entry.isBare : Entry → Bool
  | .file _ => true
  | .folder inner => inner = .empty

namespace Dir

/-- What stands at a place. -/
def look (d : Dir) (place : List String) : Standing :=
  standingOf (d.entry? place)

/-! ## Under a name -/

theorem find?_cons (name m : String) (e : Entry) (rest : Dir) :
    (cons name e rest).find? m = if name = m then some e else rest.find? m := by
  cases e <;> rfl

theorem find?_put (name m : String) (e : Entry) (d : Dir) :
    (d.put name e).find? m = if name = m then some e else d.find? m := by
  induction d with
  | empty => exact find?_cons name m e .empty
  | file n content rest ih | folder n inner rest _ ih =>
    by_cases hn : n = name
    · subst hn
      rw [put, if_pos rfl, find?_cons, find?]
      by_cases hm : n = m
      · rw [if_pos hm, if_pos hm]
      · rw [if_neg hm, if_neg hm, if_neg hm]
    · rw [put, if_neg hn, find?, ih, find?]
      by_cases hm : n = m
      · have hname : ¬ name = m := fun h => hn (hm.trans h.symm)
        rw [if_pos hm, if_pos hm, if_neg hname]
      · rw [if_neg hm, if_neg hm]

/-! ## At a place -/

@[simp] theorem look_nil (d : Dir) : d.look [] = .folder := rfl

/-- What stands at a place that starts with a name, by what the name stands for. -/
theorem look_cons (d : Dir) (name : String) (place : List String) :
    d.look (name :: place) =
      match d.find? name with
      | some (.folder inner) => inner.look place
      | some (.file content) => if place = [] then .file content else .nothing
      | none => .nothing := by
  rw [look, entry?]
  cases d.find? name with
  | none => rfl
  | some e =>
    cases e with
    | folder inner => rfl
    | file content => cases place <;> rfl

/-- A folder at a place that starts with a name is in the folder of that name. -/
theorem exists_find?_of_entry? {d inner : Dir} {n : String} {place : List String}
    (h : d.entry? (n :: place) = some (.folder inner)) :
    ∃ next, d.find? n = some (.folder next) ∧ next.entry? place = some (.folder inner) := by
  rw [Dir.entry?] at h
  cases hn : d.find? n with
  | none => simp [hn] at h
  | some found =>
    cases found with
    | file content =>
      simp only [hn] at h
      split at h <;> cases h
    | folder next => exact ⟨next, rfl, by simpa [hn] using h⟩

theorem entry?_cons_of_find? {d inner : Dir} {n : String} {place : List String}
    (h : d.find? n = some (.folder inner)) :
    d.entry? (n :: place) = inner.entry? place := by
  rw [Dir.entry?, h]

/-- Where a folder stands, something can be in it. -/
theorem exists_folder_of_look {d : Dir} {place : List String} (h : d.look place = .folder) :
    ∃ inner, d.entry? place = some (.folder inner) := by
  rw [look] at h
  cases hentry : d.entry? place with
  | none => simp [hentry, standingOf] at h
  | some found =>
    cases found with
    | file content => simp [hentry, standingOf, Entry.standing] at h
    | folder inner => exact ⟨inner, rfl⟩

/-- A folder at a place that starts with a name is a folder below the folder of that name. -/
theorem look_cons_eq_folder {d : Dir} {name : String} {place : List String}
    (h : d.look (name :: place) = .folder) :
    ∃ inner, d.find? name = some (.folder inner) ∧ inner.look place = .folder := by
  obtain ⟨found, hfound⟩ := exists_folder_of_look h
  obtain ⟨inner, hname, hinner⟩ := exists_find?_of_entry? hfound
  refine ⟨inner, hname, ?_⟩
  rw [look, hinner]
  rfl

/-- What stands one name below a place is in the folder at the place, if there is one. -/
theorem look_concat {d : Dir} {place : List String} (name : String)
    (h : d.look (place ++ [name]) ≠ .nothing) : d.look place = .folder := by
  induction place generalizing d with
  | nil => rfl
  | cons n place ih =>
    rw [List.cons_append, look_cons] at h
    rw [look_cons]
    cases hn : d.find? n with
    | none => simp [hn] at h
    | some e =>
      cases e with
      | file content => simp [hn] at h
      | folder inner =>
        simp only [hn] at h ⊢
        exact ih h

/-- All that a folder stands below is a folder. -/
theorem look_dropLast {d : Dir} {place : List String} (h : d.look place = .folder) :
    d.look place.dropLast = .folder := by
  rcases List.eq_nil_or_concat' place with rfl | ⟨front, last, rfl⟩
  · rfl
  · rw [List.dropLast_concat]
    exact look_concat last (by rw [h]; nofun)

/-- In a bare entry nothing stands but the entry itself. -/
theorem look_put_bare {d : Dir} {name : String} {e : Entry} (he : e.isBare = true)
    (hname : d.look [name] ≠ .folder) (q : List String) :
    (d.put name e).look q = if q = [name] then e.standing else d.look q := by
  cases q with
  | nil => rfl
  | cons m place =>
    rw [look_cons, find?_put, look_cons]
    by_cases hm : name = m
    · subst hm
      -- what was under the name is no folder, so that nothing stood below it either
      have hbelow : place ≠ [] → d.look (name :: place) = .nothing := by
        intro hplace
        rw [look_cons] at hname ⊢
        cases hfind : d.find? name with
        | none => rfl
        | some old =>
          cases old with
          | file content => simp [hplace]
          | folder inner => simp [hfind] at hname
      rw [look_cons] at hbelow
      cases place with
      | nil => cases e <;> simp [Entry.standing]
      | cons n ns =>
        rw [hbelow (List.cons_ne_nil n ns)]
        cases e with
        | file content => simp
        | folder inner =>
          have hinner : inner = .empty := by simpa [Entry.isBare] using he
          subst hinner
          simp [look_cons, find?]
    · rw [if_neg hm, if_neg]
      rintro h
      exact hm (List.cons.inj h).1.symm

/-- What is inserted below the folder of a name is inserted in that folder. -/
theorem insert_cons {d inner : Dir} {n : String} (h : d.find? n = some (.folder inner)) {e : Entry}
    {place : List String} (hplace : place ≠ []) :
    d.insert e (n :: place) = d.put n (.folder (inner.insert e place)) := by
  cases place with
  | nil => exact absurd rfl hplace
  | cons m place => simp [insert, h]

/-- **Putting a bare entry at a place changes what stands there and nowhere else.** The place has to
be in a folder and must not be a folder itself. -/
theorem look_insert {d : Dir} {place : List String} {name : String} {e : Entry}
    (he : e.isBare = true) (hparent : d.look place = .folder)
    (hplace : d.look (place ++ [name]) ≠ .folder) (q : List String) :
    (d.insert e (place ++ [name])).look q =
      if q = place ++ [name] then e.standing else d.look q := by
  induction place generalizing d q with
  | nil => exact look_put_bare he hplace q
  | cons n place ih =>
    obtain ⟨inner, hn, hinner⟩ := look_cons_eq_folder hparent
    have hnot : inner.look (place ++ [name]) ≠ .folder := by
      rw [List.cons_append, look_cons, hn] at hplace
      exact hplace
    have hstep : d.insert e (n :: place ++ [name]) =
        d.put n (.folder (inner.insert e (place ++ [name]))) := insert_cons hn (by simp)
    rw [hstep]
    cases q with
    | nil => rfl
    | cons m q =>
      rw [look_cons, find?_put, look_cons d m q]
      -- the place is below the first name: elsewhere the directory is as it was
      by_cases hm : n = m
      · subst hm
        simp only [hn, if_pos, List.cons_append, List.cons.injEq, true_and]
        exact ih hinner hnot q
      · have hq : m :: q ≠ n :: place ++ [name] := fun h => hm (List.cons.inj h).1.symm
        rw [if_neg hm, if_neg hq]

/-! ## Sound directories -/

/-- Whether a text can be the name of a file or folder. -/
def isName (name : String) : Bool :=
  name != "" && name != "." && name != ".." && !name.toList.contains '/' &&
    !name.toList.contains '\x00' && name.utf8ByteSize ≤ Files.maxNameBytes

theorem hasNull_of_isName {name : String} (h : isName name = true) : hasNull name = false := by
  simp only [isName, Bool.and_eq_true] at h
  simpa [hasNull] using h.1.2

theorem size_of_isName {name : String} (h : isName name = true) :
    name.utf8ByteSize ≤ Files.maxNameBytes := by
  simp only [isName, Bool.and_eq_true, decide_eq_true_eq] at h
  exact h.2

/-- Whether all names below are names, none of them given twice in one folder. -/
def isSound : Dir → Bool
  | .empty => true
  | .file name _ rest => isName name && (rest.find? name).isNone && rest.isSound
  | .folder name inner rest =>
    isName name && (rest.find? name).isNone && inner.isSound && rest.isSound

/-- What a name stands for in a sound directory is sound. -/
theorem isSound_of_find? {d inner : Dir} {name : String} (hsound : d.isSound = true)
    (h : d.find? name = some (.folder inner)) : inner.isSound = true := by
  induction d with
  | empty => simp [find?] at h
  | file n content rest ih =>
    simp only [isSound, Bool.and_eq_true] at hsound
    rw [find?] at h
    split at h
    · cases h
    · exact ih hsound.2 h
  | folder n found rest _ ih =>
    simp only [isSound, Bool.and_eq_true] at hsound
    rw [find?] at h
    split at h
    · cases h
      exact hsound.1.2
    · exact ih hsound.2 h

/-- The folders below a sound directory are sound. -/
theorem isSound_of_folder {d inner : Dir} {place : List String} (hsound : d.isSound = true)
    (h : d.entry? place = some (.folder inner)) : inner.isSound = true := by
  induction place generalizing d with
  | nil =>
    cases h
    exact hsound
  | cons n place ih =>
    obtain ⟨next, hn, hnext⟩ := exists_find?_of_entry? h
    exact ih (isSound_of_find? hsound hn) hnext

theorem mem_files_ne_nil {d : Dir} {names : List String} (h : names ∈ d.files) : names ≠ [] := by
  induction d with
  | empty => simp [files] at h
  | file n content rest ih =>
    rcases List.mem_cons.mp h with rfl | h
    · exact List.cons_ne_nil n []
    · exact ih h
  | folder n inner rest _ ih =>
    rcases List.mem_append.mp h with h | h
    · obtain ⟨tail, -, rfl⟩ := List.mem_map.mp h
      exact List.cons_ne_nil n tail
    · exact ih h

/-- What stands among the others of a folder still stands there when an entry of a new name is put
before them. -/
theorem look_eq_of_find?_eq_none {d rest : Dir} {n : String} {names : List String}
    (hd : ∀ m, n ≠ m → d.find? m = rest.find? m) (hn : rest.find? n = none)
    (h : rest.look names ≠ .nothing) : d.look names = rest.look names := by
  cases names with
  | nil => rfl
  | cons m place =>
    have hm : n ≠ m := by
      rintro rfl
      rw [look_cons, hn] at h
      exact h rfl
    rw [look_cons, look_cons, hd m hm]

/-- In a sound directory the listed files stand where they are listed, and are listed by names. -/
theorem exists_look_of_mem_files {d : Dir} (hsound : d.isSound = true) {names : List String}
    (h : names ∈ d.files) :
    (∃ content, d.look names = .file content) ∧ ∀ name ∈ names, isName name = true := by
  induction d generalizing names with
  | empty => simp [files] at h
  | file n content rest ih =>
    simp only [isSound, Bool.and_eq_true, Option.isNone_iff_eq_none] at hsound
    obtain ⟨⟨hname, hnone⟩, hrest⟩ := hsound
    rcases List.mem_cons.mp h with rfl | h
    · exact ⟨⟨content, by simp [look_cons, find?]⟩, by simpa using hname⟩
    · obtain ⟨⟨found, hfound⟩, hnames⟩ := ih hrest h
      refine ⟨⟨found, (look_eq_of_find?_eq_none ?_ hnone (by simp [hfound])).trans hfound⟩, hnames⟩
      intro m hm
      rw [find?, if_neg hm]
  | folder n inner rest ihInner ihRest =>
    simp only [isSound, Bool.and_eq_true, Option.isNone_iff_eq_none] at hsound
    obtain ⟨⟨⟨hname, hnone⟩, hinner⟩, hrest⟩ := hsound
    rcases List.mem_append.mp h with h | h
    · obtain ⟨tail, htail, rfl⟩ := List.mem_map.mp h
      obtain ⟨⟨found, hfound⟩, hnames⟩ := ihInner hinner htail
      refine ⟨⟨found, ?_⟩, List.forall_mem_cons.mpr ⟨hname, hnames⟩⟩
      simpa [look_cons, find?] using hfound
    · obtain ⟨⟨found, hfound⟩, hnames⟩ := ihRest hrest h
      refine ⟨⟨found, (look_eq_of_find?_eq_none ?_ hnone (by simp [hfound])).trans hfound⟩, hnames⟩
      intro m hm
      rw [find?, if_neg hm]

end Dir

end ClassChart
