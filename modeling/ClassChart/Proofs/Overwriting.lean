import ClassChart.Proofs.TreeEdits

/-!
# Files written over

A file that is written where a file stands takes its place and nothing else changes. Of several
files written over one another only the last one counts, and files at different places do not get in
each other's way. So whatever was written over some files, writing their old content again brings
back the file system as it was.

## Main definitions

* `Files.Overwrite`, `Files.Overwrites`: new content for files at given places

## Main results

* `Dir.insert_insert`, `Dir.insert_self`, `Dir.insert_comm`: the laws of writing over files
* `Files.Overwrites.restore`: a file that is given the content that it had
* `Files.write_of_read`: a file that can be read can be written over
* `Files.exists_write_again`: a file that was written can be written again after other edits
-/

namespace ClassChart

open Text (Bytes)

namespace Dir

variable {d : Dir}

/-! ## Under a name -/

theorem put_put (name : String) (e f : Entry) (d : Dir) :
    (d.put name e).put name f = d.put name f := by
  induction d with
  | empty => cases e <;> simp [put, cons]
  | file n content rest ih | folder n inner rest _ ih =>
    by_cases hn : n = name
    · cases e <;> simp [put, cons, hn]
    · simp [put, hn, ih]

theorem put_self {name : String} {e : Entry} (h : d.find? name = some e) : d.put name e = d := by
  induction d with
  | empty => cases h
  | file n content rest ih | folder n inner rest _ ih =>
    rw [find?] at h
    rw [put]
    split at h
    · rename_i hn
      cases h
      rw [if_pos hn, ← hn, cons]
    · rename_i hn
      rw [if_neg hn, ih h]

/-- Entries of two names that are there take their places in either order. -/
theorem put_comm {a b : String} (hab : a ≠ b) {e f : Entry} (ha : (d.find? a).isSome = true)
    (hb : (d.find? b).isSome = true) : (d.put a e).put b f = (d.put b f).put a e := by
  induction d with
  | empty => cases ha
  | file n content rest ih | folder n inner rest _ ih =>
    rw [find?] at ha hb
    by_cases hna : n = a
    · subst hna
      cases e <;> simp [put, cons, hab]
    · by_cases hnb : n = b
      · subst hnb
        cases f <;> simp [put, cons, hna]
      · rw [if_neg hna] at ha
        rw [if_neg hnb] at hb
        simp [put, hna, hnb, ih ha hb]

/-! ## At a place -/

/-- A file stands under its name, or in the folder that its place starts with. -/
theorem look_eq_file_cases {n : String} {place : List String} {content : Bytes}
    (h : d.look (n :: place) = .file content) :
    (place = [] ∧ d.find? n = some (.file content)) ∨
      ∃ inner, place ≠ [] ∧ d.find? n = some (.folder inner) ∧
        inner.look place = .file content := by
  rw [look_cons] at h
  cases hn : d.find? n with
  | none => simp [hn] at h
  | some found =>
    cases found with
    | file old =>
      simp only [hn] at h
      split at h
      · rename_i hplace
        cases h
        exact .inl ⟨hplace, rfl⟩
      · cases h
    | folder inner =>
      simp only [hn] at h
      refine .inr ⟨inner, ?_, rfl, h⟩
      rintro rfl
      cases h

/-- A file stands in a folder. -/
theorem exists_concat_of_look {place : List String} {content : Bytes}
    (h : d.look place = .file content) :
    ∃ front name, place = front ++ [name] ∧ d.look front = .folder := by
  rcases List.eq_nil_or_concat' place with rfl | ⟨front, name, rfl⟩
  · cases h
  · exact ⟨front, name, rfl, look_concat name (by rw [h]; nofun)⟩

/-- What stands where after a file is written over. -/
theorem look_insert_file {place : List String} {old : Bytes} (h : d.look place = .file old)
    (new : Bytes) (q : List String) :
    (d.insert (.file new) place).look q = if q = place then .file new else d.look q := by
  obtain ⟨front, name, rfl, hfront⟩ := exists_concat_of_look h
  exact look_insert (e := .file new) rfl hfront (by rw [h]; nofun) q

/-- Writing over a file puts an entry under the name that its place starts with. -/
theorem exists_put_of_look {n : String} {place : List String} {content : Bytes}
    (h : d.look (n :: place) = .file content) (new : Bytes) :
    (d.find? n).isSome = true ∧ ∃ e, ∀ other : Dir, other.find? n = d.find? n →
      other.insert (.file new) (n :: place) = other.put n e := by
  rcases look_eq_file_cases h with ⟨rfl, hfile⟩ | ⟨inner, hplace, hfolder, -⟩
  · exact ⟨by rw [hfile]; rfl, .file new, fun other _ => rfl⟩
  · refine ⟨by rw [hfolder]; rfl, .folder (inner.insert (.file new) place), ?_⟩
    exact fun other hother => insert_cons (hother.trans hfolder) hplace

/-- **The file written last counts.** -/
theorem insert_insert {place : List String} {content : Bytes} (h : d.look place = .file content)
    (old new : Bytes) :
    (d.insert (.file old) place).insert (.file new) place = d.insert (.file new) place := by
  induction place generalizing d with
  | nil => cases h
  | cons n place ih =>
    rcases look_eq_file_cases h with ⟨rfl, -⟩ | ⟨inner, hplace, hfolder, hlook⟩
    · exact put_put n _ _ d
    · rw [insert_cons hfolder hplace, insert_cons hfolder hplace,
        insert_cons (by rw [find?_put, if_pos rfl]) hplace, ih hlook, put_put]

/-- **A file written with the content it has** changes nothing. -/
theorem insert_self {place : List String} {content : Bytes} (h : d.look place = .file content) :
    d.insert (.file content) place = d := by
  induction place generalizing d with
  | nil => cases h
  | cons n place ih =>
    rcases look_eq_file_cases h with ⟨rfl, hfile⟩ | ⟨inner, hplace, hfolder, hlook⟩
    · exact put_self hfile
    · rw [insert_cons hfolder hplace, ih hlook, put_self hfolder]

/-- **Files at different places** are written over in either order. -/
theorem insert_comm {place other : List String} (hne : place ≠ other) {content found : Bytes}
    (h : d.look place = .file content) (k : d.look other = .file found) (a b : Bytes) :
    (d.insert (.file a) place).insert (.file b) other =
      (d.insert (.file b) other).insert (.file a) place := by
  induction place generalizing d other with
  | nil => cases h
  | cons n place ih =>
    cases other with
    | nil => cases k
    | cons m other =>
      by_cases hnm : n = m
      · subst hnm
        rcases look_eq_file_cases h with ⟨rfl, hfile⟩ | ⟨inner, hplace, hfolder, hlook⟩
        · -- the other file would stand in a folder of the same name
          rcases look_eq_file_cases k with ⟨rfl, -⟩ | ⟨_, -, hother, -⟩
          · exact absurd rfl hne
          · rw [hfile] at hother
            cases hother
        · rcases look_eq_file_cases k with ⟨rfl, hfile⟩ | ⟨inner', hother, hfolder', hlook'⟩
          · rw [hfolder] at hfile
            cases hfile
          · obtain rfl : inner = inner' := by simpa [hfolder] using hfolder'
            have hfound (e : Entry) : (d.put n e).find? n = some e := by rw [find?_put, if_pos rfl]
            have hdiffer : place ≠ other := fun heq => hne (by rw [heq])
            rw [insert_cons hfolder hplace, insert_cons hfolder hother,
              insert_cons (hfound _) hother, insert_cons (hfound _) hplace, put_put, put_put,
              ih hdiffer hlook hlook']
      · obtain ⟨hn, e, he⟩ := exists_put_of_look h a
        obtain ⟨hm, f, hf⟩ := exists_put_of_look k b
        rw [he d rfl, hf d rfl, hf _ (by rw [find?_put, if_neg hnm]),
          he _ (by rw [find?_put, if_neg (Ne.symm hnm)]), put_comm hnm hn hm]

end Dir

namespace Files

variable {S : List String → Prop} {fs next : Files} {place : List String}

/-! ## Writing over files -/

/-- One file in a place `S` has new content. -/
def Overwrite (S : List String → Prop) (fs next : Files) : Prop :=
  ∃ place old content, S place ∧ fs.look place = .file old ∧
    next = { fs with root := fs.root.insert (.file content) place }

/-- Files in places `S` have new content. -/
def Overwrites (S : List String → Prop) : Files → Files → Prop :=
  Relation.ReflTransGen (Overwrite S)

/-- Writing over a file is an edit. -/
theorem Overwrite.edit (h : Overwrite S fs next) : Edit S fs next := by
  obtain ⟨place, old, content, hS, hlook, rfl⟩ := h
  obtain ⟨front, name, rfl, hfront⟩ := Dir.exists_concat_of_look hlook
  exact .file content hfront (by rw [hlook]; nofun) hS

theorem Overwrites.edits (h : Overwrites S fs next) : Edits S fs next :=
  Relation.ReflTransGen.mono (fun _ _ => Overwrite.edit) _ _ h

/-- Where no file may be written over, nothing changes. -/
theorem Overwrites.eq (h : Overwrites S fs next) (hS : ∀ q, ¬ S q) : next = fs := by
  induction h with
  | refl => rfl
  | tail _ hstep _ =>
    obtain ⟨place, -, -, hplace, -⟩ := hstep
    exact absurd hplace (hS place)

/-- Files stay files. -/
theorem Overwrites.exists_look (h : Overwrites S fs next) {content : Bytes}
    (hlook : fs.look place = .file content) : ∃ now, next.look place = .file now := by
  rcases h.edits.grows.look_cases place with hsame | ⟨-, -, hfile⟩ | ⟨hnothing, -⟩
  · exact ⟨content, hsame.trans hlook⟩
  · exact hfile
  · rw [hlook] at hnothing
    cases hnothing

/-- **Restoring a file.** Of files that were written over, the one at a place is given the content
that it had. Then it is no longer one of those, unless it may be written over again. -/
theorem Overwrites.restore {old content : Bytes} (h : Overwrites (fun q => q = place ∨ S q) fs next)
    (hold : fs.look place = .file old) (hcontent : S place ∨ fs.look place = .file content) :
    Overwrites S fs { next with root := next.root.insert (.file content) place } := by
  -- the restored file is moved before the others, one after the other, until it changes nothing
  induction h with
  | refl =>
    rcases hcontent with hS | hsame
    · exact .single ⟨place, old, content, hS, hold, rfl⟩
    · have hroot : fs.root.insert (.file content) place = fs.root := Dir.insert_self hsame
      rw [hroot]
      exact .refl
  | @tail made next hmade hstep ih =>
    obtain ⟨other, found, new, hother, hfound, rfl⟩ := hstep
    obtain ⟨now, hnow⟩ := Overwrites.exists_look hmade hold
    by_cases hsame : other = place
    · -- what was written there last does not count
      subst hsame
      have hroot := Dir.insert_insert hfound new content
      simp only [hroot]
      exact ih
    · have hroot := Dir.insert_comm (Ne.symm hsame) hnow hfound content new
      simp only [← hroot]
      refine ih.tail ⟨other, found, new, hother.resolve_left hsame, ?_, rfl⟩
      rw [look, Dir.look_insert_file hnow, if_neg hsame]
      exact hfound

/-- A file that can be read can be written over, and its directory need not be made. -/
theorem write_of_read {p : Path} {old : Bytes} (h : fs.read p = .ok old) (hne : p.parts ≠ [])
    (content : Bytes) :
    fs.makeDirs p.parent = (.ok (), fs) ∧ fs.write p content =
      .ok { fs with root := fs.root.insert (.file content) (p.resolve fs.cwd) } := by
  obtain ⟨hfits, hpassed, hlook⟩ := read_eq_ok_iff.mp h
  constructor
  · refine makeDirs_of_folders hfits.parent fun q hq => hpassed q ?_
    exact (Path.mem_passed_iff hne).mpr hq
  · exact write_eq_ok_iff.mpr ⟨hfits, hpassed, by rw [hlook]; nofun, rfl⟩

/-! ## Writing again -/

section Again

variable {p : Path} {made after last : Files} {content : Bytes}

/-- A file written after its directory was made, and all edits later on. -/
theorem edits_of_write (hbase : fs.look (p.base fs.cwd) = .folder)
    (hmade : fs.makeDirs p.parent = (.ok (), made)) (hafter : made.write p content = .ok after)
    (hlater : Edits S after last) : Edits (fun q => q = p.resolve fs.cwd ∨ S q) fs last := by
  have hdirs := edits_makeDirs (P := fun q => q = p.resolve fs.cwd ∨ S q) (p := p.parent) hbase
  rw [hmade] at hdirs
  have hwrite := edit_write (P := fun q => q = p.resolve fs.cwd ∨ S q)
    (hdirs.grows.look_base hbase) (.inl (by rw [hdirs.grows.cwd_eq])) hafter
  exact (hdirs.tail hwrite).trans (hlater.mono fun q => .inr)

/-- **A file that was written is written again** after all edits, whatever is in it by then. Its
content is then the one at the end of the edits, unless it was written in them as well. -/
theorem exists_write_again (hbase : fs.look (p.base fs.cwd) = .folder) (hne : p.parts ≠ [])
    (hmade : fs.makeDirs p.parent = (.ok (), made)) (hafter : made.write p content = .ok after)
    (hlater : Edits S after last)
    (hover : Overwrites (fun q => q = p.resolve fs.cwd ∨ S q) last next) :
    next.makeDirs p.parent = (.ok (), next) ∧
      ∃ restored, next.write p content = .ok restored ∧ Overwrites S last restored := by
  have hdirs := edits_makeDirs (P := S) (p := p.parent) hbase
  rw [hmade] at hdirs
  have hwritten := read_of_write (hdirs.grows.look_base hbase) hafter
  -- the file is there at the end of the edits, and it is there now
  obtain ⟨⟨old, hold⟩, hsame⟩ := hlater.grows.read_of_read hwritten
  obtain ⟨⟨found, hfound⟩, -⟩ := hover.edits.grows.read_of_read hold
  obtain ⟨hdirsNow, hwriteNow⟩ := write_of_read hfound hne content
  refine ⟨hdirsNow, _, hwriteNow, ?_⟩
  have hcwd := (edits_of_write hbase hmade hafter hlater).grows.cwd_eq
  have hlook {c : Bytes} (h : last.read p = .ok c) : last.look (p.resolve fs.cwd) = .file c := by
    rw [← hcwd]
    exact (read_eq_ok_iff.mp h).2.2
  have hplace : p.resolve next.cwd = p.resolve fs.cwd := by rw [hover.edits.grows.cwd_eq, hcwd]
  rw [hplace]
  apply hover.restore (hlook hold)
  by_cases hS : S (p.resolve fs.cwd)
  · exact .inl hS
  · refine .inr (hlook (hsame ?_))
    rwa [← hlater.grows.cwd_eq, hcwd]

end Again

end Files

end ClassChart
