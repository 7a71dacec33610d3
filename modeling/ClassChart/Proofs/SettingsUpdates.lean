import ClassChart.Proofs.Decoding
import ClassChart.Proofs.JsonText
import ClassChart.Proofs.SettingsLookup
import ClassChart.Proofs.SourceListing
import ClassChart.Proofs.TreeEdits

/-!
# Updates of settings

Saving settings either fails and changes no file, or it changes the settings file and its directory
only, and what is loaded then are the settings loaded before, updated. The one exception is a
settings file whose path is too long while that of its directory is not: then the directory is made
before the failure. After any number of successful updates the settings in force are those that were
set last.

## Main definitions

* `Saves`: a file system with settings saved in it
* `saveEach`: a sequence of updates

## Main results

* `saveSettings_cases`: what saving settings does
* `settingsAt_saveEach`: the settings after a sequence of updates
* `saveSettings_merges`: both, in terms of what is loaded and in force
-/

namespace ClassChart

/-! ## Making a directory -/

/-- A path of some names starts at the first place that it passes. -/
theorem Files.look_base_of_passed {fs : Files} {p : Path} (hp : p.parts ≠ [])
    (h : ∀ r ∈ p.passed fs.cwd, fs.look r = .folder) : fs.look (p.base fs.cwd) = .folder := by
  apply h
  rw [Path.passed]
  cases hparts : p.parts with
  | nil => exact absurd hparts hp
  | cons name names => exact List.mem_cons_self

/-- Making a directory that may be there fails, or finds the directory, or makes it. -/
theorem Files.ensureDir_cases (fs : Files) {p : Path} (hp : p.parts ≠ []) :
    (∃ fault, fs.ensureDir p = .error fault) ∨
      (p.Fits ∧ ∀ r ∈ p.passed fs.cwd, fs.look r = .folder) ∧
        (fs.look (p.resolve fs.cwd) = .folder ∧ fs.ensureDir p = .ok fs ∨
          fs.look (p.resolve fs.cwd) = .nothing ∧
            ∃ next, fs.ensureDir p = .ok next ∧ AddsFolders fs next (· = p.resolve fs.cwd)) := by
  cases hmade : fs.ensureDir p with
  | error fault => exact .inl ⟨fault, rfl⟩
  | ok next =>
    obtain ⟨hfits, hpassed, ⟨hfolder, rfl⟩ | ⟨hnothing, -⟩⟩ := ensureDir_eq_ok hmade
    · exact .inr ⟨⟨hfits, hpassed⟩, .inl ⟨hfolder, rfl⟩⟩
    · refine .inr ⟨⟨hfits, hpassed⟩, .inr ⟨hnothing, ?_⟩⟩
      rw [← hmade]
      exact ensureDir_ok hfits (look_base_of_passed hp hpassed) hpassed (by simp [hnothing])

/-- No file can be written where a directory stands. -/
theorem Files.write_folder {fs : Files} {p : Path} (hfits : p.Fits)
    (hpassed : ∀ r ∈ p.passed fs.cwd, fs.look r = .folder)
    (hplace : fs.look (p.resolve fs.cwd) = .folder) (content : Text.Bytes) :
    fs.write p content = .error .isDirectory := by
  rw [write_of_locate (locate_eq_ok_iff.mpr ⟨hfits, hpassed, rfl⟩), hplace]

/-! ## The place of the settings file -/

variable {fs : Files} {root : Path}

theorem resolve_settingsPath (cwd : List String) (root : Path) :
    (settingsPath root).resolve cwd = (settingsDir root).resolve cwd ++ ["config.json"] := by
  rw [settingsPath, Path.resolve_join]
  rfl

theorem passed_settingsPath (cwd : List String) (root : Path) :
    (settingsPath root).passed cwd =
      (settingsDir root).passed cwd ++ [(settingsDir root).resolve cwd] := by
  rw [settingsPath, Path.passed_join]
  rfl

theorem settingsDir_parts_ne_nil (root : Path) : (settingsDir root).parts ≠ [] := by
  simp [settingsDir, Path.join]

theorem settingsPath_parts_ne_nil (root : Path) : (settingsPath root).parts ≠ [] := by
  simp [settingsPath, Path.join]

theorem mem_settingsPath_parts {name : String} (h : name ∈ (settingsPath root).parts) :
    name ∈ (settingsDir root).parts ∨ name = "config.json" :=
  (List.mem_append.mp h).imp_right List.mem_singleton.mp

theorem hasNull_settingsPath (h : (settingsDir root).Fits) : (settingsPath root).hasNull = false := by
  have hnull := h.noNull
  rw [Path.hasNull, List.any_eq_false] at hnull ⊢
  intro name hname
  rcases mem_settingsPath_parts hname with hname | rfl
  · exact hnull name hname
  · decide

/-- The path of the settings file fits if that of its directory does and it is not too long. -/
theorem fits_settingsPath (h : (settingsDir root).Fits)
    (hshort : Files.isShort (settingsPath root) = true) : (settingsPath root).Fits where
  noNull := hasNull_settingsPath h
  short := hshort
  names_short := by
    intro name hname
    rcases mem_settingsPath_parts hname with hname | rfl
    · exact h.names_short name hname
    · decide

/-- No name along a path that fits is too long. -/
theorem Files.follow_ne_tooLong {root : Dir} {place names : List String}
    (h : ∀ name ∈ names, name.utf8ByteSize ≤ maxNameBytes) :
    follow root place names ≠ .error .tooLong := by
  induction names generalizing place with
  | nil => nofun
  | cons name names ih =>
    obtain ⟨hname, hnames⟩ := List.forall_mem_cons.mp h
    rw [follow_cons, if_pos hname]
    split
    · exact ih hnames
    · nofun
    · nofun

theorem Files.exists_probe_of_fits (fs : Files) {p : Path} (h : p.Fits) :
    ∃ found, fs.probe p = .ok found := by
  have hlocate : fs.locate p = follow fs.root (p.base fs.cwd) p.parts := by
    rw [locate, if_neg (by simp [h.noNull]), if_pos h.short]
  have hne : fs.locate p ≠ .error .tooLong := hlocate ▸ follow_ne_tooLong h.names_short
  rw [probe]
  cases hresult : fs.locate p with
  | ok q => exact ⟨_, rfl⟩
  | error fault =>
    cases fault with
    | tooLong => exact absurd hresult hne
    | _ => exact ⟨none, rfl⟩

theorem settingsAt_of_read_error (h : ∀ content, fs.read (settingsPath root) ≠ .ok content) :
    settingsAt fs root = [] := by
  cases hread : fs.read (settingsPath root) with
  | ok content => exact absurd hread (h content)
  | error fault =>
    rw [settingsAt, hread]
    rfl

/-- Where the directory of the settings file is missing there are no settings. -/
theorem settingsAt_of_missing (h : fs.look ((settingsDir root).resolve fs.cwd) = .nothing) :
    settingsAt fs root = [] := by
  apply settingsAt_of_read_error
  intro content hread
  obtain ⟨-, hpassed, -⟩ := Files.read_eq_ok_iff.mp hread
  have hmem : (settingsDir root).resolve fs.cwd ∈ (settingsPath root).passed fs.cwd := by
    rw [passed_settingsPath]
    exact List.mem_append_right _ List.mem_cons_self
  have hfolder := hpassed _ hmem
  rw [h] at hfolder
  cases hfolder

/-- A new directory for the settings file has no settings in it. -/
theorem settingsAt_of_made {next : Files}
    (h : fs.look ((settingsDir root).resolve fs.cwd) = .nothing)
    (hadds : fs.AddsFolders next (· = (settingsDir root).resolve fs.cwd)) :
    settingsAt next root = [] := by
  apply settingsAt_of_read_error
  intro content hread
  obtain ⟨-, -, hlook⟩ := Files.read_eq_ok_iff.mp hread
  rw [hadds.cwd_eq, resolve_settingsPath, hadds.other _ (by simp)] at hlook
  have hfolder : fs.look ((settingsDir root).resolve fs.cwd) = .folder :=
    Dir.look_concat "config.json" (by rw [← Files.look, hlook]; simp)
  rw [h] at hfolder
  cases hfolder

/-! ## Saving settings -/

/-- The bytes of a settings file. -/
def settingsBytes (settings : Object) : Text.Bytes :=
  Text.Utf8.encode (Json.text (.indented 2) (.obj settings))

/-- The file system `next` is `fs` with settings saved for the project at a root: the directory of
the settings file is there, the file holds the settings, and nothing else is changed. -/
structure Saves (fs next : Files) (root : Path) (settings : Object) : Prop where
  cwd_eq : next.cwd = fs.cwd
  folder : next.look ((settingsDir root).resolve fs.cwd) = .folder
  file : next.look ((settingsPath root).resolve fs.cwd) = .file (settingsBytes settings)
  other : ∀ q, q ≠ (settingsDir root).resolve fs.cwd → q ≠ (settingsPath root).resolve fs.cwd →
    next.look q = fs.look q

/-- A failed run leaves all files. Where the path of the settings file is too long and nothing stands
in the place of its directory, it leaves the directory there. -/
def LeavesFiles (fs next : Files) (root : Path) : Prop :=
  next = fs ∨ Files.isShort (settingsPath root) = false ∧
    fs.look ((settingsDir root).resolve fs.cwd) = .nothing ∧
    fs.AddsFolders next (· = (settingsDir root).resolve fs.cwd)

theorem on_ensureDir_ok {w : World} {p : Path} {next : Files} (h : w.files.ensureDir p = .ok next) :
    (Job.ensureDir p).on w = (.ok (), { w with files := next }) := by
  rw [Job.ensureDir, Job.on_bind_ok (Job.on_files w), h]
  rfl

theorem on_ensureDir_error {w : World} {p : Path} {fault : FileFault}
    (h : w.files.ensureDir p = .error fault) :
    (Job.ensureDir p).on w = (.error (.access (.file fault)), w) := by
  rw [Job.ensureDir, Job.on_bind_ok (Job.on_files w), h]
  rfl

/-- Saving settings in a file whose path is too long fails once their directory is there. -/
theorem saveSettings_of_long {w : World} {made : Files}
    (hmade : w.files.ensureDir (settingsDir root) = .ok made) (hdir : (settingsDir root).Fits)
    (hlong : Files.isShort (settingsPath root) = false) (updates : Object) :
    (saveSettings updates root).on w =
      (.error (.access (.file .tooLong)), { w with files := made }) := by
  have hprobe : made.probe (settingsPath root) = .error .tooLong := by
    rw [Files.probe, Files.locate, if_neg (by simp [hasNull_settingsPath hdir]),
      if_neg (by simp [hlong])]
  have hload := loadSettings_of_fault (w := { w with files := made }) hprobe
  rw [saveSettings, Job.on_bind_ok (on_ensureDir_ok hmade), Job.on_bind_error hload]

/-- Saving settings once their directory is there. -/
theorem saveSettings_of_dir {w : World} {updates : Object} {made : Files}
    (hmade : w.files.ensureDir (settingsDir root) = .ok made) (hdir : (settingsDir root).Fits)
    (hpassed : ∀ r ∈ (settingsPath root).passed made.cwd, made.look r = .folder) :
    (Files.isShort (settingsPath root) = false ∧
        (saveSettings updates root).on w =
          (.error (.access (.file .tooLong)), { w with files := made })) ∨
      (made.look ((settingsPath root).resolve made.cwd) = .folder ∧
        ∃ failure next, (saveSettings updates root).on w = (.error failure, next) ∧
          next.files = made) ∨
      ∃ next, (saveSettings updates root).on w = (.ok (settingsPath root), next) ∧
        (settingsPath root).Fits ∧ made.look ((settingsPath root).resolve made.cwd) ≠ .folder ∧
        next.files.cwd = made.cwd ∧
        ∀ q, next.files.look q =
          if q = (settingsPath root).resolve made.cwd then
            .file (settingsBytes ((settingsAt made root).merge updates))
          else made.look q := by
  have hstart := on_ensureDir_ok hmade
  cases hshort : Files.isShort (settingsPath root) with
  | false => exact .inl ⟨rfl, saveSettings_of_long hmade hdir hshort updates⟩
  | true =>
    have hfits := fits_settingsPath hdir hshort
    obtain ⟨found, hfound⟩ := made.exists_probe_of_fits hfits
    obtain ⟨ns, hload⟩ := loadSettings_of_probe (w := { w with files := made }) hfound
    have hbase := Files.look_base_of_passed (settingsPath_parts_ne_nil root) hpassed
    right
    by_cases hplace : made.look ((settingsPath root).resolve made.cwd) = .folder
    · -- a directory stands where the settings file would
      refine .inl ⟨hplace, .access (.file .isDirectory), World.noting { w with files := made } ns,
        ?_, rfl⟩
      rw [saveSettings, Job.on_bind_ok hstart, Job.on_bind_ok hload]
      apply Job.on_bind_error
      rw [Job.on_write, World.noting_files, Files.write_folder hfits hpassed hplace]
    · obtain ⟨next, hnext, hcwd, hlook⟩ := Files.write_ok hfits hbase hpassed hplace
        (settingsBytes ((settingsAt made root).merge updates))
      refine .inr ⟨{ World.noting { w with files := made } ns with files := next }, ?_, hfits, hplace,
        hcwd, hlook⟩
      have hwrite := Job.on_write (World.noting { w with files := made } ns) (settingsPath root)
        (Json.text (.indented 2) (.obj ((settingsAt made root).merge updates)))
      rw [World.noting_files, ← settingsBytes, hnext] at hwrite
      rw [saveSettings, Job.on_bind_ok hstart, Job.on_bind_ok hload, Job.on_bind_ok hwrite]
      rfl

/-- Settings that were read are faithful. -/
theorem isFaithful_settingsAt (fs : Files) (root : Path) :
    (Json.obj (settingsAt fs root)).IsFaithful := by
  -- settings are a value that was read, or the empty object in place of one
  have hempty : (Json.obj []).IsFaithful := ⟨List.nodup_nil, trivial⟩
  rw [settingsAt]
  split
  · rename_i fields hread
    cases hcontent : fs.read (settingsPath root) with
    | error fault =>
      rw [hcontent] at hread
      cases hread
    | ok bytes =>
      rw [hcontent, readSettings] at hread
      split at hread
      · cases hread
      · split at hread
        · rename_i value hvalue
          obtain rfl := Except.ok.inj hread
          exact Json.isFaithful_of_parse hvalue
        · cases hread
  · exact hempty

theorem isFaithful_merge {o updates : Object} (ho : (Json.obj o).IsFaithful)
    (hupdates : (Json.obj updates).IsFaithful) : (Json.obj (o.merge updates)).IsFaithful := by
  refine ⟨Object.nodup_merge ho.1 updates, ?_⟩
  exact Json.hasFaithful_iff.mpr (Object.forall_mem_merge (Json.hasFaithful_iff.mp ho.2)
    (Json.hasFaithful_iff.mp hupdates.2))

/-- Settings that were saved are read back. -/
theorem readSettings_settingsBytes {settings : Object} (h : (Json.obj settings).IsFaithful) :
    readSettings (.ok (settingsBytes settings)) = .ok (.obj settings) := by
  rw [readSettings, settingsBytes]
  simp only [Text.Utf8.decode_eq_ok_iff.mpr rfl, Json.parse_text _ h]

theorem Saves.settingsAt_eq {next : Files} {settings : Object} (h : Saves fs next root settings)
    (hfits : (settingsPath root).Fits)
    (hpassed : ∀ r ∈ (settingsPath root).passed fs.cwd, next.look r = .folder)
    (hsettings : (Json.obj settings).IsFaithful) : settingsAt next root = settings := by
  have hread : next.read (settingsPath root) = .ok (settingsBytes settings) := by
    rw [Files.read_eq_ok_iff, h.cwd_eq]
    exact ⟨hfits, hpassed, h.file⟩
  rw [settingsAt, hread, readSettings_settingsBytes hsettings]

/-- **What saving settings does**: it fails and leaves the files, or saves the settings updated. -/
theorem saveSettings_cases (w : World) (root : Path) {updates : Object}
    (hupdates : (Json.obj updates).IsFaithful) :
    (∃ failure next, (saveSettings updates root).on w = (.error failure, next) ∧
      LeavesFiles w.files next.files root) ∨
    ∃ next, (saveSettings updates root).on w = (.ok (settingsPath root), next) ∧
      (settingsPath root).Fits ∧
      Saves w.files next.files root ((settingsAt w.files root).merge updates) ∧
      settingsAt next.files root = (settingsAt w.files root).merge updates := by
  rcases w.files.ensureDir_cases (settingsDir_parts_ne_nil root) with
    ⟨fault, hfault⟩ | ⟨⟨hfits, hpassed⟩, hmade⟩
  · refine .inl ⟨.access (.file fault), w, ?_, .inl rfl⟩
    rw [saveSettings, Job.on_bind_error (on_ensureDir_error hfault)]
  · -- the directory was there, or it is made and there are no settings yet
    obtain ⟨made, hmade, hadds, hsame, hold⟩ : ∃ made,
        w.files.ensureDir (settingsDir root) = .ok made ∧
        w.files.AddsFolders made (· = (settingsDir root).resolve w.files.cwd) ∧
        (made = w.files ∨ w.files.look ((settingsDir root).resolve w.files.cwd) = .nothing) ∧
        settingsAt made root = settingsAt w.files root := by
      rcases hmade with ⟨hfolder, hfound⟩ | ⟨hnothing, made, hmade, hadds⟩
      · refine ⟨w.files, hfound, .of_folders ?_, .inl rfl, rfl⟩
        rintro q rfl
        exact hfolder
      · refine ⟨made, hmade, hadds, .inr hnothing, ?_⟩
        rw [settingsAt_of_made hnothing hadds, settingsAt_of_missing hnothing]
    have hpassedMade : ∀ r ∈ (settingsPath root).passed made.cwd, made.look r = .folder := by
      intro r hr
      rw [hadds.cwd_eq, passed_settingsPath] at hr
      rcases List.mem_append.mp hr with hr | hr
      · exact hadds.look_folder (hpassed r hr)
      · exact hadds.folder r (List.mem_singleton.mp hr)
    have hplace : (settingsPath root).resolve w.files.cwd ≠ (settingsDir root).resolve w.files.cwd := by
      rw [resolve_settingsPath]
      simp
    rcases saveSettings_of_dir hmade hfits hpassedMade with
      ⟨hlong, hrun⟩ | ⟨hfolder, failure, next, hrun, hnext⟩ | ⟨next, hrun, hpath, hfile, hcwd, hlook⟩
    · exact .inl ⟨_, _, hrun, hsame.imp_right fun hnothing => ⟨hlong, hnothing, hadds⟩⟩
    · refine .inl ⟨failure, next, hrun, .inl ?_⟩
      -- the directory that stands in the way was there before, and so was the one it is in
      rw [hadds.cwd_eq, hadds.other _ hplace, resolve_settingsPath] at hfolder
      have hthere : w.files.look ((settingsDir root).resolve w.files.cwd) = .folder :=
        Dir.look_concat "config.json" (by rw [← Files.look, hfolder]; simp)
      rw [hnext]
      exact hsame.resolve_right (by rw [hthere]; simp)
    · rw [hadds.cwd_eq] at hcwd hlook hpassedMade hfile
      rw [hold] at hlook
      have hsaves : Saves w.files next.files root ((settingsAt w.files root).merge updates) := by
        refine ⟨hcwd, ?_, ?_, ?_⟩
        · rw [hlook, if_neg hplace.symm, hadds.folder _ rfl]
        · rw [hlook, if_pos rfl]
        · intro q hdir hq
          rw [hlook, if_neg hq, hadds.other q hdir]
      refine .inr ⟨next, hrun, hpath, hsaves, hsaves.settingsAt_eq hpath ?_
        (isFaithful_merge (isFaithful_settingsAt w.files root) hupdates)⟩
      intro r hr
      rw [hlook, if_neg (by rintro rfl; exact hfile (hpassedMade _ hr))]
      exact hpassedMade r hr

/-! ## Sequences of updates -/

/-- Saves updates one after the other. -/
def saveEach (root : Path) : List Object → Job Unit
  | [] => pure ()
  | updates :: rest => do
    let _ ← saveSettings updates root
    saveEach root rest

/-- **The settings after a sequence of updates** are those before with the updates merged in turn. -/
theorem settingsAt_saveEach {root : Path} {updates : List Object} {w next : World}
    (hupdates : ∀ u ∈ updates, (Json.obj u).IsFaithful)
    (hrun : (saveEach root updates).on w = (.ok (), next)) :
    settingsAt next.files root = updates.foldl Object.merge (settingsAt w.files root) ∧
      (updates ≠ [] → (settingsPath root).Fits) := by
  induction updates generalizing w with
  | nil =>
    obtain rfl : w = next := (Prod.mk.inj hrun).2
    exact ⟨rfl, fun h => absurd rfl h⟩
  | cons u updates ih =>
    obtain ⟨hu, hrest⟩ := List.forall_mem_cons.mp hupdates
    -- a failure would have ended the sequence
    rcases saveSettings_cases w root hu with
      ⟨failure, after, hsave, -⟩ | ⟨after, hsave, hfits, -, hsettings⟩
    · rw [saveEach, Job.on_bind_error hsave] at hrun
      cases hrun
    · rw [saveEach, Job.on_bind_ok hsave] at hrun
      obtain ⟨hnext, -⟩ := ih hrest hrun
      rw [hnext, hsettings]
      exact ⟨rfl, fun _ => hfits⟩

/-- **Updates of settings are merges.** An update fails and leaves the files, or changes only the
settings file and its directory, and then the settings loaded are those loaded before, updated; a
settings file that is missing or of no use counts as empty. After any sequence of successful updates
the settings in force are those set last. -/
theorem saveSettings_merges (root : Path) (w : World) :
    (∀ updates, (Json.obj updates).IsFaithful →
      (∃ failure next, (saveSettings updates root).on w = (.error failure, next) ∧
        LeavesFiles w.files next.files root) ∨
      ∃ next old new, (saveSettings updates root).on w = (.ok (settingsPath root), next) ∧
        Saves w.files next.files root new ∧
        ((loadSettings root).on w).1 = .ok old ∧
        ((∀ fields, readSettings (w.files.read (settingsPath root)) ≠ .ok (.obj fields)) → old = []) ∧
        ((loadSettings root).on next).1 = .ok new ∧
        new = old.merge updates ∧ old.IsUpdate updates new) ∧
    ∀ updates next, (∀ u ∈ updates, (Json.obj u).IsFaithful) →
      (saveEach root updates).on w = (.ok (), next) →
      (∀ host value, host.indentVariable = none →
        Object.lastValue? "indent" updates = some (.str value) →
        ((resolveIndent host none root).on next).1 = .ok (normalizeIndent value)) ∧
      ∀ framed, Object.lastValue? "wrap" updates = some (.bool framed) →
        ((resolveFrame none root).on next).1 = .ok framed := by
  refine ⟨?_, ?_⟩
  · intro updates hupdates
    rcases saveSettings_cases w root hupdates with hfails | ⟨next, hrun, hfits, hsaves, hsettings⟩
    · exact .inl hfails
    obtain ⟨found, hfound⟩ := w.files.exists_probe_of_fits hfits
    obtain ⟨found', hfound'⟩ := next.files.exists_probe_of_fits hfits
    obtain ⟨ns, hload⟩ := loadSettings_of_probe hfound
    obtain ⟨ns', hload'⟩ := loadSettings_of_probe hfound'
    rw [hsettings] at hload'
    refine .inr ⟨next, _, _, hrun, hsaves, congrArg Prod.fst hload, ?_, congrArg Prod.fst hload', rfl,
      Object.isUpdate_merge _ hupdates.1⟩
    intro huseless
    rw [settingsAt]
    split
    · rename_i fields hfields
      exact absurd hfields (huseless fields)
    · rfl
  · intro updates next hupdates hrun
    obtain ⟨hsettings, hfits⟩ := settingsAt_saveEach hupdates hrun
    have hfind (name : RawText) (value : Json)
        (h : Object.lastValue? name updates = some value) :
        (settingsAt next.files root).find? name = some value := by
      rw [hsettings, Object.find?_foldl_merge _ fun u hu => (hupdates u hu).1, h]
      rfl
    have hprobe (name : RawText) (value : Json)
        (h : Object.lastValue? name updates = some value) :
        ∃ found, next.files.probe (settingsPath root) = .ok found := by
      apply next.files.exists_probe_of_fits
      apply hfits
      rintro rfl
      cases h
    refine ⟨?_, ?_⟩
    · intro host value hhost hlast
      obtain ⟨found, hfound⟩ := hprobe _ _ hlast
      have hnone : (none : Option String).or host.indentVariable = none := hhost
      obtain ⟨ns, hindent⟩ := resolveIndent_of_probe hnone hfound
      rw [hindent, indentOf, hfind _ _ hlast]
    · intro framed hlast
      obtain ⟨found, hfound⟩ := hprobe _ _ hlast
      obtain ⟨ns, hframe⟩ := resolveFrame_of_probe hfound
      rw [hframe, frameOf, hfind _ _ hlast]

/-- A file system of one empty directory. -/
def oneFolder : Files :=
  ⟨.folder "d" .empty .empty, []⟩

/-- An update with a number, a lone surrogate and nested values. -/
def nestedUpdate : Object :=
  [("indent", .str "Tab"),
    ("kept", .arr [.float (.finite true 7205759403792794 (-56)), .str [.half 0], .obj [("", .null)]])]

/-- An update of a field that was there and of a new one. -/
def plainUpdate : Object :=
  [("wrap", .bool false), ("kept", .int (-7))]

theorem saveSettings_merges_twoUpdates :
    (∃ next old new,
      (saveSettings nestedUpdate here).on { files := oneFolder } = (.ok (settingsPath here), next) ∧
      Saves oneFolder next.files here new ∧ Object.IsUpdate old nestedUpdate new) ∧
    ∃ next, (saveEach here [nestedUpdate, plainUpdate]).on { files := oneFolder } = (.ok (), next) ∧
      ((resolveIndent ⟨.absent, none, ⟨0, 0, 0, 0, 0, 0⟩⟩ none here).on next).1 = .ok [.char '\t'] ∧
      ((resolveFrame none here).on next).1 = .ok false := by
  obtain ⟨hone, hmany⟩ := saveSettings_merges here { files := oneFolder }
  have hupdates : ∀ u ∈ [nestedUpdate, plainUpdate], (Json.obj u).IsFaithful := by decide
  refine ⟨?_, ?_⟩
  · have hsucceeds : ((saveSettings nestedUpdate here).on { files := oneFolder }).1.toOption.isSome := by
      decide +kernel
    rcases hone nestedUpdate (hupdates _ List.mem_cons_self) with
      ⟨failure, next, hfails, -⟩ | ⟨next, old, new, hok, hsaves, -, -, -, -, hnew⟩
    · rw [hfails] at hsucceeds
      cases hsucceeds
    · exact ⟨next, old, new, hok, hsaves, hnew⟩
  · have hsucceeds : ((saveEach here [nestedUpdate, plainUpdate]).on
        { files := oneFolder }).1.toOption.isSome := by
      decide +kernel
    cases hrun : (saveEach here [nestedUpdate, plainUpdate]).on { files := oneFolder } with
    | mk outcome next =>
      rw [hrun] at hsucceeds
      cases outcome with
      | error failure => cases hsucceeds
      | ok _ =>
        obtain ⟨hindent, hframe⟩ := hmany _ next hupdates hrun
        refine ⟨next, rfl, ?_, hframe false rfl⟩
        rw [hindent _ "Tab" rfl rfl]
        decide +kernel

/-! ## A settings file whose path is too long -/

/-- A way to the current directory through a directory in it, back and forth. -/
def detour (n : Nat) : Path :=
  ⟨.here, (List.replicate n ["d", ".."]).flatten⟩

theorem eq_of_mem_passed_detour {n : Nat} {r : List String} (h : r ∈ (detour n).passed []) :
    r = [] ∨ r = ["d"] := by
  rw [Path.passed, detour] at h
  simp only [Path.base] at h
  induction n with
  | zero => cases h
  | succ n ih =>
    rw [List.replicate_succ, List.flatten_cons] at h
    rcases h with _ | ⟨_, _ | ⟨_, h⟩⟩
    · exact .inl rfl
    · exact .inr rfl
    · exact ih h

theorem passed_detour (n : Nat) : ∀ r ∈ (detour n).passed [], oneFolder.look r = .folder := by
  intro r hr
  rcases eq_of_mem_passed_detour hr with rfl | rfl <;> rfl

theorem resolve_detour (n : Nat) : (detour n).resolve [] = [] := by
  rw [Path.resolve, detour]
  simp only [Path.base]
  induction n with
  | zero => rfl
  | succ n ih =>
    rw [List.replicate_succ, List.flatten_cons, List.foldl_append]
    exact ih

/-- The size of a path from the current directory with some names behind a detour. -/
theorem utf8ByteSize_detour (n : Nat) {names : List String} (h : names ≠ []) :
    ((detour n).join names).toText.utf8ByteSize + 1 =
      5 * n + (names.map fun name => 1 + name.utf8ByteSize).sum := by
  have hslashes (all : List String) (hall : all ≠ []) :
      ("/".intercalate all).utf8ByteSize + 1 = (all.map fun name => 1 + name.utf8ByteSize).sum := by
    obtain ⟨first, rest, rfl⟩ := List.exists_cons_of_ne_nil hall
    rw [utf8ByteSize_slashes, List.map_cons, List.sum_cons]
    omega
  have hdetour : (((List.replicate n ["d", ".."]).flatten).map
      fun name => 1 + name.utf8ByteSize).sum = 5 * n := by
    induction n with
    | zero => rfl
    | succ n ih =>
      rw [List.replicate_succ, List.flatten_cons, List.map_append, List.sum_append, ih, Nat.mul_succ,
        Nat.add_comm]
      rfl
  have hne : (List.replicate n ["d", ".."]).flatten ++ names ≠ [] := by simp [h]
  have htext : ((detour n).join names).toText =
      "/".intercalate ((List.replicate n ["d", ".."]).flatten ++ names) :=
    if_neg (mt List.isEmpty_iff.mp hne)
  rw [htext, hslashes _ hne, List.map_append, List.sum_append, hdetour]

theorem fits_detour {n : Nat} (h : n ≤ 816) : (settingsDir (detour n)).Fits := by
  -- a detour has two names only, and each of them fits
  have hnames : ∀ name ∈ (settingsDir (detour n)).parts,
      hasNull name = false ∧ name.utf8ByteSize ≤ Files.maxNameBytes := by
    intro name hname
    rcases List.mem_append.mp hname with hname | hname
    · obtain ⟨pair, hpair, hname⟩ := List.mem_flatten.mp hname
      rw [List.eq_of_mem_replicate hpair] at hname
      have hall : ∀ name ∈ ["d", ".."],
          hasNull name = false ∧ name.utf8ByteSize ≤ Files.maxNameBytes := by decide
      exact hall name hname
    · rw [List.mem_singleton.mp hname]
      decide
  refine ⟨?_, ?_, fun name hname => (hnames name hname).2⟩
  · rw [Path.hasNull, List.any_eq_false]
    intro name hname
    simp [(hnames name hname).1]
  · have hsize := utf8ByteSize_detour n (List.cons_ne_nil ".classdiagram" [])
    have hsum : ([".classdiagram"].map fun name => 1 + name.utf8ByteSize).sum = 14 := by decide
    have hbound : Files.maxPathBytes = 4095 := rfl
    rw [hsum] at hsize
    simp only [Files.isShort, settingsDir, decide_eq_true_eq, hbound]
    omega

/-- Saving settings leaves a new directory if the path of the settings file is too long. -/
theorem saveSettings_detour :
    ∃ next, (saveSettings [] (detour 816)).on { files := oneFolder } =
        (.error (.access (.file .tooLong)), next) ∧
      oneFolder.look [".classdiagram"] = .nothing ∧
      next.files.look [".classdiagram"] = .folder := by
  have hlong : Files.isShort (settingsPath (detour 816)) = false := by
    have hsize := utf8ByteSize_detour 816 (List.cons_ne_nil ".classdiagram" ["config.json"])
    have hsum : ([".classdiagram", "config.json"].map fun name => 1 + name.utf8ByteSize).sum = 26 := by
      decide
    have hbound : Files.maxPathBytes = 4095 := rfl
    have hpath : settingsPath (detour 816) = (detour 816).join [".classdiagram", "config.json"] := by
      simp [settingsPath, settingsDir, Path.join]
    rw [hsum] at hsize
    rw [hpath, Files.isShort, decide_eq_false_iff_not, hbound]
    omega
  have hfits : (settingsDir (detour 816)).Fits := fits_detour (le_refl 816)
  have hresolve : (settingsDir (detour 816)).resolve oneFolder.cwd = [".classdiagram"] := by
    rw [settingsDir, Path.resolve_join]
    exact congrArg (stepTo · ".classdiagram") (resolve_detour 816)
  have hpassed : ∀ r ∈ (settingsDir (detour 816)).passed oneFolder.cwd,
      oneFolder.look r = .folder := by
    intro r hr
    rw [settingsDir, Path.passed_join] at hr
    rcases List.mem_append.mp hr with hr | hr
    · exact passed_detour 816 r hr
    · rw [List.mem_singleton.mp hr]
      exact congrArg oneFolder.look (resolve_detour 816)
  have hnothing : oneFolder.look [".classdiagram"] = .nothing := by decide
  obtain ⟨made, hmade, hadds⟩ := Files.ensureDir_ok hfits
    (Files.look_base_of_passed (settingsDir_parts_ne_nil _) hpassed) hpassed
    (by simp [hresolve, hnothing])
  have hrun := saveSettings_of_long (w := { files := oneFolder }) hmade hfits hlong []
  exact ⟨_, hrun, hnothing, hadds.folder _ hresolve.symm⟩

end ClassChart
