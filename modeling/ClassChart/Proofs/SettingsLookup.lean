import ClassChart.Settings
import ClassChart.Proofs.JobRuns

/-!
# Looking up settings

Looking up settings changes no file. It fails only where the settings file cannot be looked at, and
otherwise gives what the file system has: the fields of the settings file, or none if the file is of
no use.

## Main definitions

* `settingsAt`: the settings that a file system has for a project
* `indentOf`, `frameOf`: the unit of indentation and the frame that settings ask for
* `indentInForce`, `frameInForce`: the unit of indentation and the frame that a run has

## Main results

* `loadSettings_of_probe`: loading settings
* `resolveIndent_of_probe`, `resolveFrame_of_probe`: what the settings ask for
* `resolveIndent_inForce`, `resolveFrame_inForce`: the settings in force
-/

namespace ClassChart

/-- The settings that a file system has for the project at a root. A settings file that is of no use
counts as empty. -/
def settingsAt (fs : Files) (root : Path) : Object :=
  match readSettings (fs.read (settingsPath root)) with
  | .ok (.obj fields) => fields
  | _ => []

/-- The unit of indentation that settings ask for. -/
def indentOf (settings : Object) : RawText :=
  match settings.find? "indent" with
  | some (.str value) => normalizeIndent value
  | _ => defaultIndent

/-- Whether settings ask for framed diagrams. -/
def frameOf (settings : Object) : Bool :=
  match settings.find? "wrap" with
  | some (.bool framed) => framed
  | _ => true

/-- The unit of indentation in force: the one asked for, else that of the environment, else that of
the settings. -/
def indentInForce (host : Host) (asked : Option String) (settings : Object) : RawText :=
  match asked.or host.indentVariable with
  | some value => normalizeIndent value
  | none => indentOf settings

/-- Whether diagrams are framed: as asked for, else as the settings say. -/
def frameInForce (asked : Option Bool) (settings : Object) : Bool :=
  asked.getD (frameOf settings)

/-- What can be read can be seen. -/
theorem Files.probe_ne_none_of_read {fs : Files} {p : Path} {content : Text.Bytes}
    (h : fs.read p = .ok content) : fs.probe p ≠ .ok none := by
  intro hprobe
  rw [read] at h
  rw [probe] at hprobe
  cases hlocate : fs.locate p with
  | error fault => simp [hlocate, bind, Except.bind] at h
  | ok place =>
    simp only [hlocate, Except.ok.injEq] at hprobe
    simp [hlocate, hprobe, bind, Except.bind] at h

variable {host : Host} {root : Path} {w : World}

theorem settingsAt_of_probe_none {fs : Files} (h : fs.probe (settingsPath root) = .ok none) :
    settingsAt fs root = [] := by
  cases hread : fs.read (settingsPath root) with
  | ok content => exact absurd h (Files.probe_ne_none_of_read hread)
  | error fault =>
    rw [settingsAt, hread]
    rfl

theorem loadSettings_of_fault {fault : FileFault}
    (h : w.files.probe (settingsPath root) = .error fault) :
    (loadSettings root).on w = (.error (.access (.file fault)), w) := by
  rw [loadSettings, Job.on_bind_ok (Job.on_files w)]
  simp only [h]
  rfl

/-- **Loading settings** gives those that the file system has, and changes no file. -/
theorem loadSettings_of_probe {found : Option Entry}
    (h : w.files.probe (settingsPath root) = .ok found) :
    ∃ ns, (loadSettings root).on w = (.ok (settingsAt w.files root), w.noting ns) := by
  have hprobe : (Job.ofFileFault (w.files.probe (settingsPath root))).on w = (.ok found, w) := by
    rw [h]
    rfl
  rw [loadSettings, Job.on_bind_ok (Job.on_files w)]
  simp only [Job.on_bind_ok hprobe]
  cases found with
  | none => exact ⟨[], by rw [settingsAt_of_probe_none h, w.noting_nil]; rfl⟩
  | some entry =>
    simp only [Option.isNone_some, Bool.false_eq_true, if_false, settingsAt]
    -- a file that is of no use is noted and counts as empty
    cases readSettings (w.files.read (settingsPath root)) with
    | error fault => exact ⟨[.unreadableSettings _ fault], rfl⟩
    | ok value =>
      cases value with
      | obj fields => exact ⟨[], by rw [w.noting_nil]; rfl⟩
      | _ => exact ⟨[.settingsNoObject _], rfl⟩

/-- The unit of indentation, if none is asked for elsewhere. -/
theorem resolveIndent_of_probe {asked : Option String} {found : Option Entry}
    (hasked : asked.or host.indentVariable = none)
    (h : w.files.probe (settingsPath root) = .ok found) :
    ∃ ns, (resolveIndent host asked root).on w =
      (.ok (indentOf (settingsAt w.files root)), w.noting ns) := by
  obtain ⟨ns, hns⟩ := loadSettings_of_probe h
  rw [resolveIndent, hasked]
  simp only [Job.on_bind_ok hns, indentOf]
  cases (settingsAt w.files root).find? "indent" with
  | none => exact ⟨ns, rfl⟩
  | some value =>
    cases value with
    | str _ | null => exact ⟨ns, rfl⟩
    | _ => exact ⟨ns ++ [.unusableIndent _ _], by rw [← w.noting_append]; rfl⟩

/-- Whether diagrams are framed, if it is not asked for. -/
theorem resolveFrame_of_probe {found : Option Entry}
    (h : w.files.probe (settingsPath root) = .ok found) :
    ∃ ns, (resolveFrame none root).on w =
      (.ok (frameOf (settingsAt w.files root)), w.noting ns) := by
  obtain ⟨ns, hns⟩ := loadSettings_of_probe h
  rw [resolveFrame]
  simp only [Job.on_bind_ok hns, frameOf]
  cases (settingsAt w.files root).find? "wrap" with
  | none => exact ⟨ns, rfl⟩
  | some value =>
    cases value with
    | bool _ => exact ⟨ns, rfl⟩
    | _ => exact ⟨ns ++ [.unusableWrap _ _], by rw [← w.noting_append]; rfl⟩

/-- **The unit of indentation in force**, where the settings file matters only if nothing else is
asked for. -/
theorem resolveIndent_inForce {asked : Option String}
    (h : asked.or host.indentVariable = none →
      ∃ found, w.files.probe (settingsPath root) = .ok found) :
    ∃ ns, (resolveIndent host asked root).on w =
      (.ok (indentInForce host asked (settingsAt w.files root)), w.noting ns) := by
  rw [indentInForce]
  cases hasked : asked.or host.indentVariable with
  | none =>
    obtain ⟨found, hfound⟩ := h hasked
    exact resolveIndent_of_probe hasked hfound
  | some value => exact ⟨[], by rw [resolveIndent, hasked, w.noting_nil]; rfl⟩

/-- **Whether diagrams are framed.** -/
theorem resolveFrame_inForce {asked : Option Bool}
    (h : asked = none → ∃ found, w.files.probe (settingsPath root) = .ok found) :
    ∃ ns, (resolveFrame asked root).on w =
      (.ok (frameInForce asked (settingsAt w.files root)), w.noting ns) := by
  cases asked with
  | none =>
    obtain ⟨found, hfound⟩ := h rfl
    exact resolveFrame_of_probe hfound
  | some framed => exact ⟨[], by rw [resolveFrame, w.noting_nil]; rfl⟩

theorem resolveIndent_of_fault {asked : Option String} {fault : FileFault}
    (hasked : asked.or host.indentVariable = none)
    (h : w.files.probe (settingsPath root) = .error fault) :
    (resolveIndent host asked root).on w = (.error (.access (.file fault)), w) := by
  rw [resolveIndent, hasked]
  exact Job.on_bind_error (loadSettings_of_fault h)

theorem resolveFrame_of_fault {fault : FileFault}
    (h : w.files.probe (settingsPath root) = .error fault) :
    (resolveFrame none root).on w = (.error (.access (.file fault)), w) :=
  Job.on_bind_error (loadSettings_of_fault h)

end ClassChart
