import ClassChart.Diagram.Pen
import ClassChart.Json.Parser
import ClassChart.Job
import ClassChart.Text.LowerCase

/-!
# Settings of a project

A project may keep settings in a file below its root. The root is the nearest directory, from a
given place upwards, that is under version control. A settings file that is of no use is noted and
counts as empty.

## Main definitions

* `projectRoot`: the root of the project that a path belongs to.
* `settingsPath`, `loadSettings`, `saveSettings`: the settings file of a project.
* `normalizeIndent`, `resolveIndent`, `resolveFrame`: the settings in force.
-/

namespace ClassChart

/-! ## The root of a project -/

/-- Whether a place is under version control. -/
def isMarked (fs : Files) (place : List String) : Except FileFault Bool := do
  return (← fs.probe (.absolute (place ++ [".git"]))).isSome

/-- The nearest marked place, given the names of a place from the last to the first. The root of the
file system is not looked at. -/
def nearestMarked? (fs : Files) : List String → Except FileFault (Option (List String))
  | [] => return none
  | name :: before => do
    let place := (name :: before).reverse
    if ← isMarked fs place then return some place else nearestMarked? fs before

/-- The root of the project that a path belongs to. Without a marked place it is where the path
leads. -/
def projectRoot (fs : Files) (start : Path) : Except FileFault Path :=
  if start.hasNull then .error .nullCharacter
  else do
    let place := start.resolve fs.cwd
    return .absolute ((← nearestMarked? fs place.reverse).getD place)

/-- The current directory. -/
def here : Path := ⟨.here, []⟩

/-! ## The settings file -/

/-- The directory of the settings file. -/
def settingsDir (root : Path) : Path :=
  root.join [".classdiagram"]

/-- The settings file of a project. -/
def settingsPath (root : Path) : Path :=
  (settingsDir root).join ["config.json"]

/-- The value in a settings file. -/
def readSettings (content : Except FileFault Text.Bytes) : Except SettingsFault Json :=
  match content with
  | .error fault => .error (.access (.file fault))
  | .ok bytes =>
    match Text.Utf8.decode bytes with
    | .error fault => .error (.access (.undecodable fault))
    | .ok text =>
      match Json.parse text with
      | .ok value => .ok value
      | .error fault => .error (.unreadable fault)

/-- The settings of a project. -/
def loadSettings (root : Path) : Job Object := do
  let fs ← Job.files
  let path := settingsPath root
  if (← Job.ofFileFault (fs.probe path)).isNone then return []
  match readSettings (fs.read path) with
  | .ok (.obj fields) => return fields
  | .ok _ =>
    Job.notice (.settingsNoObject path.toText)
    return []
  | .error fault =>
    Job.notice (.unreadableSettings path.toText fault)
    return []

/-- Sets some of the settings of a project and keeps the others. The result is where they are. -/
def saveSettings (updates : Object) (root : Path) : Job Path := do
  Job.ensureDir (settingsDir root)
  let current ← loadSettings root
  let path := settingsPath root
  Job.write path (Json.text (.indented 2) (.obj (current.merge updates)) : String)
  return path

/-! ## The settings in force -/

/-- The spellings of a tab, in lower case. -/
def tabSpellings : List String := ["\\t", "tab", "\t"]

/-- A unit of indentation, for which a tab can be spelled out. -/
def normalizeIndent (value : RawText) : RawText :=
  match value.toString? with
  | some text => if tabSpellings.contains (Text.lower text) then [.char '\t'] else value
  | none => value

/-- The unit of indentation: the one asked for, else that of the environment, else that of the
settings. -/
def resolveIndent (host : Host) (asked : Option String) (root : Path) : Job RawText := do
  match asked.or host.indentVariable with
  | some value => return normalizeIndent value
  | none =>
    match (← loadSettings root).find? "indent" with
    | some (.str value) => return normalizeIndent value
    | none | some .null => return defaultIndent
    | some value =>
      Job.notice (.unusableIndent (settingsPath root).toText value)
      return defaultIndent

/-- Whether diagrams are framed: as asked for, else as the settings say, else they are. -/
def resolveFrame (asked : Option Bool) (root : Path) : Job Bool := do
  match asked with
  | some framed => return framed
  | none =>
    match (← loadSettings root).find? "wrap" with
    | some (.bool framed) => return framed
    | none => return true
    | some value =>
      Job.notice (.unusableWrap (settingsPath root).toText value)
      return true

end ClassChart
