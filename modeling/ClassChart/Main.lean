import ClassChart.Command.Run
import Std.Time.DateTime

/-!
# The program

Reads from disk what a run can look at, runs, and brings to disk what the run changed. No collection
of grammars comes with the program, so that all it can do on its own is to manage settings.
-/

namespace ClassChart.Disk

/-- The text of a place. -/
def pathText (place : List String) : String :=
  (Path.absolute place).toText

/-- Whether there is a directory at an absolute path on disk. -/
def isDirectory (path : String) : IO Bool := do
  ((← IO.currentDir) / path).isDir

/-- What stands at a path on disk, of a directory without its content. -/
def shallow? (path : String) : IO (Option Entry) := do
  if ← isDirectory path then return some (.folder .empty)
  try
    return some (.file (← IO.FS.readBinFile path).toList)
  catch _ => return none

/-- A directory on disk with all that is in it. -/
partial def readDirectory (path : String) : IO Dir := do
  let mut dir := Dir.empty
  for entry in ← ((← IO.currentDir) / path).readDir do
    let below := path ++ "/" ++ entry.fileName
    if ← isDirectory below then
      dir := dir.put entry.fileName (.folder (← readDirectory below))
    else if let some found ← shallow? below then
      dir := dir.put entry.fileName found
  return dir

/-- Adds what stands at a place on disk, unless the place is known. -/
def addShallow (root : Dir) (place : List String) : IO Dir := do
  if (root.entry? place).isSome then return root
  match ← shallow? (pathText place) with
  | some found => return root.insert found place
  | none => return root

/-- Adds a place with what tells a project and its settings. -/
def addPlace (root : Dir) (place : List String) : IO Dir := do
  let mut root ← addShallow root place
  for names in [[".git"], [".classdiagram"], [".classdiagram", "config.json"]] do
    root ← addShallow root (place ++ names)
  return root

/-- The places that a path leads through. -/
def placesAlong (place : List String) : List String → List (List String)
  | [] => [place]
  | name :: names => place :: placesAlong (stepTo place name) names

/-- Adds all places on the way to where a path leads. -/
def addPath (cwd : List String) (root : Dir) (p : Path) : IO Dir := do
  let mut root := root
  for place in placesAlong [] (p.base cwd) ++ placesAlong (p.base cwd) p.parts do
    root ← addPlace root place
  return root

/-- Adds a directory with all that is in it. -/
def addWhole (cwd : List String) (root : Dir) (p : Path) : IO Dir := do
  let place := p.resolve cwd
  if ← isDirectory (pathText place) then
    return root.insert (.folder (← readDirectory (pathText place))) place
  return root

/-- What a run on the given arguments can look at. -/
def filesFor (args : List String) : IO Files := do
  let cwd := (Path.ofText (← IO.currentDir).toString).parts
  let mut root := Dir.empty
  if let .run _ _ (.generate options) := Command.Invocation.ofArguments args then
    root ← addWhole cwd root (Path.ofText options.input)
    for path in options.input :: options.output.toList do
      root ← addPath cwd root (Path.ofText path)
  return { root := ← addPath cwd root here, cwd }

/-- Brings to disk what is new or different in a directory. -/
def writeChanges (old : Dir) (place : List String) : Dir → IO Unit
  | .empty => pure ()
  | .file name content rest => do
    let path := place ++ [name]
    if old.entry? path != some (.file content) then
      IO.FS.writeBinFile (pathText path) ⟨content.toArray⟩
    writeChanges old place rest
  | .folder name inner rest => do
    let path := place ++ [name]
    if (old.entry? path).isNone then IO.FS.createDirAll (pathText path)
    writeChanges old path inner
    writeChanges old place rest

/-- The present time. -/
def now : IO Timestamp := do
  let seconds := (← Std.Time.Timestamp.now).toSecondsSinceUnixEpoch
  let t := Std.Time.PlainDateTime.ofWallTime (.ofSeconds seconds)
  return ⟨t.year.toInt.toNat, t.month.val.toNat, t.day.val.toNat, t.hour.val.toNat,
    t.minute.val.toNat, t.second.val.toNat⟩

end ClassChart.Disk

namespace ClassChart

/-- How the program is used. -/
def usage : String :=
  "Usage: classdiagram [--json] [-v | --verbose] COMMAND\n\n" ++
  "Commands:\n" ++
  "  generate INPUT_PATH [OUTPUT_PATH] [--indent TEXT] [--wrap | --no-wrap] [--title TEXT]\n" ++
  "  config [--set-indent TEXT] [--set-wrap | --set-no-wrap] [--show]\n"

/-- The wording of a failure that is not reported otherwise. -/
def Failure.message : Failure → String
  | .reported e => e.message
  | .access fault => fault.label
  | .missingBase => "The syntax tree lacks a base type"
  | .unencodable => "A text has lone surrogates"

end ClassChart

open ClassChart in
/-- Runs the program on the arguments of the command line. -/
def main (args : List String) : IO UInt32 := do
  let files ← Disk.filesFor args
  let host : Host := ⟨.absent, ← IO.getEnv "CLASSDIAGRAM_INDENT", ← Disk.now⟩
  let run := Command.perform host args { files }
  Disk.writeChanges files.root [] run.world.files.root
  IO.print run.outputText
  IO.eprint run.errorText
  match run.ending with
  | .help => IO.print usage
  | .misused => IO.eprint usage
  | .crashed failure => IO.eprintln failure.message
  | .exit _ => pure ()
  return UInt32.ofNat run.exitCode.toNat
