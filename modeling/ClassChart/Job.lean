import ClassChart.Envelope
import ClassChart.Files.Access
import ClassChart.Language
import ClassChart.Notice
import ClassChart.Syntax.Node
import ClassChart.Text.Codes

/-!
# Jobs

A job works on a file system, loads parsers and tells what it does. It ends with a result or with a
failure; what it did before a failure stays done. What is costly to make is made once for each name
and kept.

## Main definitions

* `Host`: what the surroundings of a job provide.
* `World`: what a job can change.
* `Job`: an action on a world.
* `Job.notice`, `Job.print`, `Job.complain`: telling something.
* `Job.read`, `Job.write`, `Job.makeDirs`: access to files.
* `Job.attempt`: a job whose access faults are results.
* `Shelf`, `Job.makeOnce`: what is made once and kept.
-/

namespace ClassChart

open Text (Bytes)

/-- Turns the bytes of a source into a syntax tree. -/
abbrev Parser := Bytes → SyntaxTree

/-- The collection that parsers are loaded from. -/
inductive LanguagePack where
  /-- There is no such collection. -/
  | absent
  /-- A parser for the name of a grammar, or the reason why there is none. -/
  | installed (load : String → Except String Parser)

/-- What the surroundings of a job provide. -/
structure Host where
  pack : LanguagePack
  /-- The value of the environment variable for the unit of indentation. -/
  indentVariable : Option String
  now : Timestamp

/-- Something that a job tells. -/
inductive Event where
  | notice (n : Notice)
  | output (text : String)
  | complaint (text : String)

/-- What a job can change. -/
structure World where
  files : Files
  /-- The front ends found so far, by the names they were asked for by. -/
  frontEnds : List (String × FrontEnd) := []
  /-- The parsers loaded so far, by language. -/
  parsers : List (String × Parser) := []
  /-- What has been told so far, the oldest first. -/
  events : List Event := []

/-- The notices among the events. -/
def World.notices (w : World) : List Notice :=
  w.events.filterMap fun
    | .notice n => some n
    | _ => none

/-- A place in a world for what was made for names. -/
structure Shelf (α : Type) where
  /-- What is there, the newest first. -/
  kept : World → List (String × α)
  /-- The world with something more there. -/
  keep : String → α → World → World

/-- An action on a world. -/
abbrev Job := ExceptT Failure (StateM World)

namespace Job

/-- Tells something. -/
def tell (e : Event) : Job Unit :=
  modify fun w => { w with events := w.events ++ [e] }

/-- Makes a notice. -/
def notice (n : Notice) : Job Unit :=
  tell (.notice n)

/-- Prints text, without the codes that only a terminal understands. Nothing of a text that has no
encoding is printed. -/
def print (text : RawText) : Job Unit :=
  match RawText.toString? (Text.dropCodes text) with
  | some s => tell (.output s)
  | none => throw .unencodable

/-- Prints a line. -/
def printLine (line : RawText) : Job Unit :=
  print (line ++ [.char '\n'])

/-- Prints lines. -/
def printLines : List RawText → Job Unit
  | [] => pure ()
  | line :: rest => do
    printLine line
    printLines rest

/-- Prints a line to the error output, without the codes that only a terminal understands. -/
def complain (line : String) : Job Unit :=
  match RawText.toString? (Text.dropCodes (line ++ "\n" : String)) with
  | some s => tell (.complaint s)
  | none => throw .unencodable

/-- Ends with an error that is reported in words. -/
def fail {α : Type} (e : Error) : Job α :=
  throw (.reported e)

/-- The result, or the end of the job with an error. -/
def ofError {α : Type} : Except Error α → Job α
  | .ok a => pure a
  | .error e => fail e

/-- The result, or the end of the job with a file fault. -/
def ofFileFault {α : Type} : Except FileFault α → Job α
  | .ok a => pure a
  | .error f => throw (.access (.file f))

/-- Makes notices. -/
def noticeAll : List Notice → Job Unit
  | [] => pure ()
  | n :: rest => do
    notice n
    noticeAll rest

/-- Makes the notices of an outline. Its result is that of the job. -/
def ofOutline {α : Type} (x : Logged MissingBase α) : Job α := do
  noticeAll x.notices
  match x.outcome with
  | .ok a => pure a
  | .error _ => throw .missingBase

/-- The file system. -/
def files : Job Files := do
  return (← get).files

/-- Replaces the file system. -/
def setFiles (files : Files) : Job Unit :=
  modify fun w => { w with files }

/-- The content of a file. -/
def read (p : Path) : Job Bytes := do
  ofFileFault ((← files).read p)

/-- Writes bytes to a file. -/
def writeBytes (p : Path) (content : Bytes) : Job Unit := do
  setFiles (← ofFileFault ((← files).write p content))

/-- Writes a text to a file. A text that has no encoding leaves the file empty. -/
def write (p : Path) (text : RawText) : Job Unit :=
  match text.toString? with
  | some s => writeBytes p (Text.Utf8.encode s)
  | none => do
    writeBytes p []
    throw .unencodable

/-- Makes a directory that may be there already. -/
def ensureDir (p : Path) : Job Unit := do
  setFiles (← ofFileFault ((← files).ensureDir p))

/-- Makes a directory and those on the way to it. -/
def makeDirs (p : Path) : Job Unit := do
  let (outcome, next) := (← files).makeDirs p
  setFiles next
  ofFileFault outcome

/-- Runs a job so that an access fault is a result of it and not its end. A path with a null
character in it is no access fault but a misuse of paths. -/
def attempt {α : Type} (t : Job α) : Job (Except AccessFault α) :=
  tryCatch (.ok <$> t) fun
    | .access (.file .nullCharacter) => throw (.access (.file .nullCharacter))
    | .access fault => return .error fault
    | failure => throw failure

/-- What was made for a name before, or else what is made for it now, which is kept. A failure is not
kept. -/
def makeOnce {α : Type} (shelf : Shelf α) (make : String → Job α) (name : String) : Job α := do
  match (shelf.kept (← get)).lookup name with
  | some found => return found
  | none =>
    let made ← make name
    modify (shelf.keep name made)
    return made

end Job

end ClassChart
