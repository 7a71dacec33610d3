import ClassChart.Command.Arguments
import ClassChart.Files.Sources
import ClassChart.Generation
import ClassChart.Json.Printer
import ClassChart.Settings

/-!
# Generating diagrams

A file gives one diagram, which is printed or written to a file. A directory gives one diagram file
for each source below it, in the same arrangement. Sources that cannot be read are skipped.

## Main definitions

* `destination`: where the diagram of a source goes.
* `generateDirectory`, `generateFile`: the two ways of generating.
* `generate`: the command. Its result is the exit code.
-/

namespace ClassChart.Command

variable (host : Host)

/-- Prints a result as JSON in its envelope. -/
def printEnvelope (command : String) (summary payload : Object) : Job Unit :=
  Job.printLine (Json.canonical (.obj (envelope host.now command (.obj summary) payload)) : String)

/-- The summary of a run. -/
def runSummary (verdict : String) (files skipped : Nat) : Object :=
  [("verdict", .str verdict), ("files", .int files), ("skipped", .int skipped)]

/-- Writes a diagram to a file, with the directories on the way to it. -/
def writeDiagram (p : Path) (text : RawText) : Job Unit := do
  Job.makeDirs p.parent
  Job.write p text
  Job.notice (.wrote p.toText)

/-! ## A directory -/

/-- Where the diagram of a source goes, given the names that lead to the source. -/
def destination (output : Path) (names : List String) : Path :=
  (output.join names).withSuffix ".puml"

/-- A source that could not be read. -/
structure Skipped where
  path : String
  reason : String
  deriving DecidableEq, Repr

/-- What a run over a directory did: the files written and the sources skipped. -/
structure DirectoryReport where
  written : List String := []
  skipped : List Skipped := []
  deriving DecidableEq, Repr

/-- Generates the diagrams of sources, given by the names that lead to them. -/
def generateSources (input output : Path) (style : Style) :
    List (List String) → Job DirectoryReport
  | [] => return {}
  | names :: rest => do
    let source := input.join names
    match ← Job.attempt (generateFromFile host source style) with
    | .error fault =>
      Job.notice (.skippedSource source.toText fault)
      let report ← generateSources input output style rest
      let skipped := ⟨source.toText, fault.message source.toText⟩ :: report.skipped
      return { report with skipped }
    | .ok text =>
      let target := destination output names
      writeDiagram target text
      let report ← generateSources input output style rest
      return { report with written := target.toText :: report.written }

/-- The exit code of a run that skipped sources. -/
def partialExitCode : Int := 5

/-- Tells what a run over a directory did. -/
def printReport (json : Bool) (input : Path) (report : DirectoryReport) : Job Unit := do
  if json then
    let verdict := if report.skipped.isEmpty then "ok" else "partial"
    printEnvelope host "generate"
      (runSummary verdict report.written.length report.skipped.length)
      [("written", .arr (report.written.map Json.ofString)),
        ("skipped", .arr (report.skipped.map fun s =>
          .obj [("path", .str s.path), ("reason", .str s.reason)]))]
  else
    Job.printLines (report.written.map fun path => RawText.ofString ("Wrote " ++ path))
    if !report.skipped.isEmpty then
      Job.complain ("Skipped " ++ toString report.skipped.length ++
        " file(s); run with --verbose for details.")
    if report.written.isEmpty && report.skipped.isEmpty then
      Job.printLine ("No source files found under " ++ input.toText : String)

/-- Generates the diagrams of all sources below a directory. -/
def generateDirectory (json : Bool) (input output : Path) (style : Style) : Job Int := do
  let sources ← Job.ofFileFault ((← Job.files).sourcesBelow input)
  let report ← generateSources host input output style sources
  printReport host json input report
  return if report.skipped.isEmpty then 0 else partialExitCode

/-! ## A file -/

/-- The diagram of a file. A file that cannot be read is an error in words. -/
def fileDiagram (input : Path) (style : Style) : Job RawText := do
  match ← Job.attempt (generateFromFile host input style) with
  | .ok text => return text
  | .error fault =>
    Job.fail (.general ("Cannot read " ++ input.toText ++ ": " ++ fault.message input.toText)
      generalExitCode)

/-- Generates the diagram of a file. -/
def generateFile (json : Bool) (input : Path) (output : Option Path) (style : Style) : Job Int := do
  let text ← fileDiagram host input style
  match output with
  | some target =>
    writeDiagram target text
    if json then
      printEnvelope host "generate" (runSummary "ok" 1 0) [("written", .arr [.str target.toText])]
    else Job.printLine ("Wrote " ++ target.toText : String)
  | none =>
    if json then printEnvelope host "generate" (runSummary "ok" 1 0) [("diagram", .str text)]
    else Job.print text
  return 0

/-! ## The command -/

/-- Generates the diagrams of a file or directory. A title is for single diagrams only. -/
def generate (json : Bool) (options : GenerateOptions) : Job Int := do
  let fs ← Job.files
  let input := Path.ofText options.input
  let output := options.output.map Path.ofText
  let isDir := fs.isDir input
  let root ← Job.ofFileFault (projectRoot fs (if isDir then input else input.parent))
  let indent ← resolveIndent host options.indent root
  let framed ← resolveFrame options.framed root
  if isDir then
    generateDirectory host json input (output.getD input) { indent, framed }
  else
    generateFile host json input output { indent, framed, title := options.title.map RawText.ofString }

end ClassChart.Command
