import ClassChart.Command.Configure

/-!
# Running the program

## Main definitions

* `Ending`: how a run ends.
* `perform`: runs the program on its arguments.
* `outputText`, `errorText`: what a run prints.
-/

namespace ClassChart.Command

/-- How a run ends. -/
inductive Ending where
  /-- With a description of how the program is used, as asked for. -/
  | help
  /-- With that description, as the arguments make no sense. -/
  | misused
  /-- With an exit code. -/
  | exit (code : Int)
  /-- With a failure that the program has no words for. -/
  | crashed (failure : Failure)
  deriving DecidableEq, Repr

/-- The line that tells the version. -/
def versionLine : String :=
  "classdiagram, version " ++ programVersion

/-- Performs a command. -/
def Action.perform (host : Host) (json : Bool) : Action → Job Int
  | .generate options => Command.generate host json options
  | .configure options => Command.configure host json options

/-- How a run ends whose path in the arguments has a null character in it. -/
def nullEnding : Ending :=
  .crashed (.access (.file .nullCharacter))

/-- Why generating diagrams cannot begin. The paths are looked at in their order: an input has to be
there, an output need not. Only then are further operands refused. -/
def GenerateOptions.obstacle? (fs : Files) (options : GenerateOptions) : Option Ending :=
  if hasNull options.input then some nullEnding
  else if !fs.typedExists options.input then some .misused
  else if options.output.any hasNull then some nullEnding
  else if options.surplus then some .misused
  else none

/-- Why a command cannot begin. -/
def Action.obstacle? (fs : Files) : Action → Option Ending
  | .generate options => options.obstacle? fs
  | .configure _ => none

/-- Performs a command. An error in words is told on the error output and gives the exit code. -/
def Action.report (host : Host) (json : Bool) (action : Action) : Job Int :=
  tryCatch (action.perform host json) fun
    | .reported e => do
      Job.complain ("Error: " ++ e.message)
      return e.exitCode
    | failure => throw failure

/-- Performs a command to its end. -/
def Action.finish (host : Host) (json : Bool) (action : Action) (w : World) : Ending × World :=
  match (action.report host json).run.run w with
  | (.ok code, w) => (.exit code, w)
  | (.error failure, w) => (.crashed failure, w)

/-- A run of the program: how it ends, whether all notices are to be shown, and what it did. -/
structure Run where
  ending : Ending
  verbose : Bool := false
  world : World

/-- Runs the program on its arguments. -/
def perform (host : Host) (args : List String) (w : World) : Run :=
  match Invocation.ofArguments args with
  | .misused => { ending := .misused, world := w }
  | .help => { ending := .help, world := w }
  | .version => { ending := .exit 0, world := ((Job.printLine versionLine).run.run w).2 }
  | .run json verbose action =>
    match action.obstacle? w.files with
    | some ending => { ending, world := w }
    | none =>
      let (ending, world) := action.finish host json w
      { ending, verbose, world }

/-- What a run prints. -/
def Run.outputText (r : Run) : String :=
  String.join (r.world.events.filterMap fun
    | .output text => some text
    | _ => none)

/-- What a run prints to the error output: complaints and the notices that are to be shown. -/
def Run.errorText (r : Run) : String :=
  String.join (r.world.events.filterMap fun
    | .complaint text => some text
    | .notice n => if r.verbose || n.level == .warning then some (n.line ++ "\n") else none
    | .output _ => none)

/-- The exit code of a run. -/
def Run.exitCode (r : Run) : Int :=
  match r.ending with
  | .help => 0
  | .misused => 2
  | .exit code => code
  | .crashed _ => generalExitCode

end ClassChart.Command
