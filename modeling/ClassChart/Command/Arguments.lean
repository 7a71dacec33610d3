/-!
# Command line arguments

Arguments are options and operands. Options of the program stand before the name of a command,
options of a command anywhere after it. Two dashes alone end the options. An option that takes a
value takes the text after an equals sign or the next argument, whatever that is. Of an option that
is repeated the last one counts.

It is the library `click`, in a release from 8.0 on, that reads the arguments for the program, which
only names its commands and options. The library is no part of the program. How arguments are told
apart here is an assumption about it.

## Main definitions

* `OptionTable`, `scan`: the options that are known, and the arguments told apart.
* `Invocation`: what the program is asked to do.
* `Invocation.ofArguments`: the meaning of the arguments.
-/

namespace ClassChart.Command

/-! ## Telling options and operands apart -/

/-- The options that are known in some place. -/
structure OptionTable where
  /-- The options that take a value. -/
  valued : List String
  /-- The options that take none. -/
  flags : List String
  /-- The options of one letter, with the flags that they stand for. -/
  letters : List (Char × String) := []
  /-- Whether options may follow operands. -/
  interspersed : Bool

/-- An argument with its meaning. -/
inductive Token where
  | flag (name : String)
  | value (name value : String)
  | operand (text : String)
  deriving DecidableEq, Repr

/-- Whether an argument is an option: it starts with a dash and is more than that. -/
def isOption (arg : String) : Bool :=
  match arg.toList with
  | '-' :: _ :: _ => true
  | _ => false

/-- The name of an option and the value after its first equals sign. -/
def splitValue (arg : String) : String × Option String :=
  let cs := arg.toList
  match cs.dropWhile (· != '=') with
  | _ :: value => (String.ofList (cs.takeWhile (· != '=')), some (String.ofList value))
  | [] => (arg, none)

/-- The flags that the letters of an argument stand for. -/
def OptionTable.cluster (table : OptionTable) : List Char → Option (List Token)
  | [] => some []
  | c :: rest => do
    let name ← table.letters.lookup c
    let others ← table.cluster rest
    return .flag name :: others

/-- The flags of an argument that is no option with a value: a flag without a value, or letters
after one dash. -/
def OptionTable.flagTokens (table : OptionTable) (arg : String) : Option (List Token) :=
  if table.flags.contains arg then some [.flag arg]
  else
    match arg.toList with
    | '-' :: '-' :: _ => none
    | _ :: letters => table.cluster letters
    | [] => none

/-- Tells options and operands apart. Where options may not follow operands, all from the first
operand on are operands. -/
def scan (table : OptionTable) : List String → Option (List Token)
  | [] => some []
  | arg :: rest =>
    if arg = "--" then some (rest.map .operand)
    else if isOption arg then
      let (name, value) := splitValue arg
      if table.valued.contains name then
        match value, rest with
        | some value, rest => (scan table rest).map (.value name value :: ·)
        | none, next :: rest => (scan table rest).map (.value name next :: ·)
        | none, [] => none
      else
        match table.flagTokens arg with
        | some tokens => (scan table rest).map (tokens ++ ·)
        | none => none
    else if table.interspersed then (scan table rest).map (.operand arg :: ·)
    else some ((arg :: rest).map .operand)

/-- The operands among tokens. -/
def operands (tokens : List Token) : List String :=
  tokens.filterMap fun
    | .operand text => some text
    | _ => none

/-- The value of an option: the last one given. -/
def valueOf (name : String) (tokens : List Token) : Option String :=
  (tokens.filterMap fun
    | .value n v => if n = name then some v else none
    | _ => none).getLast?

/-- Which of two opposite flags is given, the last one if both are. -/
def choiceOf (on off : String) (tokens : List Token) : Option Bool :=
  (tokens.filterMap fun
    | .flag n => if n = on then some true else if n = off then some false else none
    | _ => none).getLast?

/-- Whether a flag is given. -/
def hasFlag (name : String) (tokens : List Token) : Bool :=
  tokens.contains (.flag name)

/-! ## What is asked for -/

/-- How diagrams are to be generated. -/
structure GenerateOptions where
  input : String
  output : Option String
  indent : Option String
  framed : Option Bool
  title : Option String
  /-- Whether there are more operands than an input and an output. -/
  surplus : Bool := false
  deriving DecidableEq, Repr

/-- Which settings are to be saved and shown. -/
structure ConfigureOptions where
  indent : Option String
  framed : Option Bool
  view : Bool
  deriving DecidableEq, Repr

/-- The commands. -/
inductive Action where
  | generate (options : GenerateOptions)
  | configure (options : ConfigureOptions)
  deriving DecidableEq, Repr

/-- What the program is asked to do. -/
inductive Invocation where
  /-- The arguments make no sense. -/
  | misused
  | help
  | version
  | run (json verbose : Bool) (action : Action)
  deriving DecidableEq, Repr

/-- The options of the program. -/
def programTable : OptionTable where
  valued := []
  flags := ["--json", "--verbose", "--version", "--help"]
  letters := [('v', "--verbose")]
  interspersed := false

/-- The options of the command that generates diagrams. -/
def generateTable : OptionTable where
  valued := ["--indent", "--title"]
  flags := ["--wrap", "--no-wrap", "--help"]
  interspersed := true

/-- The options of the command for settings. -/
def configureTable : OptionTable where
  valued := ["--set-indent"]
  flags := ["--set-wrap", "--set-no-wrap", "--show", "--help"]
  interspersed := true

/-- The arguments of the command that generates diagrams. -/
def generateAction? (tokens : List Token) : Option Action :=
  let options := fun input output surplus =>
    some (.generate
      { input, output, surplus
        indent := valueOf "--indent" tokens
        framed := choiceOf "--wrap" "--no-wrap" tokens
        title := valueOf "--title" tokens })
  match operands tokens with
  | [] => none
  | [input] => options input none false
  | input :: output :: others => options input (some output) (!others.isEmpty)

/-- The arguments of the command for settings. -/
def configureAction? (tokens : List Token) : Option Action :=
  match operands tokens with
  | [] =>
    some (.configure
      { indent := valueOf "--set-indent" tokens
        framed := choiceOf "--set-wrap" "--set-no-wrap" tokens
        view := hasFlag "--show" tokens })
  | _ => none

namespace Invocation

/-- The first request among the options of the program for its help or version. -/
def information? (tokens : List Token) : Option Invocation :=
  tokens.findSome? fun
    | .flag "--help" => some .help
    | .flag "--version" => some .version
    | _ => none

/-- The meaning of the arguments of a command. -/
def ofCommand (json verbose : Bool) (table : OptionTable) (action? : List Token → Option Action)
    (args : List String) : Invocation :=
  match scan table args with
  | none => .misused
  | some tokens =>
    if hasFlag "--help" tokens then .help
    else
      match action? tokens with
      | some action => .run json verbose action
      | none => .misused

/-- The meaning of arguments that start with no known command. What looks like an option of the
program is taken as one, if it asks for help or the version. -/
def ofUnknownCommand (args : List String) : Invocation :=
  match scan programTable args with
  | some tokens => (information? tokens).getD .misused
  | none => .misused

/-- The meaning of the arguments of the program. -/
def ofArguments (args : List String) : Invocation :=
  match scan programTable args with
  | none => .misused
  | some tokens =>
    match information? tokens with
    | some information => information
    | none =>
      let json := hasFlag "--json" tokens
      let verbose := hasFlag "--verbose" tokens
      match operands tokens with
      | "generate" :: args => ofCommand json verbose generateTable generateAction? args
      | "config" :: args => ofCommand json verbose configureTable configureAction? args
      | args => ofUnknownCommand args

end Invocation

end ClassChart.Command
