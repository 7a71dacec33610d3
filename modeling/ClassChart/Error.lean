import ClassChart.Text.Quoted
import ClassChart.Text.Utf8

/-!
# Errors

What can go wrong, by cause. The wording of each cause stands here and nowhere else.

## Main definitions

* `Error`: the errors that the program reports itself, with `Error.message` and `Error.exitCode`.
* `FileFault`: why a file or directory could not be read, written or created.
* `AccessFault`: why the text of a file could not be had.
* `MissingBase`: a base type that a syntax tree does not spell out.
* `Failure`: all that can end a job.
-/

namespace ClassChart

open Text (quoted)

/-- An error that the program reports in words of its own. -/
inductive Error where
  /-- No front end handles the file or language. -/
  | unsupportedLanguage (subject : String) (supported : List String)
  /-- The parser of a language cannot be loaded. -/
  | grammarUnavailable (language reason : String)
  /-- Anything else. -/
  | general (message : String) (exitCode : Int)
  deriving DecidableEq, Repr

namespace Error

/-- The wording of an error. -/
def message : Error → String
  | .unsupportedLanguage subject supported =>
    "No front end for " ++ quoted subject ++
      (if supported.isEmpty then "" else " (supported: " ++ ", ".intercalate supported ++ ")")
  | .grammarUnavailable language reason =>
    "Could not load tree-sitter grammar for " ++ language ++
      (if reason.isEmpty then "" else ": " ++ reason)
  | .general message _ => message

/-- The exit code that a command ends with. -/
def exitCode : Error → Int
  | .unsupportedLanguage .. => 3
  | .grammarUnavailable .. => 4
  | .general _ exitCode => exitCode

end Error

/-- The exit code for errors without a code of their own. -/
def generalExitCode : Int := 1

/-- Why a file or directory could not be read, written or created. -/
inductive FileFault where
  /-- Nothing has that name. -/
  | missing
  /-- A file stands where the path needs a directory. -/
  | notDirectory
  /-- A directory stands where a file is needed. -/
  | isDirectory
  /-- The name is taken. -/
  | occupied
  /-- The path, or a name in it, is too long. -/
  | tooLong
  /-- The path has a null character in it. -/
  | nullCharacter
  deriving DecidableEq, Repr

namespace FileFault

/-- The name of a fault in messages. -/
def label : FileFault → String
  | .missing => "FileNotFoundError"
  | .notDirectory => "NotADirectoryError"
  | .isDirectory => "IsADirectoryError"
  | .occupied => "FileExistsError"
  | .tooLong => "OSError"
  | .nullCharacter => "ValueError"

/-- The wording of a fault at a path. -/
def message (fault : FileFault) (path : String) : String :=
  let about := fun cause => cause ++ ": " ++ quoted path
  match fault with
  | .missing => about "[Errno 2] No such file or directory"
  | .notDirectory => about "[Errno 20] Not a directory"
  | .isDirectory => about "[Errno 21] Is a directory"
  | .occupied => about "[Errno 17] File exists"
  | .tooLong => about "[Errno 36] File name too long"
  | .nullCharacter => "embedded null byte"

end FileFault

/-- Why the text of a file could not be had. -/
inductive AccessFault where
  | file (fault : FileFault)
  | undecodable (fault : Text.Utf8.Fault)
  deriving DecidableEq, Repr

namespace AccessFault

/-- The name of a fault in messages. -/
def label : AccessFault → String
  | .file fault => fault.label
  | .undecodable _ => "UnicodeDecodeError"

/-- The wording of a fault at a path. -/
def message (path : String) : AccessFault → String
  | .file fault => fault.message path
  | .undecodable fault => fault.message

end AccessFault

/-- A base type whose node in the syntax tree neither has a labelled type nor a named child. -/
inductive MissingBase where
  | missingBase
  deriving DecidableEq, Repr

/-- What can end a job before its time. -/
inductive Failure where
  /-- An error that is reported in words. -/
  | reported (error : Error)
  /-- A file that cannot be used. -/
  | access (fault : AccessFault)
  /-- A syntax tree that lacks a base type. -/
  | missingBase
  /-- A text with lone surrogates, for which there is no encoding. -/
  | unencodable
  deriving DecidableEq, Repr

end ClassChart
