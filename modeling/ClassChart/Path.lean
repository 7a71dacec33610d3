/-!
# Paths

A path is a list of names that starts at the root of the file system or at the current directory.
Its text has no empty names, no names that mean the directory itself, and no slash at its end.

## Main definitions

* `Path`: a path, with `Path.ofText` and `Path.toText`.
* `Path.parent`, `Path.join`, `Path.suffix`, `Path.withSuffix`: parts of a path and new paths.
* `Path.resolve`: the names from the root to where a path leads.
-/

namespace ClassChart

/-- Where a path starts. -/
inductive Anchor where
  /-- At the current directory. -/
  | here
  /-- At the root. -/
  | root
  /-- At the root, written with two slashes. -/
  | doubleRoot
  deriving DecidableEq, Repr

/-- A path in normal form. -/
structure Path where
  anchor : Anchor := .here
  parts : List String
  deriving DecidableEq, Repr

/-- The characters between slashes. -/
def splitSlashes : List Char → List (List Char)
  | [] => [[]]
  | c :: rest =>
    if c = '/' then [] :: splitSlashes rest
    else
      match splitSlashes rest with
      | [] => [[c]]
      | p :: ps => (c :: p) :: ps

/-- The names in the text of a path, among them empty ones for doubled slashes and for slashes at
either end. -/
def segments (text : String) : List String :=
  (splitSlashes text.toList).map String.ofList

/-- The anchor that the text of a path starts with. More than two slashes count as one. -/
def anchorOf (text : String) : Anchor :=
  match text.toList with
  | '/' :: '/' :: '/' :: _ => .root
  | '/' :: '/' :: _ => .doubleRoot
  | '/' :: _ => .root
  | _ => .here

/-- The last dot of a name parts it into a stem and a suffix that keeps the dot. A dot at either end
of the name does not. -/
def splitSuffix (name : List Char) : List Char × List Char :=
  let extension := (name.reverse.takeWhile (· != '.')).reverse
  let before := name.take (name.length - extension.length - 1)
  if extension.isEmpty || before.isEmpty then (name, []) else (before, '.' :: extension)

/-- One step along a path from the place with the given names: a name goes down, two dots go up,
and one dot or nothing stays. -/
def stepTo (place : List String) (name : String) : List String :=
  if name = "" ∨ name = "." then place
  else if name = ".." then place.dropLast
  else place ++ [name]

/-- Whether a text has a null character in it, which no path may have. -/
def hasNull (text : String) : Bool :=
  text.toList.contains '\x00'

namespace Path

/-- The path that a text denotes. -/
def ofText (text : String) : Path :=
  ⟨anchorOf text, (segments text).filter fun name => name != "" && name != "."⟩

/-- The text of a path. -/
def toText (p : Path) : String :=
  let names := "/".intercalate p.parts
  match p.anchor with
  | .here => if p.parts.isEmpty then "." else names
  | .root => "/" ++ names
  | .doubleRoot => "//" ++ names

/-- Whether a name has a null character in it. -/
def hasNull (p : Path) : Bool :=
  p.parts.any ClassChart.hasNull

/-- The path that starts at the root. -/
def absolute (parts : List String) : Path :=
  ⟨.root, parts⟩

/-- The path without its last name. -/
def parent (p : Path) : Path :=
  { p with parts := p.parts.dropLast }

/-- The path with more names after it. -/
def join (p : Path) (names : List String) : Path :=
  { p with parts := p.parts ++ names }

/-- The last name, or nothing. -/
def name (p : Path) : String :=
  p.parts.getLast?.getD ""

/-- The suffix of the last name. -/
def suffix (p : Path) : String :=
  String.ofList (splitSuffix p.name.toList).2

/-- The path with another suffix. -/
def withSuffix (p : Path) (suffix : String) : Path :=
  p.parent.join [String.ofList (splitSuffix p.name.toList).1 ++ suffix]

/-- The place from which the names of a path count. -/
def base (cwd : List String) (p : Path) : List String :=
  match p.anchor with
  | .here => cwd
  | _ => []

/-- The names from the root to where the path leads. -/
def resolve (cwd : List String) (p : Path) : List String :=
  p.parts.foldl stepTo (p.base cwd)

end Path

end ClassChart
