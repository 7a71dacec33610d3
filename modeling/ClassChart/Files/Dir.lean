import ClassChart.Text.Utf8

/-!
# Directories

The content of a directory, as a value: its files and folders one after the other, with all that is
in them.

## Main definitions

* `Dir`, `Entry`: the content of a directory; what a name in it stands for.
* `Dir.find?`, `Dir.entry?`: what stands under a name, and under a list of names.
* `Dir.put`, `Dir.insert`: the directory with another entry under a name, and under a list of names.
* `Dir.files`: all files below, by the names that lead to them.
-/

namespace ClassChart

open Text (Bytes)

/-- The content of a directory. -/
inductive Dir where
  | empty
  | file (name : String) (content : Bytes) (rest : Dir)
  | folder (name : String) (inner : Dir) (rest : Dir)
  deriving DecidableEq, Repr

/-- What a name stands for. -/
inductive Entry where
  | file (content : Bytes)
  | folder (inner : Dir)
  deriving DecidableEq, Repr

namespace Dir

/-- What stands under a name. -/
def find? (name : String) : Dir → Option Entry
  | .empty => none
  | .file n content rest => if n = name then some (.file content) else rest.find? name
  | .folder n inner rest => if n = name then some (.folder inner) else rest.find? name

/-- What stands under a list of names. No name at all stands for the directory itself. -/
def entry? : Dir → List String → Option Entry
  | d, [] => some (.folder d)
  | d, name :: names =>
    match d.find? name with
    | some (.folder inner) => inner.entry? names
    | some (.file content) => if names.isEmpty then some (.file content) else none
    | none => none

/-- A directory that starts with an entry. -/
def cons (name : String) (e : Entry) (rest : Dir) : Dir :=
  match e with
  | .file content => .file name content rest
  | .folder inner => .folder name inner rest

/-- Puts an entry in the place of the one with its name, or at the end. -/
def put (name : String) (e : Entry) : Dir → Dir
  | .empty => cons name e .empty
  | .file n content rest =>
    if n = name then cons name e rest else .file n content (rest.put name e)
  | .folder n inner rest =>
    if n = name then cons name e rest else .folder n inner (rest.put name e)

/-- Puts an entry under a list of names. Folders on the way are made if they are missing. Below a
file there is no place for an entry. -/
def insert (e : Entry) : List String → Dir → Dir
  | [], d => d
  | [name], d => d.put name e
  | name :: names, d =>
    match d.find? name with
    | some (.folder inner) => d.put name (.folder (insert e names inner))
    | some (.file _) => d
    | none => d.put name (.folder (insert e names .empty))

/-- All files below the directory, by the names that lead to them. -/
def files : Dir → List (List String)
  | .empty => []
  | .file name _ rest => [name] :: rest.files
  | .folder name inner rest => inner.files.map (name :: ·) ++ rest.files

end Dir

end ClassChart
