import ClassChart.Files.Access
import ClassChart.Language

/-!
# Source files

The files below a directory that can be read, except those in directories of build output, packages
and tools.

## Main definitions

* `isSource`: whether a file below the directory is a source.
* `Dir.isListable`: whether no path below is too long for the search.
* `Files.sources`: the source files below a directory, in the order of their names.
-/

namespace ClassChart

/-- The directories whose files are no sources. -/
def skippedDirs : List String :=
  ["bin", "obj", ".git", ".vs", ".idea", "node_modules", "packages", ".classdiagram"]

/-- Whether the file with the given names below a directory is a source. -/
def isSource (names : List String) : Bool :=
  (languageOf? ⟨.here, names⟩).isSome && !names.dropLast.any skippedDirs.contains

/-- Whether one list of names comes before another or is the same, compared name by name. -/
def namesLe : List String → List String → Bool
  | [], _ => true
  | _ :: _, [] => false
  | a :: as, b :: bs => decide (a < b) || (a == b && namesLe as bs)

/-- The names below a directory that lead to its source files, in order. -/
def Dir.sources (d : Dir) : List (List String) :=
  (d.files.filter isSource).mergeSort namesLe

/-- Whether the sources below the directory at a path can be searched for. The search looks into
every folder, also into those whose files are no sources, and looks at every file with the extension
of a source. -/
def Dir.isListable (p : Path) : Dir → Bool
  | .empty => true
  | .file name _ rest =>
    ((languageOf? (p.join [name])).isNone || Files.isShort (p.join [name])) && rest.isListable p
  | .folder name inner rest =>
    Files.isShort (p.join [name]) && inner.isListable (p.join [name]) && rest.isListable p

/-- The names that lead from a directory to the source files below it. Where there is no directory,
there are none. -/
def Files.sourcesBelow (fs : Files) (p : Path) : Except FileFault (List (List String)) := do
  match ← fs.probe p with
  | some (.folder d) => if d.isListable p then return d.sources else .error .tooLong
  | _ => return []

/-- The source files below a directory. -/
def Files.sources (fs : Files) (p : Path) : Except FileFault (List Path) := do
  return (← fs.sourcesBelow p).map p.join

end ClassChart
