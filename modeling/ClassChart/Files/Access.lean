import ClassChart.Error
import ClassChart.Files.Dir
import ClassChart.Path

/-!
# Access to files

A file system is the directory at its root together with the current directory. A path is followed
name by name, and each name but the last has to lead to a directory. Names and paths have a greatest
length. A path that is too long is refused as such, a name only in a directory that could have it.

## Main definitions

* `Files`: a file system.
* `Files.follow`, `Files.locate`: where a path leads.
* `Files.probe`: what stands at a path, where only an excessive length is a fault.
* `Files.entry?`, `Files.read`, `Files.write`: what stands at a path; reading and writing a file.
* `Files.makeDir`, `Files.makeDirs`: making a directory, and all directories on the way to it.
-/

namespace ClassChart

open Text (Bytes)

/-- A file system. -/
structure Files where
  root : Dir
  /-- The names from the root to the current directory. -/
  cwd : List String
  deriving DecidableEq, Repr

namespace Files

/-- The most bytes that a name may have. -/
def maxNameBytes : Nat := 255

/-- The most bytes that the text of a path may have. -/
def maxPathBytes : Nat := 4095

/-- Whether the text of a path has no more bytes than it may have. -/
def isShort (p : Path) : Bool :=
  p.toText.utf8ByteSize ≤ maxPathBytes

/-- Follows names from a place. Before each step the place has to be a directory; where the last
step leads there may be nothing. -/
def follow (root : Dir) : (place names : List String) → Except FileFault (List String)
  | place, [] => .ok place
  | place, name :: names =>
    match root.entry? place with
    | some (.folder _) =>
      if name.utf8ByteSize ≤ maxNameBytes then follow root (stepTo place name) names
      else .error .tooLong
    | some (.file _) => .error .notDirectory
    | none => .error .missing

/-- Where a path leads. -/
def locate (fs : Files) (p : Path) : Except FileFault (List String) :=
  if p.hasNull then .error .nullCharacter
  else if isShort p then follow fs.root (p.base fs.cwd) p.parts
  else .error .tooLong

/-- What stands at a path. -/
def entry? (fs : Files) (p : Path) : Option Entry :=
  match fs.locate p with
  | .ok place => fs.root.entry? place
  | .error _ => none

/-- What stands at a path. A path that leads nowhere has nothing at its end, but one that is too long
cannot be looked at. -/
def probe (fs : Files) (p : Path) : Except FileFault (Option Entry) :=
  match fs.locate p with
  | .ok place => .ok (fs.root.entry? place)
  | .error .tooLong => .error .tooLong
  | .error _ => .ok none

/-- Whether a path leads to a directory. -/
def isDir (fs : Files) (p : Path) : Bool :=
  match fs.entry? p with
  | some (.folder _) => true
  | _ => false

/-- Whether there is something at the end of a path as it was typed, where a slash at the end and a
dot ask for a directory. The library `click`, in a release from 8.0 on, checks this of an argument
before the program is asked. The library is no part of the program, and this is an assumption about
it. -/
def typedExists (fs : Files) (text : String) : Bool :=
  let place := match anchorOf text with
    | .here => fs.cwd
    | _ => []
  match follow fs.root place (segments text) with
  | .ok place =>
    !text.isEmpty && text.utf8ByteSize ≤ maxPathBytes && (fs.root.entry? place).isSome
  | .error _ => false

/-- The content of a file. -/
def read (fs : Files) (p : Path) : Except FileFault Bytes := do
  let place ← fs.locate p
  match fs.root.entry? place with
  | some (.file content) => .ok content
  | some (.folder _) => .error .isDirectory
  | none => .error .missing

/-- The file system with a file written, new or in the place of the old one. -/
def write (fs : Files) (p : Path) (content : Bytes) : Except FileFault Files := do
  let place ← fs.locate p
  match fs.root.entry? place with
  | some (.folder _) => .error .isDirectory
  | _ => .ok { fs with root := fs.root.insert (.file content) place }

/-- The file system with a new directory. -/
def makeDir (fs : Files) (p : Path) : Except FileFault Files := do
  let place ← fs.locate p
  match fs.root.entry? place with
  | some _ => .error .occupied
  | none => .ok { fs with root := fs.root.insert (.folder .empty) place }

/-- The file system with a directory, which may have been there before. -/
def ensureDir (fs : Files) (p : Path) : Except FileFault Files :=
  match fs.makeDir p with
  | .ok next => .ok next
  | .error fault => if fs.isDir p then .ok fs else .error fault

/-- Makes a directory, given by its names from the last to the first, and first all directories on
the way to it that are missing. What was made before a fault stays. -/
def makeDirsUp (anchor : Anchor) : List String → Files → Except FileFault Unit × Files
  | [], fs =>
    match fs.ensureDir ⟨anchor, []⟩ with
    | .ok next => (.ok (), next)
    | .error fault => (.error fault, fs)
  | name :: before, fs =>
    let p : Path := ⟨anchor, (name :: before).reverse⟩
    match fs.ensureDir p with
    | .ok next => (.ok (), next)
    | .error .missing =>
      match makeDirsUp anchor before fs with
      | (.ok _, made) =>
        match made.ensureDir p with
        | .ok next => (.ok (), next)
        | .error fault => (.error fault, made)
      | (.error fault, made) => (.error fault, made)
    | .error fault => (.error fault, fs)

/-- Makes a directory and all directories on the way to it that are missing. -/
def makeDirs (fs : Files) (p : Path) : Except FileFault Unit × Files :=
  makeDirsUp p.anchor p.parts.reverse fs

end Files

end ClassChart
