import ClassChart.Number.Binary64
import ClassChart.Text.Symbol

/-!
# JSON values

Whole numbers are unbounded and kept apart from floating point numbers. The fields of an object
keep the order in which their names were first set. Strings are raw text, as JSON can spell out lone
surrogates.

## Main definitions

* `Json`: a value.
* `Object`: the fields of an object, with `Object.find?`, `Object.set` and `Object.merge`.
* `Json.sorted`: the value with the fields of every object in the order of their names.
-/

namespace ClassChart

/-- A JSON value. -/
inductive Json where
  | null
  | bool (b : Bool)
  | int (i : Int)
  | float (x : Binary64)
  | str (s : RawText)
  | arr (items : List Json)
  | obj (fields : List (RawText × Json))
  deriving Repr

/-- The fields of an object. -/
abbrev Object := List (RawText × Json)

namespace Object

/-- The value of a field. -/
def find? (o : Object) (name : RawText) : Option Json :=
  o.lookup name

/-- Sets a field in its place, or as the last one if the object does not have it. -/
def set (name : RawText) (value : Json) : Object → Object
  | [] => [(name, value)]
  | field :: rest =>
    if field.1 = name then (name, value) :: rest else field :: set name value rest

/-- Sets each of the fields `updates` in turn. -/
def merge (o updates : Object) : Object :=
  updates.foldl (fun merged field => set field.1 field.2 merged) o

/-- The object with the given fields, of which a later one of the same name replaces the earlier
one in its place. -/
def ofFields (fields : List (RawText × Json)) : Object :=
  merge [] fields

end Object

namespace Json

/-- The value of a string. -/
def ofString (s : String) : Json :=
  .str (RawText.ofString s)

mutual

/-- The value with the fields of every object in the order of their names. -/
def sorted : Json → Json
  | .arr items => .arr (sortedItems items)
  | .obj fields => .obj ((sortedFields fields).mergeSort fun a b => RawText.le a.1 b.1)
  | v => v

/-- Each item with its objects sorted. -/
def sortedItems : List Json → List Json
  | [] => []
  | v :: rest => v.sorted :: sortedItems rest

/-- Each field with the objects in it sorted, in the given order. -/
def sortedFields : List (RawText × Json) → List (RawText × Json)
  | [] => []
  | (name, v) :: rest => (name, v.sorted) :: sortedFields rest

end

/-- Whether a value counts as nothing: null, false, a zero, an empty text, array or object. -/
def isNothing : Json → Bool
  | .null => true
  | .bool b => !b
  | .int i => i == 0
  | .float x => x.isZero
  | .str s => s.isEmpty
  | .arr items => items.isEmpty
  | .obj fields => fields.isEmpty

end Json

end ClassChart
