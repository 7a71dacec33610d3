import ClassChart.Json.Basic
import ClassChart.Number.Text
import ClassChart.Text.Hex
import ClassChart.Text.Quoted

/-!
# The text of JSON values

Written JSON holds only ASCII: every other character is escaped, those beyond the first plane as a
pair of surrogates. A lone surrogate is escaped as what it is. The text stands on one line or has
each item on a line of its own.

## Main definitions

* `Json.Layout`: on one line, or indented by a number of blanks.
* `Json.chars`, `Json.text`: the JSON text of a value in a layout.
* `Json.canonical`: the indented text with sorted fields.
* `Json.shown`: the form of a value in messages.
-/

namespace ClassChart.Json

open Text (hex quoted)

/-! ## Texts and numbers -/

/-- A code unit as an escape. -/
def escapeUnit (n : Nat) : List Char :=
  '\\' :: 'u' :: hex 4 n

/-- The form of a character in a JSON string. -/
def escapeChar (c : Char) : List Char :=
  if c = '"' then ['\\', '"']
  else if c = '\\' then ['\\', '\\']
  else if c = '\n' then ['\\', 'n']
  else if c = '\r' then ['\\', 'r']
  else if c = '\t' then ['\\', 't']
  else if c = '\x08' then ['\\', 'b']
  else if c = '\x0c' then ['\\', 'f']
  else if ' ' ≤ c ∧ c ≤ '~' then [c]
  else if c.toNat < 0x10000 then escapeUnit c.toNat
  else
    let n := c.toNat - 0x10000
    escapeUnit (0xD800 + n / 0x400) ++ escapeUnit (0xDC00 + n % 0x400)

/-- The form of a symbol in a JSON string. -/
def escapeSymbol : Symbol → List Char
  | .char c => escapeChar c
  | .half index => escapeUnit (Symbol.half index).code

/-- A JSON string. -/
def stringChars (t : RawText) : List Char :=
  '"' :: t.flatMap escapeSymbol ++ ['"']

/-- The words for values that are no finite number. -/
def specialNames : Binary64.SpecialNames :=
  ⟨"NaN".toList, "Infinity".toList⟩

/-! ## Layouts -/

/-- How the items of arrays and objects are set apart. -/
inductive Layout where
  /-- All on one line, with a blank after each comma. -/
  | line
  /-- Each on a line of its own, `step` blanks further in than the brackets around it. -/
  | indented (step : Nat)

/-- What stands before an item, and before the closing bracket, at a level of nesting. -/
def Layout.lineBreak : Layout → (level : Nat) → List Char
  | .line, _ => []
  | .indented step, level => '\n' :: List.replicate (step * level) ' '

/-- What stands between two items at a level of nesting. -/
def Layout.comma : Layout → (level : Nat) → List Char
  | .line, _ => [',', ' ']
  | .indented step, level => ',' :: Layout.lineBreak (.indented step) level

/-- Items in brackets. Empty brackets hold nothing. -/
def Layout.brackets (layout : Layout) (level : Nat) (opening closing : Char)
    (items : List (List Char)) : List Char :=
  if items.isEmpty then [opening, closing]
  else
    opening :: layout.lineBreak (level + 1) ++
      (layout.comma (level + 1)).intercalate items ++ layout.lineBreak level ++ [closing]

mutual

/-- The text of a value at a level of nesting. -/
def chars (layout : Layout) (level : Nat) : Json → List Char
  | .null => "null".toList
  | .bool true => "true".toList
  | .bool false => "false".toList
  | .int i => intText i
  | .float x => x.text specialNames
  | .str s => stringChars s
  | .arr items => layout.brackets level '[' ']' (itemChars layout level items)
  | .obj fields => layout.brackets level '\x7b' '\x7d' (fieldChars layout level fields)

/-- The texts of the items of an array that stands at `level`. -/
def itemChars (layout : Layout) (level : Nat) : List Json → List (List Char)
  | [] => []
  | v :: rest => v.chars layout (level + 1) :: itemChars layout level rest

/-- The texts of the fields of an object that stands at `level`. -/
def fieldChars (layout : Layout) (level : Nat) : List (RawText × Json) → List (List Char)
  | [] => []
  | (name, v) :: rest =>
    (stringChars name ++ ':' :: ' ' :: v.chars layout (level + 1)) :: fieldChars layout level rest

end

/-- The text of a value. -/
def text (layout : Layout) (v : Json) : String :=
  String.ofList (v.chars layout 0)

/-- The text of a value by which two that differ only in the order of fields are the same: sorted
and indented by two. -/
def canonical (v : Json) : String :=
  v.sorted.text (.indented 2)

/-! ## Values in messages -/

/-- The words for values that are no finite number, in messages. -/
def shownSpecialNames : Binary64.SpecialNames :=
  ⟨"nan".toList, "inf".toList⟩

mutual

/-- The form of a value in messages, with texts in quotes. -/
def shown : Json → String
  | .null => "None"
  | .bool true => "True"
  | .bool false => "False"
  | .int i => String.ofList (intText i)
  | .float x => String.ofList (x.text shownSpecialNames)
  | .str s => quoted s
  | .arr items => "[" ++ ", ".intercalate (shownItems items) ++ "]"
  | .obj fields => "\x7b" ++ ", ".intercalate (shownFields fields) ++ "\x7d"

/-- The form of each item. -/
def shownItems : List Json → List String
  | [] => []
  | v :: rest => v.shown :: shownItems rest

/-- The form of each field. -/
def shownFields : List (RawText × Json) → List String
  | [] => []
  | (name, v) :: rest => (quoted name ++ ": " ++ v.shown) :: shownFields rest

end

end ClassChart.Json
