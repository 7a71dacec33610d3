import ClassChart.Text.Symbol

/-!
# Lines

A line ends at a line break and the break is not part of it. A carriage return and the line feed
after it are one break. Nothing follows a final break, so no text has an empty last line.

## Main definitions

* `isLineBreak`: the characters that end a line.
* `lines`: the lines of a text.
* `unifyBreaks`: the text with each carriage return, alone or before a line feed, replaced by one
  line feed.
-/

namespace ClassChart.Text

/-- Whether `c` ends a line: line feed, vertical tab, form feed, carriage return, the file, group
and record separators, next line, and the line and paragraph separators. -/
def isLineBreak (c : Char) : Bool :=
  c == '\n' || c == '\r' || c == '\x0b' || c == '\x0c' || c == '\x1c' || c == '\x1d' ||
    c == '\x1e' || c == '\x85' || c == '\u2028' || c == '\u2029'

/-- The lines of a text. -/
def lines : RawText → List RawText
  | [] => []
  | .char '\r' :: .char '\n' :: rest => [] :: lines rest
  | symbol :: rest =>
    if symbol.isCharWith isLineBreak then [] :: lines rest
    else
      match lines rest with
      | [] => [[symbol]]
      | l :: ls => (symbol :: l) :: ls

/-- Replaces each carriage return, and the line feed after it, by one line feed. -/
def unifyBreaks : List Char → List Char
  | [] => []
  | '\r' :: '\n' :: rest => '\n' :: unifyBreaks rest
  | '\r' :: rest => '\n' :: unifyBreaks rest
  | c :: rest => c :: unifyBreaks rest

end ClassChart.Text
