import ClassChart.Text.CodePoints
import ClassChart.Text.Symbol

/-!
# Blank characters and words

## Main definitions

* `isBlank`: the characters that separate words.
* `words`: the maximal runs of symbols that are not blank, in order.
* `strip`: a text without the blanks at its two ends.
-/

namespace ClassChart.Text

/-- The blank code points: spaces, tabs, line and paragraph separators, and the four information
separators. -/
def blank : CodePoints :=
  ⟨[(0x9, 0xD), (0x1C, 0x20), (0x85, 0x85), (0xA0, 0xA0), (0x1680, 0x1680), (0x2000, 0x200A),
    (0x2028, 0x2029), (0x202F, 0x202F), (0x205F, 0x205F), (0x3000, 0x3000)]⟩

/-- Whether `c` separates words. -/
def isBlank (c : Char) : Bool :=
  blank.contains c

/-- The words of a text. A symbol that is not blank is a word of its own when a blank or the end
follows, and else belongs to the word that follows. -/
def words : RawText → List RawText
  | [] => []
  | a :: rest =>
    if a.isCharWith isBlank then words rest
    else
      match rest with
      | [] => [[a]]
      | b :: _ =>
        if b.isCharWith isBlank then [a] :: words rest
        else
          match words rest with
          | [] => [[a]]
          | w :: ws => (a :: w) :: ws

/-- A text without the blanks it starts and ends with. -/
def strip (s : String) : String :=
  String.ofList ((s.toList.dropWhile isBlank).reverse.dropWhile isBlank).reverse

end ClassChart.Text
