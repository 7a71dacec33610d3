import ClassChart.Text.Hex
import ClassChart.Text.Printable
import ClassChart.Text.Symbol

/-!
# Quoted text

Messages show a text in quotes, so that blanks, controls and look-alikes in it can be seen. The
quote is the single one, unless the text holds a single quote and no double one. The backslash and
the quote in use are escaped, printable characters stand for themselves, and the rest, lone
surrogates among it, is written by code point.

## Main definitions

* `quoteFor`: the quote a text is put in.
* `escape`: the quoted form of one symbol.
* `quoted`: the quoted form of a text.
-/

namespace ClassChart.Text

/-- The quote that a text is put in. -/
def quoteFor (t : RawText) : Char :=
  if t.contains (.char '\'') && !t.contains (.char '"') then '"' else '\''

/-- A code point in the shortest of the three escapes that can hold it. -/
def escapeCode (n : Nat) : List Char :=
  if n < 0x100 then '\\' :: 'x' :: hex 2 n
  else if n < 0x10000 then '\\' :: 'u' :: hex 4 n
  else '\\' :: 'U' :: hex 8 n

/-- The form of a symbol inside the given quotes. -/
def escape (quote : Char) : Symbol → List Char
  | .char c =>
    if c = '\\' ∨ c = quote then ['\\', c]
    else if c = '\n' then ['\\', 'n']
    else if c = '\r' then ['\\', 'r']
    else if c = '\t' then ['\\', 't']
    else if isPrintable c then [c]
    else escapeCode c.toNat
  | .half index => escapeCode (Symbol.half index).code

/-- A text in quotes. -/
def quoted (t : RawText) : String :=
  String.ofList (quoteFor t :: t.flatMap (escape (quoteFor t)) ++ [quoteFor t])

end ClassChart.Text
