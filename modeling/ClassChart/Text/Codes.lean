import ClassChart.Text.Symbol

/-!
# Terminal codes

Terminals take some sequences of characters as commands to change colours or move the cursor: an
escape and an opening bracket, then parameters, then intermediate characters, then one final
character. Each of the three kinds has a range of ASCII of its own, and the first two may be absent.
Output that does not go to a terminal is freed of such codes.

It is the library `click`, in a release from 8.0 on, that prints for the program and drops the codes.
The library is no part of the program. What is here is an assumption about it, and results about
printed text rest on it.

## Main definitions

* `isCodeParameter`, `isCodeIntermediate`, `isCodeFinal`: the three kinds of characters.
* `dropCodes`: a text without terminal codes.
-/

namespace ClassChart.Text

/-- The character that terminal codes start with. -/
def escapeSign : Char := '\x1b'

/-- Whether a character can be a parameter of a code: a digit or one of `:;<=>?`. -/
def isCodeParameter (c : Char) : Bool :=
  0x30 ≤ c.toNat && c.toNat ≤ 0x3f

/-- Whether a character can stand between the parameters of a code and its end: a blank or one of
the signs up to the slash. -/
def isCodeIntermediate (c : Char) : Bool :=
  0x20 ≤ c.toNat && c.toNat ≤ 0x2f

/-- Whether a character can end a code: a letter or one of the signs around the letters, an opening
bracket among them. -/
def isCodeFinal (c : Char) : Bool :=
  0x40 ≤ c.toNat && c.toNat ≤ 0x7e

/-- Whether a character makes a beginning of a code longer. What is held of the code is given from
the last character to the first. No parameter follows an intermediate character. -/
def continuesCode : (held : List Char) → Char → Bool
  | [], c => c == escapeSign
  | [_], c => c == '['
  | last :: _, c => isCodeIntermediate c || (isCodeParameter c && !isCodeIntermediate last)

/-- Whether a character completes a code, of which at least the bracket has been read. -/
def completesCode : (held : List Char) → Char → Bool
  | _ :: _ :: _, c => isCodeFinal c
  | _, _ => false

/-- What is held, from the first character to the last, as part of a text. -/
def releaseCode (held : List Char) : RawText :=
  held.reverse.map .char

/-- Drops the codes from the symbols that follow the held beginning of a code. A beginning that
does not become a code is kept. -/
def dropCodesAfter (held : List Char) : RawText → RawText
  | [] => releaseCode held
  | .half index :: rest => releaseCode held ++ .half index :: dropCodesAfter [] rest
  | .char c :: rest =>
    if completesCode held c then dropCodesAfter [] rest
    else if continuesCode held c then dropCodesAfter (c :: held) rest
    else if c = escapeSign then releaseCode held ++ dropCodesAfter [c] rest
    else releaseCode held ++ .char c :: dropCodesAfter [] rest

/-- A text without terminal codes, as `click` is taken to print it where no terminal is. -/
def dropCodes (t : RawText) : RawText :=
  dropCodesAfter [] t

end ClassChart.Text
