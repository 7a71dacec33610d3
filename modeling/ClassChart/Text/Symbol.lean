/-!
# Raw text

Characters beyond the first plane are two units in some encodings, and such an encoding can hold one
half without the other. A half that stands alone is no character, but texts from there may have it
in them. Raw text is what can have such halves; a string is what has none.

## Main definitions

* `Symbol`: a character or a lone half, with `Symbol.code`.
* `RawText`: a list of symbols, with `RawText.ofString` and `RawText.toString?`.
* `RawText.le`: the order by code points.
-/

namespace ClassChart

/-- A character, or one half of a pair of surrogates that stands alone. -/
inductive Symbol where
  | char (c : Char)
  /-- A surrogate, counted from the first one. -/
  | half (index : Fin 0x800)
  deriving DecidableEq, Repr

namespace Symbol

/-- The code point of the first surrogate. -/
def firstHalf : Nat := 0xD800

/-- The code point of a symbol. -/
def code : Symbol → Nat
  | .char c => c.toNat
  | .half index => firstHalf + index.val

/-- The symbol with a code point. -/
def ofCode (code : Nat) : Symbol :=
  if h : firstHalf ≤ code ∧ code - firstHalf < 0x800 then .half ⟨code - firstHalf, h.2⟩
  else .char (Char.ofNat code)

/-- The character that a symbol is, if it is one. -/
def char? : Symbol → Option Char
  | .char c => some c
  | .half _ => none

/-- Whether a symbol is a character with some property. -/
def isCharWith (p : Char → Bool) : Symbol → Bool
  | .char c => p c
  | .half _ => false

end Symbol

/-- A text in which surrogates may stand alone. -/
abbrev RawText := List Symbol

namespace RawText

/-- The raw text of a string. -/
def ofString (s : String) : RawText :=
  s.toList.map .char

instance : Coe String RawText := ⟨ofString⟩

/-- The characters of a raw text, if it has no lone surrogates. -/
def chars? : RawText → Option (List Char)
  | [] => some []
  | symbol :: rest => do
    let c ← symbol.char?
    let cs ← chars? rest
    return c :: cs

/-- The string that a raw text is, if it has no lone surrogates. -/
def toString? (t : RawText) : Option String :=
  (chars? t).map String.ofList

/-- Whether one text comes before another or is the same, compared symbol by symbol. -/
def le : RawText → RawText → Bool
  | [], _ => true
  | _ :: _, [] => false
  | a :: as, b :: bs => decide (a.code < b.code) || (a == b && le as bs)

end RawText

end ClassChart
