import ClassChart.Json.Basic
import ClassChart.Text.Hex

/-!
# Reading JSON

The text of a value may have blanks, tabs and line breaks between its tokens. Besides the standard
forms, `NaN`, `Infinity` and `-Infinity` are numbers. A number with a point or an exponent is a
floating point number, any other a whole one, which must not have too many digits. Control
characters in a string have to be escaped. Escaped surrogates that are a pair are one character.

Every reader takes the characters that are left and returns what it read with the rest.

## Main definitions

* `Json.ReadFault`: why a text cannot be read.
* `Json.string?`, `Json.number`, `Json.value`: readers of a string, a number and a value.
* `Json.parse`: the value that a whole text denotes.
-/

namespace ClassChart.Json

open Text (hexValue?)

/-- Why a text cannot be read. -/
inductive ReadFault where
  /-- The text is no JSON. -/
  | malformed
  /-- A whole number has too many digits. -/
  | longInteger
  deriving DecidableEq, Repr

/-- What was read, where nothing means that the text is no JSON. -/
def orMalformed {α : Type} : Option α → Except ReadFault α
  | some a => .ok a
  | none => .error .malformed

/-- Whether a character may stand between tokens. -/
def isSpace (c : Char) : Bool :=
  c == ' ' || c == '\t' || c == '\n' || c == '\r'

/-- Drops the characters between two tokens. -/
def skipSpace (cs : List Char) : List Char :=
  cs.dropWhile isSpace

/-- Reads the given word. -/
def word? (word cs : List Char) : Option (List Char) :=
  if word.isPrefixOf cs then some (cs.drop word.length) else none

/-! ## Strings -/

/-- The character that a one-letter escape stands for. -/
def shortEscape? : Char → Option Char
  | '"' => some '"'
  | '\\' => some '\\'
  | '/' => some '/'
  | 'b' => some '\x08'
  | 'f' => some '\x0c'
  | 'n' => some '\n'
  | 'r' => some '\r'
  | 't' => some '\t'
  | _ => none

/-- The code unit that four hexadecimal digits stand for. -/
def unit? (a b c d : Char) : Option Nat := do
  let a ← hexValue? a
  let b ← hexValue? b
  let c ← hexValue? c
  let d ← hexValue? d
  return ((a * 16 + b) * 16 + c) * 16 + d

/-- Reads a string after its opening quote, up to and with the closing one, as code points in which
escaped surrogates are not yet paired. -/
def codes? : List Char → Option (List Nat × List Char)
  | [] => none
  | '"' :: rest => some ([], rest)
  | '\\' :: 'u' :: a :: b :: c :: d :: rest => do
    let code ← unit? a b c d
    let (codes, rest) ← codes? rest
    return (code :: codes, rest)
  | '\\' :: e :: rest => do
    let c ← shortEscape? e
    let (codes, rest) ← codes? rest
    return (c.toNat :: codes, rest)
  | c :: rest =>
    if c < ' ' ∨ c = '\\' then none
    else do
      let (codes, rest) ← codes? rest
      return (c.toNat :: codes, rest)

/-- Whether a code is the first half of a surrogate pair. -/
def isHigh (code : Nat) : Bool :=
  0xD800 ≤ code && code < 0xDC00

/-- Whether a code is the second half of a surrogate pair. -/
def isLow (code : Nat) : Bool :=
  0xDC00 ≤ code && code < 0xE000

/-- The symbols of a list of codes, in which each pair of surrogates is one character. -/
def joinPairs : List Nat → RawText
  | [] => []
  | [code] => [.ofCode code]
  | high :: low :: rest =>
    if isHigh high && isLow low then
      .char (Char.ofNat (0x10000 + (high - 0xD800) * 0x400 + (low - 0xDC00))) :: joinPairs rest
    else
      .ofCode high :: joinPairs (low :: rest)

/-- Reads a string after its opening quote. -/
def string? (cs : List Char) : Option (RawText × List Char) := do
  let (codes, rest) ← codes? cs
  return (joinPairs codes, rest)

/-! ## Numbers -/

/-- The value of a list of decimal digits. -/
def digitsValue (digits : List Char) : Nat :=
  digits.foldl (fun n c => n * 10 + (c.toNat - 0x30)) 0

/-- Reads the longest run of digits. -/
def digits (cs : List Char) : List Char × List Char :=
  (cs.takeWhile Char.isDigit, cs.dropWhile Char.isDigit)

/-- Reads the digits before the point: a zero alone, or digits of which the first is not zero. -/
def wholeDigits? : List Char → Option (List Char × List Char)
  | '0' :: rest => some (['0'], rest)
  | c :: rest => if c.isDigit then some (digits (c :: rest)) else none
  | [] => none

/-- Reads a point with the digits after it, if there are any. -/
def fractionDigits (cs : List Char) : List Char × List Char :=
  match cs with
  | '.' :: rest => if (digits rest).1.isEmpty then ([], cs) else digits rest
  | _ => ([], cs)

/-- Reads the sign of an exponent: whether it is negative. -/
def exponentSign : List Char → Bool × List Char
  | '-' :: rest => (true, rest)
  | '+' :: rest => (false, rest)
  | cs => (false, cs)

/-- Reads an exponent, if it has digits. -/
def exponent? (cs : List Char) : Option Int × List Char :=
  match cs with
  | c :: rest =>
    if c = 'e' ∨ c = 'E' then
      let (negative, rest) := exponentSign rest
      let (ds, rest) := digits rest
      if ds.isEmpty then (none, cs)
      else
        let power : Int := digitsValue ds
        (some (if negative then -power else power), rest)
    else (none, cs)
  | [] => (none, cs)

/-- The most digits that a whole number may have. -/
def maxIntegerDigits : Nat := 4300

/-- The whole number of some digits. -/
def integer (negative : Bool) (digits : List Char) : Except ReadFault Json :=
  if digits.length ≤ maxIntegerDigits then
    let n : Int := digitsValue digits
    .ok (.int (if negative then -n else n))
  else .error .longInteger

/-- Reads a number after its sign. -/
def unsigned (negative : Bool) (cs : List Char) : Except ReadFault (Json × List Char) := do
  let (whole, rest) ← orMalformed (wholeDigits? cs)
  let (fraction, rest) := fractionDigits rest
  let (power, rest) := exponent? rest
  if fraction.isEmpty && power.isNone then
    return (← integer negative whole, rest)
  else
    let x := Binary64.ofDecimal negative (digitsValue (whole ++ fraction))
      (power.getD 0 - fraction.length)
    return (.float x, rest)

/-- Reads a number. -/
def number : List Char → Except ReadFault (Json × List Char)
  | '-' :: rest => unsigned true rest
  | cs => unsigned false cs

/-! ## Values -/

/-- The values that are written as one word. -/
def namedValues : List (List Char × Json) :=
  [("null".toList, .null), ("true".toList, .bool true), ("false".toList, .bool false),
    ("NaN".toList, .float .nan), ("Infinity".toList, .float (.infinite false)),
    ("-Infinity".toList, .float (.infinite true))]

/-- Reads a value that is not nested: a word or a number. -/
def atom (cs : List Char) : Except ReadFault (Json × List Char) :=
  match namedValues.findSome? fun (name, v) => (word? name cs).map fun rest => (v, rest) with
  | some found => .ok found
  | none => number cs

mutual

/-- Reads a value, nested less deep than the first argument. -/
def value : Nat → List Char → Except ReadFault (Json × List Char)
  | 0, _ => .error .malformed
  | depth + 1, cs =>
    match cs with
    | '"' :: rest => do
      let (s, rest) ← orMalformed (string? rest)
      return (.str s, rest)
    | '[' :: rest =>
      match skipSpace rest with
      | ']' :: rest => .ok (.arr [], rest)
      | rest => do
        let (items, rest) ← items depth rest
        return (.arr items, rest)
    | '\x7b' :: rest =>
      match skipSpace rest with
      | '\x7d' :: rest => .ok (.obj [], rest)
      | rest => do
        let (fields, rest) ← fields depth rest
        return (.obj (Object.ofFields fields), rest)
    | _ => atom cs

/-- Reads the items of an array, up to and with the closing bracket. -/
def items : Nat → List Char → Except ReadFault (List Json × List Char)
  | 0, _ => .error .malformed
  | depth + 1, cs => do
    let (v, rest) ← value depth cs
    match skipSpace rest with
    | ']' :: rest => return ([v], rest)
    | ',' :: rest =>
      let (others, rest) ← items depth (skipSpace rest)
      return (v :: others, rest)
    | _ => .error .malformed

/-- Reads the fields of an object, up to and with the closing bracket. -/
def fields : Nat → List Char → Except ReadFault (List (RawText × Json) × List Char)
  | 0, _ => .error .malformed
  | depth + 1, cs =>
    match cs with
    | '"' :: rest => do
      let (name, rest) ← orMalformed (string? rest)
      match skipSpace rest with
      | ':' :: rest =>
        let (v, rest) ← value depth (skipSpace rest)
        match skipSpace rest with
        | '\x7d' :: rest => return ([(name, v)], rest)
        | ',' :: rest =>
          let (others, rest) ← fields depth (skipSpace rest)
          return ((name, v) :: others, rest)
        | _ => .error .malformed
      | _ => .error .malformed
    | _ => .error .malformed

end

/-- The value that a list of characters denotes. Each nested call of a reader has read a character
or is the second for the same bracket, so that twice the length bounds their depth. -/
def parseChars (cs : List Char) : Except ReadFault Json := do
  let (v, rest) ← value (2 * cs.length + 2) (skipSpace cs)
  if (skipSpace rest).isEmpty then return v else .error .malformed

/-- The value that a text denotes. -/
def parse (s : String) : Except ReadFault Json :=
  parseChars s.toList

end ClassChart.Json
