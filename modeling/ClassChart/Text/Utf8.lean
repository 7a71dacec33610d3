import ClassChart.Text.Hex
import ClassChart.Text.Lines

/-!
# Bytes as UTF-8 text

Decoding reads one byte at a time and keeps the character that is still incomplete. Bytes that no
encoding starts with, and beginnings of a character that the next byte or the end of the data cuts
off, are malformed pieces. Such a piece is as long as it can be while it is still the beginning of
a character, and at least one byte.

## Main definitions

* `Utf8.encode`: the bytes of a text.
* `Utf8.pieces`: the characters and malformed pieces that bytes consist of.
* `Utf8.decodeLossy`: the text with each malformed piece replaced by U+FFFD.
* `Utf8.decode`: the text, or the first malformed piece and where it starts.
* `Utf8.decodeFile`: the text of a file, without a byte order mark and with unified line breaks.
-/

namespace ClassChart.Text

/-- The content of a file or a part of it. -/
abbrev Bytes := List UInt8

namespace Utf8

/-- The bytes of a text. -/
def encode (s : String) : Bytes :=
  s.toList.flatMap String.utf8EncodeChar

/-- What makes a piece malformed. -/
inductive Reason where
  /-- No encoding starts with the byte. -/
  | invalidStart
  /-- The next byte does not continue the character. -/
  | invalidContinuation
  /-- The data ends inside a character. -/
  | unexpectedEnd
  deriving DecidableEq, Repr

/-- The wording of a reason. -/
def Reason.message : Reason → String
  | .invalidStart => "invalid start byte"
  | .invalidContinuation => "invalid continuation byte"
  | .unexpectedEnd => "unexpected end of data"

/-- A character of the text, or a malformed piece with its first byte and its length. -/
inductive Piece where
  | char (c : Char)
  | malformed (first : UInt8) (length : Nat) (reason : Reason)
  deriving DecidableEq, Repr

/-- A character of which some bytes have been read and `owed` are still to come. The next one has
to lie between `low` and `high`, and `value` holds the bits read so far. -/
structure Pending where
  first : UInt8
  seen : Nat
  owed : Nat
  low : UInt8
  high : UInt8
  value : Nat
  deriving DecidableEq, Repr

/-- The character that a byte outside ASCII starts. The bounds on the byte after it rule out
overlong forms, surrogates and values past the last code point. -/
def lead? (b : UInt8) : Option Pending :=
  if 0xC2 ≤ b ∧ b ≤ 0xDF then
    some ⟨b, 1, 1, 0x80, 0xBF, b.toNat - 0xC0⟩
  else if 0xE0 ≤ b ∧ b ≤ 0xEF then
    some ⟨b, 1, 2, if b = 0xE0 then 0xA0 else 0x80, if b = 0xED then 0x9F else 0xBF, b.toNat - 0xE0⟩
  else if 0xF0 ≤ b ∧ b ≤ 0xF4 then
    some ⟨b, 1, 3, if b = 0xF0 then 0x90 else 0x80, if b = 0xF4 then 0x8F else 0xBF, b.toNat - 0xF0⟩
  else none

/-- Reads a byte between two characters. -/
def first (b : UInt8) : List Piece × Option Pending :=
  if b < 0x80 then ([.char (Char.ofNat b.toNat)], none)
  else
    match lead? b with
    | some p => ([], some p)
    | none => ([.malformed b 1 .invalidStart], none)

/-- Reads one byte. A byte that does not continue the pending character ends it as malformed and
is read again between characters. -/
def feed (pending : Option Pending) (b : UInt8) : List Piece × Option Pending :=
  match pending with
  | none => first b
  | some p =>
    if p.low ≤ b ∧ b ≤ p.high then
      let value := p.value * 64 + (b.toNat - 0x80)
      if p.owed = 1 then ([.char (Char.ofNat value)], none)
      else ([], some ⟨p.first, p.seen + 1, p.owed - 1, 0x80, 0xBF, value⟩)
    else
      let (read, next) := first b
      (.malformed p.first p.seen .invalidContinuation :: read, next)

/-- The piece that the end of the data leaves. -/
def finish : Option Pending → List Piece
  | none => []
  | some p => [.malformed p.first p.seen .unexpectedEnd]

/-- The pieces of the bytes that follow a pending character. -/
def piecesAfter (pending : Option Pending) : Bytes → List Piece
  | [] => finish pending
  | b :: rest =>
    let (read, next) := feed pending b
    read ++ piecesAfter next rest

/-- The pieces that bytes consist of. -/
def pieces (bytes : Bytes) : List Piece :=
  piecesAfter none bytes

/-- The character shown for a piece: itself, or U+FFFD for a malformed one. -/
def Piece.shown : Piece → Char
  | .char c => c
  | .malformed .. => '\ufffd'

/-- The text with each malformed piece replaced by U+FFFD. -/
def decodeLossy (bytes : Bytes) : String :=
  String.ofList ((pieces bytes).map Piece.shown)

/-- Where and why bytes are no text. -/
structure Fault where
  position : Nat
  first : UInt8
  length : Nat
  reason : Reason
  deriving DecidableEq, Repr

/-- The wording of a fault. -/
def Fault.message (f : Fault) : String :=
  let place :=
    if f.length = 1 then
      "byte 0x" ++ String.ofList (hex 2 f.first.toNat) ++ " in position " ++ toString f.position
    else
      "bytes in position " ++ toString f.position ++ "-" ++ toString (f.position + f.length - 1)
  "'utf-8' codec can't decode " ++ place ++ ": " ++ f.reason.message

/-- The characters of a list of pieces, the first of which starts at `position`. -/
def charsFrom (position : Nat) : List Piece → Except Fault (List Char)
  | [] => .ok []
  | .char c :: rest =>
    match charsFrom (position + c.utf8Size) rest with
    | .ok cs => .ok (c :: cs)
    | .error f => .error f
  | .malformed first length reason :: _ => .error ⟨position, first, length, reason⟩

/-- The text that bytes encode, or the first fault in them. -/
def decode (bytes : Bytes) : Except Fault String :=
  (charsFrom 0 (pieces bytes)).map String.ofList

/-- The byte order mark. -/
def byteOrderMark : Bytes := [0xEF, 0xBB, 0xBF]

/-- Drops one leading byte order mark. Of a file that is only the beginning of one, nothing is
left. -/
def dropMark (bytes : Bytes) : Bytes :=
  if bytes.isPrefixOf byteOrderMark then []
  else if byteOrderMark.isPrefixOf bytes then bytes.drop 3
  else bytes

/-- The text of a file. Positions of faults count from after the byte order mark. -/
def decodeFile (bytes : Bytes) : Except Fault String :=
  (decode (dropMark bytes)).map fun s => String.ofList (unifyBreaks s.toList)

end Utf8

end ClassChart.Text
