import ClassChart.Json.Basic
import ClassChart.Number.Text

/-!
# Envelopes

Results in JSON come in an envelope that says which command and version made them and when. The
time is the last field to be set, so that no result can take its place.

## Main definitions

* `Timestamp`, `Timestamp.text`: a point in time to the second.
* `envelope`, `envelope?`: the fields of an envelope.
-/

namespace ClassChart

/-- A point in time in the calendar of UTC. -/
structure Timestamp where
  year : Nat
  month : Nat
  day : Nat
  hour : Nat
  minute : Nat
  second : Nat
  deriving DecidableEq, Repr

/-- A number with leading zeros up to a width. -/
def padded (width n : Nat) : String :=
  let digits := Nat.toDigits 10 n
  String.ofList (List.replicate (width - digits.length) '0' ++ digits)

/-- The text of a point in time. -/
def Timestamp.text (t : Timestamp) : String :=
  padded 4 t.year ++ "-" ++ padded 2 t.month ++ "-" ++ padded 2 t.day ++ "T" ++
    padded 2 t.hour ++ ":" ++ padded 2 t.minute ++ ":" ++ padded 2 t.second ++ "Z"

/-- The version of the program. -/
def programVersion : String := "0.3.0"

/-- The fields of the envelope for the result `payload` of a command. A field of the payload
replaces one of the envelope in its place. A summary that is nothing is shown as an empty object. -/
def envelope (now : Timestamp) (command : String) (summary : Json) (payload : Object) : Object :=
  let head : Object :=
    [("schema", .str "classdiagram-envelope-v1"), ("schema_version", .str "1.0.0"),
      ("command", .str command), ("version", .str programVersion),
      ("summary", if summary.isNothing then .obj [] else summary)]
  Object.set "_meta" (.obj [("timestamp", .str now.text)]) (head.merge payload)

/-- The names that a payload must not have, as the command and its summary are given beside it. -/
def reservedNames : List RawText := ["command", "summary"]

/-- The fields of the envelope, if the payload has no reserved name. -/
def envelope? (now : Timestamp) (command : String) (summary : Json) (payload : Object) :
    Option Object :=
  if payload.any fun field => reservedNames.contains field.1 then none
  else some (envelope now command summary payload)

end ClassChart
