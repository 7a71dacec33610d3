import ClassChart.Text.Symbol

/-!
# Writing indented lines

A pen writes lines to a sink, each after as many units of indentation as the pen is deep. A sink
may be limited to a number of further writes and refuses those beyond. A pen may be limited in how
deep it can write. A refused write ends what is being drawn, but not the pen: what was written
before stays, and a nested part that fails still gives the depth back.

## Main definitions

* `Sink`: the writes accepted so far, and the room for more.
* `Limits`: how deep lines can be written.
* `Pen`: a sink with an indentation unit and a depth.
* `Draw`: what can be done with a pen and may be refused.
* `Draw.line`, `Draw.nested`: writes a line; draws one level deeper.
-/

namespace ClassChart

/-- Takes writes, all of them or a limited number. -/
structure Sink where
  /-- The accepted writes, the oldest first. -/
  writes : List RawText := []
  /-- How many more writes are accepted, if that is limited. -/
  room : Option Nat := none
  deriving DecidableEq, Repr

namespace Sink

/-- The sink after one more write, or `none` if it refuses it. -/
def write (s : Sink) (text : RawText) : Option Sink :=
  match s.room with
  | none => some { s with writes := s.writes ++ [text] }
  | some 0 => none
  | some (n + 1) => some ⟨s.writes ++ [text], some n⟩

/-- All that was written. -/
def text (s : Sink) : RawText :=
  s.writes.flatten

end Sink

/-- Why a line was not written. -/
inductive Refusal where
  /-- The sink takes no more writes. -/
  | full
  /-- The depth, or the length of the indentation, is out of range. -/
  | outOfRange
  /-- There is no memory for the indentation. -/
  | noMemory
  deriving DecidableEq, Repr

/-- How deep lines can be written. -/
structure Limits where
  /-- The depths in range are those from `-reach` up to, but not including, `reach`. Nor may the
  indentation have `reach` symbols. -/
  reach : Nat
  /-- How many symbols of indentation there is no more memory for. -/
  capacity : Nat
  deriving DecidableEq, Repr

/-- The limits of a machine with words of 64 bits. -/
def machineLimits : Limits where
  reach := 0x8000000000000000
  capacity := 0x1000000000

/-- Why no line can be written at a depth, for a unit of indentation of the given length. -/
def Limits.refusal? (limits : Limits) (length : Nat) (depth : Int) : Option Refusal :=
  let total := length * depth.toNat
  if depth < -limits.reach ∨ limits.reach ≤ depth ∨ limits.reach ≤ total then some .outOfRange
  else if limits.capacity ≤ total then some .noMemory
  else none

/-- The unit of indentation if none is chosen. -/
def defaultIndent : RawText := "    "

/-- A sink, the unit of indentation and the current depth. -/
structure Pen where
  indent : RawText := defaultIndent
  depth : Int := 0
  sink : Sink := {}
  /-- How deep lines can be written, if that is limited. -/
  limits : Option Limits := none
  deriving DecidableEq, Repr

namespace Pen

/-- The indentation at a depth. There is none at a negative one. -/
def margin (indent : RawText) (depth : Int) : RawText :=
  if indent.isEmpty then [] else (List.replicate depth.toNat indent).flatten

/-- The write for a line at the current depth. -/
def lineText (pen : Pen) (line : String) : RawText :=
  margin pen.indent pen.depth ++ RawText.ofString (line ++ "\n")

/-- Why no line can be written at the current depth. -/
def refusal? (pen : Pen) : Option Refusal :=
  pen.limits.bind (·.refusal? pen.indent.length pen.depth)

/-- The pen moved by a number of levels. -/
def shift (pen : Pen) (levels : Int) : Pen :=
  { pen with depth := pen.depth + levels }

end Pen

/-- An action on a pen. -/
abbrev Draw := ExceptT Refusal (StateM Pen)

namespace Draw

/-- Writes a line at the current depth. -/
def line (text : String) : Draw Unit := do
  let pen ← get
  match pen.refusal? with
  | some refusal => throw refusal
  | none =>
    match pen.sink.write (pen.lineText text) with
    | some sink => set { pen with sink }
    | none => throw .full

/-- Writes lines in order. -/
def lines : List String → Draw Unit
  | [] => pure ()
  | text :: rest => do
    line text
    lines rest

/-- Draws one level deeper and returns to the level before, also if the drawing is refused. -/
def nested (body : Draw Unit) : Draw Unit :=
  ExceptT.mk do
    modify (·.shift 1)
    let outcome ← body.run
    modify (·.shift (-1))
    return outcome

end Draw

end ClassChart
