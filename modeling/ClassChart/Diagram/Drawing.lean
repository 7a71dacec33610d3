import ClassChart.Declaration
import ClassChart.Diagram.Pen
import ClassChart.Modifier
import ClassChart.Text.Lines

/-!
# Drawing declarations

A type or enumeration is a block: a header, its members one level deeper and a closing line. The
lines for the base types of a type follow its block. Scopes leave no trace but their members.

## Main definitions

* `TypeHead.header`, `EnumHead.header`, `Member.lines`: the lines of one declaration.
* `Declaration.draw`: draws a declaration with all in it.
* `Step`, `Step.perform`: the single actions of a drawing session.
* `Declaration.render`: the lines of a drawing.
-/

namespace ClassChart

/-! ## The lines of one declaration -/

/-- The parameters in parentheses. -/
def parameterList (parameters : List Parameter) : String :=
  "(" ++ ", ".intercalate (parameters.map fun p => p.name ++ ":" ++ p.type) ++ ")"

/-- An initial value, which is shown only if it is a literal. -/
def initializerText : Option Initializer → String
  | some i => if i.isLiteral then " = " ++ i.text else ""
  | none => ""

/-- The accessors of a property, without the private ones. -/
def accessorList (accessors : List Accessor) : String :=
  " ".intercalate ((accessors.filter fun a => !a.modifiers.contains "private").map fun a =>
    stereotype (" ".intercalate (a.modifiers ++ [a.keyword])))

/-- The value of an enumeration member. An empty one counts as none. -/
def enumValueText : Option String → String
  | some value => if value.isEmpty then "" else " = " ++ value
  | none => ""

/-- The lines of a member: one for each variable of a field, and one for any other. -/
def Member.lines : Member → List String
  | .constructor name modifiers parameters =>
    [memberModifiers modifiers ++ name ++ parameterList parameters]
  | .field type declared modifiers =>
    declared.map fun v =>
      memberModifiers modifiers ++ v.name ++ " : " ++ type ++ initializerText v.initializer
  | .property name type modifiers accessors initializer =>
    [memberModifiers modifiers ++ name ++ " : " ++ type ++ " " ++ accessorList (accessors.getD []) ++
      initializerText initializer]
  | .method name returnType modifiers parameters =>
    [memberModifiers modifiers ++ name ++ parameterList parameters ++ " : " ++ returnType]
  | .enumMember name value => [name ++ enumValueText value ++ ","]

/-- The keyword of a type. Structures are drawn as classes. -/
def typeKeyword (kind : TypeKind) (modifiers : List String) : String :=
  match kind with
  | .interfaceType => "interface"
  | .classType => if modifiers.contains "abstract" then "abstract class" else "class"
  | .structType => "class"

/-- The stereotype that tells a structure from a class. -/
def kindMark : TypeKind → String
  | .structType => stereotype "struct" ++ " "
  | _ => ""

/-- The line that opens the block of a type. -/
def TypeHead.header (kind : TypeKind) (head : TypeHead) : String :=
  typeKeyword kind head.modifiers ++ " " ++ head.name ++ head.typeParameters ++ " " ++
    kindMark kind ++ typeModifiers head.modifiers ++ "\x7b"

/-- The line that opens the block of an enumeration. -/
def EnumHead.header (head : EnumHead) : String :=
  head.keyword ++ " " ++ head.name ++ " \x7b"

/-- The line that closes a block. -/
def footer : String := "\x7d"

/-- The lines after the block of a type, one for each base type. -/
def TypeHead.edges (head : TypeHead) : List String :=
  head.baseTypes.map fun base => head.name ++ " <|-- " ++ base

/-! ## Drawing -/

mutual

/-- Draws a declaration. -/
def Declaration.draw : Declaration → Draw Unit
  | .type kind head members => do
    Draw.line (head.header kind)
    Draw.nested (Declaration.drawAll members)
    Draw.line footer
    Draw.lines head.edges
  | .enum head members => do
    Draw.line head.header
    Draw.nested (Declaration.drawAll members)
    Draw.line footer
  | .member m => Draw.lines m.lines
  | .scope _ members => Declaration.drawAll members

/-- Draws declarations in order. -/
def Declaration.drawAll : List Declaration → Draw Unit
  | [] => pure ()
  | d :: rest => do
    d.draw
    Declaration.drawAll rest

end

/-- A single action of a drawing session. -/
inductive Step where
  | draw (d : Declaration)
  | line (text : String)
  | setDepth (depth : Int)
  | setIndent (indent : RawText)
  /-- Limits the sink to so many further writes, or lifts the limit. -/
  | setRoom (room : Option Nat)

/-- Performs an action. -/
def Step.perform : Step → Draw Unit
  | .draw d => d.draw
  | .line text => Draw.line text
  | .setDepth depth => modify fun pen => { pen with depth }
  | .setIndent indent => modify fun pen => { pen with indent }
  | .setRoom room => modify fun pen => { pen with sink := { pen.sink with room } }

/-- The writes that drawing a declaration makes from a fresh pen. -/
def Declaration.writes (indent : RawText) (d : Declaration) : List RawText :=
  (d.draw.run.run { indent }).2.sink.writes

/-- The lines of a drawing. A text with a line break in it takes more than one. -/
def Declaration.render (indent : RawText) (d : Declaration) : List RawText :=
  Text.lines (d.writes indent).flatten

end ClassChart
