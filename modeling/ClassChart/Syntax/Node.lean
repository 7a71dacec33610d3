import ClassChart.Text.Utf8

/-!
# Syntax trees

A parser turns the bytes of a source into a tree of nodes. A node spans a range of the bytes, has a
kind, and may carry a label that says which part of its parent it is. Named nodes stand for parts of
the grammar, the others for punctuation and keywords.

## Main definitions

* `Node`: a node with its children.
* `SyntaxTree`: the result of parsing a source.
* `Node.text`: the part of the source that a node spans.
* `labelled?`, `ofKind?`, `labelledOrOfKind?`: looking for a child.
-/

namespace ClassChart

open Text (Bytes)

/-- What a node is by itself. -/
structure NodeInfo where
  kind : String
  named : Bool
  /-- Which part of its parent the node is, if the grammar says so. -/
  label : Option String
  /-- The first byte of the node. -/
  start : Nat
  /-- The byte after its last one. -/
  stop : Nat
  /-- The line it starts on, counted from zero. -/
  row : Nat
  deriving DecidableEq, Repr

/-- A node of a syntax tree. -/
inductive Node where
  | mk (info : NodeInfo) (children : List Node)
  deriving Repr

namespace Node

/-- The node without its children. -/
def info : Node → NodeInfo
  | .mk info _ => info

/-- The children in source order. -/
def children : Node → List Node
  | .mk _ children => children

/-- The kind of a node. -/
def kind (n : Node) : String := n.info.kind

/-- Whether a node is named. -/
def named (n : Node) : Bool := n.info.named

/-- Which part of its parent a node is. -/
def label (n : Node) : Option String := n.info.label

/-- The part of the source that a node spans. What the source does not reach is left out, and
broken characters are replaced. -/
def text (source : Bytes) (n : Node) : String :=
  Text.Utf8.decodeLossy ((source.take n.info.stop).drop n.info.start)

/-- The text of a node that may be absent. -/
def textOf (source : Bytes) : Option Node → String
  | some n => n.text source
  | none => ""

/-- The named children. -/
def namedChildren (n : Node) : List Node :=
  n.children.filter (·.named)

end Node

/-- The result of parsing a source. -/
structure SyntaxTree where
  root : Node
  /-- Whether the source is not as the grammar wants it. -/
  hasError : Bool := false
  deriving Repr

/-- The first node with a label. -/
def labelled? (label : String) (nodes : List Node) : Option Node :=
  nodes.find? fun n => n.label == some label

/-- The first node of one of the given kinds. -/
def ofKind? (kinds : List String) (nodes : List Node) : Option Node :=
  nodes.find? fun n => kinds.contains n.kind

/-- The first node with a label or, as not all grammars have the label, the first of one of the
given kinds. -/
def labelledOrOfKind? (label : String) (kinds : List String) (nodes : List Node) : Option Node :=
  match labelled? label nodes with
  | some n => some n
  | none => ofKind? kinds nodes

end ClassChart
