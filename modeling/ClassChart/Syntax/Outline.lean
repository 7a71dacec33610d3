import ClassChart.Notice
import ClassChart.Syntax.Member

/-!
# The outline of a source file

The declarations of a syntax tree, in source order. Types and namespaces are read with their bodies.
A file-scoped namespace reaches to the end of the list it stands in: what follows it belongs to it,
whether the grammar puts it inside or beside. Declarations that diagrams do not show are noted.

## Main definitions

* `Form`, `formOf`: how a node of some kind is read.
* `declaration`, `declarations`, `bodyDeclarations`: the declarations of a node, of a list of nodes
  and of a body among nodes.
* `outline`: the compilation unit of a syntax tree.
-/

namespace ClassChart.Syntax

open Text (Bytes)

/-- How a node is read. -/
inductive Form where
  | namespaceBlock
  | fileNamespace
  | type (kind : TypeKind)
  | enumeration
  | constructor
  | field
  | property
  | method
  /-- A declaration that diagrams do not show. -/
  | skipped
  /-- No declaration. -/
  | other
  deriving DecidableEq, Repr

/-- The kinds of declarations that diagrams do not show. -/
def skippedKinds : List String :=
  ["record_declaration", "delegate_declaration", "event_declaration", "event_field_declaration",
    "indexer_declaration", "operator_declaration", "conversion_operator_declaration",
    "destructor_declaration"]

/-- How a node of the given kind is read. -/
def formOf (kind : String) : Form :=
  if kind = "namespace_declaration" then .namespaceBlock
  else if kind = "file_scoped_namespace_declaration" then .fileNamespace
  else if kind = "class_declaration" then .type .classType
  else if kind = "interface_declaration" then .type .interfaceType
  else if kind = "struct_declaration" then .type .structType
  else if kind = "enum_declaration" then .enumeration
  else if kind = "constructor_declaration" then .constructor
  else if kind = "field_declaration" then .field
  else if kind = "property_declaration" then .property
  else if kind = "method_declaration" then .method
  else if skippedKinds.contains kind then .skipped
  else .other

/-- Declarations with the notices made while reading them. -/
abbrev Outline := Logged MissingBase

/-- The name of a namespace. -/
def namespaceName (source : Bytes) (children : List Node) : String :=
  Node.textOf source (labelledOrOfKind? "name" ["qualified_name", "identifier"] children)

/-- Tells the body among the children of a declaration: a child labelled as such or, without one, a
declaration list. -/
def isBody (children : List Node) (n : Node) : Bool :=
  if (labelled? "body" children).isSome then n.label == some "body"
  else n.kind == "declaration_list"

/-- What the header of a type says. -/
def typeHead (source : Bytes) (name : Node) (children : List Node) : Except MissingBase TypeHead := do
  let bases ← baseTypes source children
  return {
    name := name.text source
    modifiers := modifiers source children
    typeParameters := Node.textOf source
      (labelledOrOfKind? "type_parameters" ["type_parameter_list"] children)
    baseTypes := bases }

mutual

/-- The declaration of a node, if it is one. -/
def declaration (source : Bytes) : Node → Outline (Option Declaration)
  | .mk info children =>
    match formOf info.kind with
    | .namespaceBlock => do
      let members ← bodyDeclarations source (isBody children) children
      return some (.scope (.namespaceOf (namespaceName source children)) members)
    | .type kind =>
      match labelled? "name" children with
      | some name => do
        let head ← Logged.ofExcept (typeHead source name children)
        let members ← bodyDeclarations source (isBody children) children
        return some (.type kind head members)
      | none => return none
    | .enumeration => return enumeration? source children
    | .constructor => return (constructor? source children).map .member
    | .field => return (field? source children).map .member
    | .property => return (property? source children).map .member
    | .method => return (method? source children).map .member
    | .skipped => do
      Logged.notice (.skippedDeclaration info.kind (info.row + 1))
      return none
    | .fileNamespace | .other => return none

/-- The declarations of nodes, followed by the declarations `after` them. A file-scoped namespace
takes in all that follows. -/
def declarations (source : Bytes) :
    List Node → (after : Outline (List Declaration)) → Outline (List Declaration)
  | [], after => after
  | .mk info children :: rest, after =>
    match formOf info.kind with
    | .fileNamespace => do
      let members ← declarations source children (declarations source rest after)
      return [.scope (.namespaceOf (namespaceName source children)) members]
    | _ => do
      let found ← declaration source (.mk info children)
      let others ← declarations source rest after
      return found.toList ++ others

/-- The declarations in the first of the nodes that is a body. -/
def bodyDeclarations (source : Bytes) (isBody : Node → Bool) :
    List Node → Outline (List Declaration)
  | [] => return []
  | .mk info children :: rest =>
    if isBody (.mk info children) then declarations source children (return [])
    else bodyDeclarations source isBody rest

end

/-- The compilation unit of a syntax tree. -/
def outline (source : Bytes) (tree : SyntaxTree) (filePath : String) : Outline Declaration := do
  if tree.hasError then Logged.notice (.syntaxErrors filePath)
  let members ← declarations source tree.root.children (return [])
  return .scope (.compilationUnit filePath) members

end ClassChart.Syntax
