import ClassChart.Declaration
import ClassChart.Error
import ClassChart.Syntax.Node

/-!
# Reading members and headers

What a declaration node says about itself, read off its children. Grammars differ in which children
they label and which they wrap, so that most parts are looked for in more than one way. A
declaration whose name is missing is none.

## Main definitions

* `modifiers`, `baseTypes`: the parts of a header.
* `valueNode?`, `initializer?`: the expression after an equals sign.
* `parameters`: the parameters of a list, wrapped in nodes or not.
* `constructor?`, `field?`, `property?`, `method?`, `enumeration?`: whole declarations.
-/

namespace ClassChart.Syntax

open Text (Bytes)

variable (source : Bytes)

/-! ## Headers -/

/-- The modifiers among the children of a declaration. -/
def modifiers (children : List Node) : List String :=
  (children.filter (·.kind == "modifier")).map (·.text source)

/-- The node that names a base type. Of a base with constructor arguments it is the type alone. -/
def baseNode (n : Node) : Except MissingBase Node :=
  if n.kind = "primary_constructor_base_type" then
    match labelled? "type" n.children with
    | some type => .ok type
    | none =>
      match n.namedChildren with
      | first :: _ => .ok first
      | [] => .error .missingBase
  else .ok n

/-- The texts of the base types in a base list. -/
def baseTexts : List Node → Except MissingBase (List String)
  | [] => .ok []
  | n :: rest => do
    let base ← baseNode n
    let texts ← baseTexts rest
    return base.text source :: texts

/-- The children of a base list that are base types. -/
def baseEntries (list : Node) : List Node :=
  list.namedChildren.filter fun n => n.kind != "comment" && n.kind != "argument_list"

/-- The base types of a declaration. -/
def baseTypes (children : List Node) : Except MissingBase (List String) :=
  match ofKind? ["base_list"] children with
  | some list => baseTexts source (baseEntries list)
  | none => .ok []

/-! ## Initial values -/

/-- The expression after an equals sign, in a clause of its own or as a sibling. The first argument
tells whether the equals sign has been seen. -/
def valueNodeAfter? : (seenEquals : Bool) → List Node → Option Node
  | _, [] => none
  | seen, n :: rest =>
    if n.kind = "equals_value_clause" then n.namedChildren.find? (·.kind != "comment")
    else if n.kind = "=" then valueNodeAfter? true rest
    else if seen && n.named && n.kind != "comment" then some n
    else valueNodeAfter? seen rest

/-- The expression after an equals sign. -/
def valueNode? (children : List Node) : Option Node :=
  valueNodeAfter? false children

/-- The initial value that an expression denotes. The word `default` alone is a literal. -/
def initializerOf (n : Node) : Initializer :=
  let text := n.text source
  ⟨text, if n.kind = "default_expression" ∧ text = "default" then "default_literal" else n.kind⟩

/-- The initial value of a declaration. -/
def initializer? (children : List Node) : Option Initializer :=
  (valueNode? children).map (initializerOf source)

/-! ## Parameters -/

/-- A parameter with a node of its own. Without a labelled name, its last identifier is one. -/
def parameterOf (n : Node) : Parameter :=
  let name := (labelled? "name" n.children).or
    ((n.children.filter (·.kind == "identifier")).getLast?)
  ⟨Node.textOf source name, Node.textOf source (labelled? "type" n.children)⟩

/-- How much has been read of a parameter array that has no node of its own. -/
inductive OpenArray where
  /-- None is open. -/
  | closed
  /-- Its keyword. -/
  | keyword
  /-- Its keyword and its type. -/
  | typed (type : Node)

/-- The parameters among the children of a list, the first of which follow an open array. -/
def parametersAfter : OpenArray → List Node → List Parameter
  | _, [] => []
  | array, n :: rest =>
    if n.kind = "parameter" ∨ n.kind = "parameter_array" then
      parameterOf source n :: parametersAfter array rest
    else if n.kind = "params" then parametersAfter .keyword rest
    else if n.named && n.kind != "comment" && n.kind != "attribute_list" then
      match array with
      | .closed => parametersAfter .closed rest
      | .keyword => parametersAfter (.typed n) rest
      | .typed type => ⟨n.text source, type.text source⟩ :: parametersAfter .closed rest
    else parametersAfter array rest

/-- The parameters of a list that may be absent. -/
def parameters : Option Node → List Parameter
  | some list => parametersAfter source .closed list.children
  | none => []

/-- The parameter list among the children of a declaration. -/
def parameterListNode? (children : List Node) : Option Node :=
  labelledOrOfKind? "parameters" ["parameter_list"] children

/-! ## Members -/

/-- A constructor. -/
def constructor? (children : List Node) : Option Member := do
  let name ← labelled? "name" children
  return .constructor (name.text source) (modifiers source children)
    (parameters source (parameterListNode? children))

/-- A method. Its return type is labelled in one of two ways. -/
def method? (children : List Node) : Option Member := do
  let name ← labelled? "name" children
  let returns := (labelled? "returns" children).or (labelled? "type" children)
  return .method (name.text source) (Node.textOf source returns) (modifiers source children)
    (parameters source (parameterListNode? children))

/-- A variable that a field declares. -/
def declarator? (n : Node) : Option Variable :=
  if n.kind = "variable_declarator" then do
    let name ← labelledOrOfKind? "name" ["identifier"] n.children
    return ⟨name.text source, initializer? source n.children⟩
  else none

/-- A field. Without a labelled type, its first named part is the type. -/
def field? (children : List Node) : Option Member := do
  let declaration ← ofKind? ["variable_declaration"] children
  let type := (labelled? "type" declaration.children).or declaration.namedChildren.head?
  return .field (Node.textOf source type) (declaration.children.filterMap (declarator? source))
    (modifiers source children)

/-- The words that introduce accessors. -/
def accessorKeywords : List String :=
  ["get", "set", "init", "add", "remove"]

/-- The keyword of an accessor: its labelled name, or else the first child that is a keyword. -/
def accessorKeyword (children : List Node) : String :=
  let name := Node.textOf source (labelled? "name" children)
  if name.isEmpty then ((ofKind? accessorKeywords children).map Node.kind).getD "" else name

/-- An accessor of a property. -/
def accessor? (n : Node) : Option Accessor :=
  if n.kind = "accessor_declaration" then
    let keyword := accessorKeyword source n.children
    if keyword.isEmpty then none else some ⟨keyword, modifiers source n.children⟩
  else none

/-- A property. Without an accessor list it has no initial value either. -/
def property? (children : List Node) : Option Member := do
  let name ← labelled? "name" children
  let accessorList := labelledOrOfKind? "accessors" ["accessor_list"] children
  return .property (name.text source) (Node.textOf source (labelled? "type" children))
    (modifiers source children)
    (accessorList.map fun list => list.children.filterMap (accessor? source))
    (accessorList.bind fun _ => initializer? source children)

/-! ## Enumerations -/

/-- A member of an enumeration. -/
def enumMember? (n : Node) : Option Member :=
  if n.kind = "enum_member_declaration" then do
    let name ← labelledOrOfKind? "name" ["identifier"] n.children
    return .enumMember (name.text source) ((valueNode? n.children).map (·.text source))
  else none

/-- The members in the body of an enumeration. -/
def enumMembers : Option Node → List Member
  | some body => body.children.filterMap (enumMember? source)
  | none => []

/-- An enumeration. -/
def enumeration? (children : List Node) : Option Declaration := do
  let name ← labelled? "name" children
  let body := labelledOrOfKind? "body" ["enum_member_declaration_list"] children
  return .enum { name := name.text source, modifiers := modifiers source children }
    ((enumMembers source body).map .member)

end ClassChart.Syntax
