/-!
# Declarations

The declarations of a source file, as far as a class diagram shows them. All texts are verbatim
source text. What a declaration lacks is an empty text, an empty list or `none`.

## Main definitions

* `Member`: a declaration without members of its own.
* `Declaration`: a type, an enumeration, a member, or a scope that groups declarations.
* `Initializer.isLiteral`: whether an initial value is a literal.
-/

namespace ClassChart

/-- A parameter of a constructor or method. -/
structure Parameter where
  name : String
  type : String := ""
  deriving DecidableEq, Repr

/-- An initial value: its text and the kind of expression it is. -/
structure Initializer where
  text : String
  kind : String := ""
  deriving DecidableEq, Repr

/-- Whether the initial value is a literal, as the kinds of all literals end in that word. -/
def Initializer.isLiteral (i : Initializer) : Bool :=
  "literal".toList.isSuffixOf i.kind.toList

/-- One of the accessors of a property. -/
structure Accessor where
  keyword : String
  modifiers : List String := []
  deriving DecidableEq, Repr

/-- One of the variables that a field declares. -/
structure Variable where
  name : String
  initializer : Option Initializer := none
  deriving DecidableEq, Repr

/-- A declaration without members of its own. -/
inductive Member where
  | constructor (name : String) (modifiers : List String) (parameters : List Parameter)
  | field (type : String) (declared : List Variable) (modifiers : List String)
  /-- The accessors are `none` if the property has no accessor list at all. -/
  | property (name type : String) (modifiers : List String) (accessors : Option (List Accessor))
      (initializer : Option Initializer)
  | method (name returnType : String) (modifiers : List String) (parameters : List Parameter)
  | enumMember (name : String) (value : Option String)
  deriving DecidableEq, Repr

/-- The three kinds of types with members. -/
inductive TypeKind where
  | interfaceType
  | classType
  | structType
  deriving DecidableEq, Repr

/-- What a type declares besides its members. -/
structure TypeHead where
  name : String
  modifiers : List String := []
  typeParameters : String := ""
  baseTypes : List String := []
  deriving DecidableEq, Repr

/-- What an enumeration declares besides its members. -/
structure EnumHead where
  name : String
  modifiers : List String := []
  keyword : String := "enum"
  deriving DecidableEq, Repr

/-- A scope groups declarations and is not drawn itself. -/
inductive Scope where
  /-- The whole of a file. -/
  | compilationUnit (filePath : String)
  | namespaceOf (name : String)
  /-- Any other grouping. -/
  | other
  deriving DecidableEq, Repr

/-- A declaration. -/
inductive Declaration where
  | type (kind : TypeKind) (head : TypeHead) (members : List Declaration)
  | enum (head : EnumHead) (members : List Declaration)
  | member (m : Member)
  | scope (s : Scope) (members : List Declaration)
  deriving Repr

mutual

/-- Decides whether two declarations are the same. -/
def Declaration.decEq : (d e : Declaration) → Decidable (d = e)
  | .type kind head members, .type kind' head' members' =>
    have := Declaration.decEqAll members members'
    decidable_of_iff (kind = kind' ∧ head = head' ∧ members = members') (by simp)
  | .enum head members, .enum head' members' =>
    have := Declaration.decEqAll members members'
    decidable_of_iff (head = head' ∧ members = members') (by simp)
  | .member m, .member m' => decidable_of_iff (m = m') (by simp)
  | .scope s members, .scope s' members' =>
    have := Declaration.decEqAll members members'
    decidable_of_iff (s = s' ∧ members = members') (by simp)
  | .type .., .enum .. | .type .., .member _ | .type .., .scope .. | .enum .., .type ..
  | .enum .., .member _ | .enum .., .scope .. | .member _, .type .. | .member _, .enum ..
  | .member _, .scope .. | .scope .., .type .. | .scope .., .enum .. | .scope .., .member _ =>
    isFalse nofun

/-- Decides whether two lists of declarations are the same. -/
def Declaration.decEqAll : (ds es : List Declaration) → Decidable (ds = es)
  | [], [] => isTrue rfl
  | d :: ds, e :: es =>
    have := Declaration.decEq d e
    have := Declaration.decEqAll ds es
    decidable_of_iff (d = e ∧ ds = es) (by simp)
  | [], _ :: _ | _ :: _, [] => isFalse nofun

end

instance : DecidableEq Declaration := Declaration.decEq

end ClassChart
