import ClassChart.Proofs.Shape
import ClassChart.Proofs.Walk

/-!
# The canonical layout of declarations

Every declaration has a canonical syntax tree: a node of its kind with one child for each of its
parts, in a source that is the texts of the declaration in order. Reading the tree gives back the
declaration, for all declarations that a tree can say.

## Main definitions

* `Declaration.shape`: the canonical shape of a declaration
* `Declaration.isReadable`: the declarations that a syntax tree can say
* `canonicalSource`, `canonicalTree`: the canonical layout of a file

## Main results

* `member_spells`, `enumeration_spells`: members and enumerations are read back
* `declaration_spells`: so are all readable declarations, with those inside
* `outline_canonical`: the outline of the canonical layout is the file
-/

namespace ClassChart

open Text (Bytes)
open Text.Utf8 (encode)

/-! ## Canonical shapes -/

namespace Shape

/-- A named part that is only its text. -/
def token (kind : String) (label : Option String) (text : String) : Shape :=
  .mk kind true label text []

/-- A named part that is made of others. -/
def group (kind : String) (label : Option String) (parts : List Shape) : Shape :=
  .mk kind true label "" parts

/-- A part that is neither named nor has a text. -/
def sign (kind : String) : Shape :=
  .mk kind false none "" []

end Shape

open Shape (token group sign)

/-- The shape of a name. -/
def nameShape (name : String) : Shape :=
  token "identifier" (some "name") name

/-- The shape of a type. -/
def typeShape (type : String) : Shape :=
  token "predefined_type" (some "type") type

/-- The parts of a declaration after its modifiers. -/
def modified (modifiers : List String) (parts : List Shape) : List Shape :=
  modifiers.map (token "modifier" none) ++ parts

/-- An equals sign and an expression, in a clause of their own or not. -/
def valueShapes (clause : Bool) (kind text : String) : List Shape :=
  if clause then [group "equals_value_clause" none [sign "=", token kind none text]]
  else [sign "=", token kind none text]

/-- The parts for an initial value. -/
def initializerShapes (clause : Bool) : Option Initializer → List Shape
  | some i => valueShapes clause i.kind i.text
  | none => []

/-- The shape of a parameter. -/
def parameterShape (p : Parameter) : Shape :=
  group "parameter" none [typeShape p.type, nameShape p.name]

/-- The shape of a parameter list. -/
def parameterListShape (parameters : List Parameter) : Shape :=
  group "parameter_list" (some "parameters") (parameters.map parameterShape)

/-- The shape of a variable in a field. -/
def variableShape (clause : Bool) (v : Variable) : Shape :=
  group "variable_declarator" none (nameShape v.name :: initializerShapes clause v.initializer)

/-- The shape of an accessor. -/
def accessorShape (a : Accessor) : Shape :=
  group "accessor_declaration" none (modified a.modifiers [nameShape a.keyword])

/-- The part for an accessor list, if there is one. -/
def accessorListShapes (accessors : Option (List Accessor)) : List Shape :=
  accessors.toList.map fun list => group "accessor_list" (some "accessors") (list.map accessorShape)

/-- The parts for the value of an enumeration member. -/
def enumValueShapes (clause : Bool) : Option String → List Shape
  | some value => valueShapes clause "integer_literal" value
  | none => []

/-- The shape of a member. -/
def Member.shape (clause : Bool) : Member → Shape
  | .constructor name modifiers parameters =>
    group "constructor_declaration" none
      (modified modifiers [nameShape name, parameterListShape parameters])
  | .field type declared modifiers =>
    group "field_declaration" none (modified modifiers
      [group "variable_declaration" none (typeShape type :: declared.map (variableShape clause))])
  | .property name type modifiers accessors initializer =>
    group "property_declaration" none (modified modifiers
      ([typeShape type, nameShape name] ++ accessorListShapes accessors ++
        initializerShapes clause initializer))
  | .method name returnType modifiers parameters =>
    group "method_declaration" none (modified modifiers
      [token "predefined_type" (some "returns") returnType, nameShape name,
        parameterListShape parameters])
  | .enumMember name value =>
    group "enum_member_declaration" none (nameShape name :: enumValueShapes clause value)

/-- The kind of the node of a type. -/
def typeNodeKind : TypeKind → String
  | .interfaceType => "interface_declaration"
  | .classType => "class_declaration"
  | .structType => "struct_declaration"

/-- The part for type parameters, if there are any. -/
def typeParameterShapes (typeParameters : String) : List Shape :=
  if typeParameters.isEmpty then [] else [token "type_parameter_list" none typeParameters]

/-- The parts of a type. -/
def TypeHead.parts (head : TypeHead) (members : List Shape) : List Shape :=
  modified head.modifiers (nameShape head.name :: (typeParameterShapes head.typeParameters ++
    [group "base_list" none (head.baseTypes.map (token "identifier" none)),
      group "declaration_list" (some "body") members]))

/-- The parts of an enumeration. -/
def EnumHead.parts (head : EnumHead) (members : List Shape) : List Shape :=
  modified head.modifiers
    [nameShape head.name, group "enum_member_declaration_list" (some "body") members]

/-- The name of a scope, which is empty for all but namespaces. -/
def Scope.name : Scope → String
  | .namespaceOf name => name
  | _ => ""

mutual

/-- The canonical shape of a declaration. -/
def Declaration.shape (clause : Bool) : Declaration → Shape
  | .type kind head members =>
    group (typeNodeKind kind) none (head.parts (Declaration.shapes clause members))
  | .enum head members =>
    group "enum_declaration" none (head.parts (Declaration.shapes clause members))
  | .member m => m.shape clause
  | .scope s members =>
    group "namespace_declaration" none
      [nameShape s.name, group "declaration_list" (some "body") (Declaration.shapes clause members)]

/-- The canonical shapes of declarations. -/
def Declaration.shapes (clause : Bool) : List Declaration → List Shape
  | [] => []
  | d :: rest => d.shape clause :: Declaration.shapes clause rest

end

/-- The canonical shape of a file. -/
def fileShape (clause : Bool) (members : List Declaration) : Shape :=
  group "compilation_unit" none (Declaration.shapes clause members)

/-- The texts of a file in order. -/
def canonicalSource (clause : Bool) (members : List Declaration) : Bytes :=
  encode (fileShape clause members).text

/-- The syntax tree of a file over its texts. -/
def canonicalTree (clause : Bool) (members : List Declaration) : SyntaxTree where
  root := (fileShape clause members).place 0

/-! ## The declarations that a tree can say -/

/-- Whether an initial value can be told from the tokens around it and from the literal that the
word `default` alone is. -/
def Initializer.isReadable (i : Initializer) : Bool :=
  !(["=", "comment", "equals_value_clause", "modifier"].contains i.kind) &&
    !(i.kind == "default_expression" && i.text == "default")

/-- Whether a member can stand in a type or namespace: its accessors have keywords, its initial
values can be told, and it has one only if it can. -/
def Member.isReadable : Member → Bool
  | .constructor .. | .method .. => true
  | .field _ declared _ => declared.all fun v => v.initializer.all Initializer.isReadable
  | .property _ _ _ accessors initializer =>
    (accessors.getD []).all (fun a => !a.keyword.isEmpty) &&
      initializer.all Initializer.isReadable && (accessors.isSome || initializer.isNone)
  | .enumMember .. => false

/-- Whether a declaration is a member of an enumeration. -/
def Declaration.isEnumMember : Declaration → Bool
  | .member (.enumMember ..) => true
  | _ => false

mutual

/-- Whether a syntax tree can say a declaration. -/
def Declaration.isReadable : Declaration → Bool
  | .type _ _ members => Declaration.areReadable members
  | .enum head members => head.keyword == "enum" && members.all Declaration.isEnumMember
  | .member m => m.isReadable
  | .scope (.namespaceOf _) members => Declaration.areReadable members
  | .scope _ _ => false

/-- Whether a syntax tree can say declarations. -/
def Declaration.areReadable : List Declaration → Bool
  | [] => true
  | d :: rest => d.isReadable && Declaration.areReadable rest

end

/-! ## Parts of canonical shapes -/

namespace Shape

@[simp] theorem kind_token (kind label text) : (token kind label text).kind = kind := rfl

@[simp] theorem label_token (kind label text) : (token kind label text).label = label := rfl

@[simp] theorem text_token (kind label text) : (token kind label text).text = text := by
  simp [token, Shape.text, textAll]

@[simp] theorem kind_group (kind label parts) : (group kind label parts).kind = kind := rfl

@[simp] theorem label_group (kind label parts) : (group kind label parts).label = label := rfl

@[simp] theorem kind_sign (kind) : (sign kind).kind = kind := rfl

@[simp] theorem labelled?_nil (label : String) : labelled? label [] = none := rfl

@[simp] theorem labelled?_cons (label : String) (s : Shape) (rest : List Shape) :
    labelled? label (s :: rest) =
      if s.label = some label then some s else labelled? label rest := by
  rw [labelled?, List.find?_cons]
  cases h : s.label == some label <;> simp_all [labelled?]

@[simp] theorem ofKind?_nil (kinds : List String) : ofKind? kinds [] = none := rfl

@[simp] theorem ofKind?_cons (kinds : List String) (s : Shape) (rest : List Shape) :
    ofKind? kinds (s :: rest) = if s.kind ∈ kinds then some s else ofKind? kinds rest := by
  rw [ofKind?, List.find?_cons]
  cases h : kinds.contains s.kind <;> simp_all [ofKind?]

/-- Modifiers have no labels. -/
@[simp] theorem labelled?_modified (label : String) (modifiers : List String) (parts : List Shape) :
    labelled? label (modified modifiers parts) = labelled? label parts := by
  induction modifiers with
  | nil => rfl
  | cons m ms ih => simpa [modified] using ih

theorem ofKind?_modified {kinds : List String} (h : "modifier" ∉ kinds) (modifiers : List String)
    (parts : List Shape) : ofKind? kinds (modified modifiers parts) = ofKind? kinds parts := by
  induction modifiers with
  | nil => rfl
  | cons m ms ih => simpa [modified, h] using ih

end Shape

theorem mem_modified {modifiers : List String} {parts : List Shape} {s : Shape}
    (h : s ∈ modified modifiers parts) : s.kind = "modifier" ∨ s ∈ parts := by
  rcases List.mem_append.mp h with hmods | hparts
  · obtain ⟨m, -, rfl⟩ := List.mem_map.mp hmods
    exact Or.inl rfl
  · exact Or.inr hparts

theorem kind_of_mem_accessorListShapes {accessors : Option (List Accessor)} {s : Shape}
    (h : s ∈ accessorListShapes accessors) : s.kind = "accessor_list" := by
  obtain ⟨list, -, rfl⟩ := List.mem_map.mp h
  rfl

theorem kind_of_mem_typeParameterShapes {typeParameters : String} {s : Shape}
    (h : s ∈ typeParameterShapes typeParameters) : s.kind = "type_parameter_list" := by
  unfold typeParameterShapes at h
  split at h
  · simp at h
  · rw [List.mem_singleton.mp h, Shape.kind_token]

namespace Syntax

variable {source : Bytes} {ns : List Node}

/-- A labelled part that is only its text is found with its text. -/
theorem exists_token? {ss : List Shape} {kind text : String} {part : Option String} (label : String)
    (h : List.Forall₂ (Spells source) ns ss)
    (hs : Shape.labelled? label ss = some (token kind part text)) :
    ∃ n, labelled? label ns = some n ∧ n.text source = text := by
  obtain ⟨n, hn, hspells⟩ := exists_labelled? label h hs
  exact ⟨n, hn, hspells.text_eq.trans (Shape.text_token ..)⟩

theorem modifiers_spells {ss : List Shape} (h : List.Forall₂ (Spells source) ns ss) :
    modifiers source ns = (ss.filter (·.kind == "modifier")).map Shape.text := by
  unfold modifiers
  induction h with
  | nil => rfl
  | @cons n s ns ss hn _ ih =>
    rw [List.filter_cons, List.filter_cons, hn.kind_eq]
    split
    · rw [List.map_cons, List.map_cons, ih, hn.text_eq]
    · exact ih

/-- The modifiers in front of parts that are none are read back. -/
theorem modifiers_modified {mods : List String} {parts : List Shape}
    (h : List.Forall₂ (Spells source) ns (modified mods parts))
    (hparts : ∀ s ∈ parts, s.kind ≠ "modifier") : modifiers source ns = mods := by
  have hmods : (mods.map (token "modifier" none)).filter (·.kind == "modifier") =
      mods.map (token "modifier" none) := List.filter_eq_self.mpr (by simp)
  have hrest : parts.filter (·.kind == "modifier") = [] :=
    List.filter_eq_nil_iff.mpr (by simpa using hparts)
  have htext : Shape.text ∘ token "modifier" none = id := funext fun m => Shape.text_token ..
  rw [modifiers_spells h, modified, List.filter_append, hmods, hrest, List.append_nil, List.map_map,
    htext, List.map_id]

/-! ## Values -/

/-- Before an equals sign there is nothing to find. -/
theorem valueNodeAfter?_skip {pre ss : List Shape} (h : List.Forall₂ (Spells source) ns (pre ++ ss))
    (hpre : ∀ s ∈ pre, s.kind ≠ "=" ∧ s.kind ≠ "equals_value_clause") :
    ∃ rest, List.Forall₂ (Spells source) rest ss ∧ valueNode? ns = valueNode? rest := by
  induction pre generalizing ns with
  | nil => exact ⟨ns, h, rfl⟩
  | cons s pre ih =>
    obtain ⟨n, rest, hn, hrest, rfl⟩ := List.forall₂_cons_right_iff.mp h
    obtain ⟨hequals, hclause⟩ := hpre s (by simp)
    obtain ⟨after, hafter, heq⟩ := ih hrest fun t ht => hpre t (by simp [ht])
    refine ⟨after, hafter, ?_⟩
    rw [← heq, valueNode?, valueNodeAfter?, hn.kind_eq]
    simp [hequals, hclause, valueNode?]

/-- The expression after an equals sign is found, in a clause or as a sibling. -/
theorem valueNode?_valueShapes {clause : Bool} {kind text : String}
    (h : List.Forall₂ (Spells source) ns (valueShapes clause kind text))
    (hequals : kind ≠ "=") (hcomment : kind ≠ "comment") (hclause : kind ≠ "equals_value_clause") :
    ∃ value, valueNode? ns = some value ∧ Spells source value (token kind none text) := by
  -- in the clause the equals sign is passed over because it is not named
  cases clause with
  | true =>
    obtain ⟨n, rest, hn, -, rfl⟩ := List.forall₂_cons_right_iff.mp h
    obtain ⟨eq, after, heq, hafter, hchildren⟩ := List.forall₂_cons_right_iff.mp hn.parts_spelled
    obtain ⟨value, last, hvalue, -, rfl⟩ := List.forall₂_cons_right_iff.mp hafter
    have hkind : n.kind = "equals_value_clause" := hn.kind_eq
    have hunnamed : eq.named = false := heq.named_eq
    have hnamed : value.named = true := hvalue.named_eq
    have hvalueKind : value.kind = kind := hvalue.kind_eq
    refine ⟨value, ?_, hvalue⟩
    rw [valueNode?, valueNodeAfter?, if_pos hkind, Node.namedChildren, hchildren]
    simp [hunnamed, hnamed, hvalueKind, hcomment]
  | false =>
    obtain ⟨eq, after, heq, hafter, rfl⟩ := List.forall₂_cons_right_iff.mp h
    obtain ⟨value, rest, hvalue, -, rfl⟩ := List.forall₂_cons_right_iff.mp hafter
    have hkind : eq.kind = "=" := heq.kind_eq
    have hnamed : value.named = true := hvalue.named_eq
    have hvalueKind : value.kind = kind := hvalue.kind_eq
    refine ⟨value, ?_, hvalue⟩
    simp [valueNode?, valueNodeAfter?, hkind, hnamed, hvalueKind, hequals, hcomment, hclause]

theorem valueNode?_eq_none {ss : List Shape} (h : List.Forall₂ (Spells source) ns ss)
    (hss : ∀ s ∈ ss, s.kind ≠ "=" ∧ s.kind ≠ "equals_value_clause") : valueNode? ns = none := by
  rw [← List.append_nil ss] at h
  obtain ⟨rest, hrest, heq⟩ := valueNodeAfter?_skip h hss
  rw [heq, List.forall₂_nil_right_iff.mp hrest]
  rfl

/-- An initial value that can be told is read back after parts without an equals sign. -/
theorem initializer?_spells {clause : Bool} (pre : List Shape) {initializer : Option Initializer}
    (h : List.Forall₂ (Spells source) ns (pre ++ initializerShapes clause initializer))
    (hpre : ∀ s ∈ pre, s.kind ≠ "=" ∧ s.kind ≠ "equals_value_clause")
    (hreadable : initializer.all Initializer.isReadable) :
    initializer? source ns = initializer := by
  cases initializer with
  | none =>
    rw [initializerShapes, List.append_nil] at h
    rw [initializer?, valueNode?_eq_none h hpre, Option.map_none]
  | some i =>
    simp only [Option.all_some, Initializer.isReadable, List.contains_eq_mem, List.mem_cons,
      List.not_mem_nil, or_false, Bool.and_eq_true, Bool.not_eq_true', decide_eq_false_iff_not,
      not_or, Bool.and_eq_false_iff, beq_eq_false_iff_ne] at hreadable
    obtain ⟨⟨hequals, hcomment, hclause, -⟩, hdefault⟩ := hreadable
    obtain ⟨rest, hrest, heq⟩ := valueNodeAfter?_skip h hpre
    obtain ⟨value, hvalue, hspells⟩ := valueNode?_valueShapes hrest hequals hcomment hclause
    have hkind : value.kind = i.kind := hspells.kind_eq
    have htext : value.text source = i.text := hspells.text_eq.trans (Shape.text_token ..)
    -- the pair that is read as the literal `default` is no readable value
    have hliteral : ¬ (i.kind = "default_expression" ∧ i.text = "default") := fun ⟨hk, ht⟩ =>
      hdefault.elim (absurd hk) (absurd ht)
    rw [initializer?, heq, hvalue, Option.map_some, initializerOf]
    simp only [hkind, htext, if_neg hliteral]

/-! ## Parameters -/

theorem parameterOf_spells {n : Node} {p : Parameter} (h : Spells source n (parameterShape p)) :
    parameterOf source n = p := by
  obtain ⟨name, hname, hnameText⟩ := exists_token? "name" h.parts_spelled rfl
  obtain ⟨type, htype, htypeText⟩ := exists_token? "type" h.parts_spelled rfl
  rw [parameterOf, hname, htype, Option.some_or, Node.textOf, Node.textOf, hnameText, htypeText]

theorem parametersAfter_spells {ps : List Parameter}
    (h : List.Forall₂ (Spells source) ns (ps.map parameterShape)) :
    parametersAfter source .closed ns = ps := by
  induction ps generalizing ns with
  | nil =>
    rw [List.forall₂_nil_right_iff.mp h, parametersAfter]
  | cons p ps ih =>
    obtain ⟨n, rest, hn, hrest, rfl⟩ := List.forall₂_cons_right_iff.mp h
    have hkind : n.kind = "parameter" := hn.kind_eq
    rw [parametersAfter, if_pos (Or.inl hkind), parameterOf_spells hn, ih hrest]

/-- The parameters of a declaration are read back. -/
theorem parameters_spells {ss : List Shape} {ps : List Parameter}
    (h : List.Forall₂ (Spells source) ns ss)
    (hs : Shape.labelled? "parameters" ss = some (parameterListShape ps)) :
    parameters source (parameterListNode? ns) = ps := by
  obtain ⟨list, hlist, hspells⟩ := exists_labelled? "parameters" h hs
  rw [parameterListNode?, labelledOrOfKind?, hlist, parameters]
  exact parametersAfter_spells hspells.parts_spelled

/-! ## Members -/

theorem constructor?_spells {name : String} {mods : List String} {ps : List Parameter}
    (h : List.Forall₂ (Spells source) ns (modified mods [nameShape name, parameterListShape ps])) :
    constructor? source ns = some (.constructor name mods ps) := by
  obtain ⟨n, hn, htext⟩ := exists_token? "name" h ((Shape.labelled?_modified ..).trans rfl)
  have hparameters := parameters_spells h ((Shape.labelled?_modified ..).trans rfl)
  have hmods := modifiers_modified h (by simp [nameShape, parameterListShape])
  simp [constructor?, hn, htext, hparameters, hmods]

theorem method?_spells {name returnType : String} {mods : List String} {ps : List Parameter}
    (h : List.Forall₂ (Spells source) ns (modified mods
      [token "predefined_type" (some "returns") returnType, nameShape name,
        parameterListShape ps])) :
    method? source ns = some (.method name returnType mods ps) := by
  obtain ⟨n, hn, htext⟩ := exists_token? "name" h ((Shape.labelled?_modified ..).trans rfl)
  obtain ⟨r, hr, hreturns⟩ := exists_token? "returns" h ((Shape.labelled?_modified ..).trans rfl)
  have hparameters := parameters_spells h ((Shape.labelled?_modified ..).trans rfl)
  have hmods := modifiers_modified h (by simp [nameShape, parameterListShape])
  simp [method?, hn, htext, hr, Node.textOf, hreturns, hparameters, hmods]

/-- Parts that are read one by one are read back together. -/
theorem filterMap_spells {α β : Type} {read : Node → Option β} {shape : α → Shape} {item : α → β}
    {xs : List α} (h : List.Forall₂ (Spells source) ns (xs.map shape))
    (hread : ∀ n, ∀ x ∈ xs, Spells source n (shape x) → read n = some (item x)) :
    ns.filterMap read = xs.map item := by
  induction xs generalizing ns with
  | nil => rw [List.forall₂_nil_right_iff.mp h]; rfl
  | cons x xs ih =>
    obtain ⟨n, rest, hn, hrest, rfl⟩ := List.forall₂_cons_right_iff.mp h
    rw [List.filterMap_cons_some (hread n x (by simp) hn), List.map_cons,
      ih hrest fun m y hy => hread m y (by simp [hy])]

theorem declarator?_spells {clause : Bool} {n : Node} {v : Variable}
    (h : Spells source n (variableShape clause v))
    (hreadable : v.initializer.all Initializer.isReadable) : declarator? source n = some v := by
  have hkind : n.kind = "variable_declarator" := h.kind_eq
  obtain ⟨name, hname, htext⟩ := exists_token? "name" h.parts_spelled rfl
  have hinit : initializer? source n.children = v.initializer :=
    initializer?_spells [nameShape v.name] h.parts_spelled (by simp [nameShape]) hreadable
  simp [declarator?, hkind, labelledOrOfKind?, hname, htext, hinit]

theorem field?_spells {clause : Bool} {type : String} {declared : List Variable}
    {mods : List String}
    (h : List.Forall₂ (Spells source) ns (modified mods
      [group "variable_declaration" none (typeShape type :: declared.map (variableShape clause))]))
    (hreadable : declared.all fun v => v.initializer.all Initializer.isReadable) :
    field? source ns = some (.field type declared mods) := by
  obtain ⟨n, hn, hspells⟩ := exists_ofKind? ["variable_declaration"] h
    ((Shape.ofKind?_modified (by simp) ..).trans rfl)
  obtain ⟨t, ht, htext⟩ := exists_token? "type" hspells.parts_spelled rfl
  obtain ⟨first, rest, hfirst, hrest, hchildren⟩ :=
    List.forall₂_cons_right_iff.mp hspells.parts_spelled
  -- the type stands before the variables and is not taken for one
  have hnone : declarator? source first = none := by
    have hkind : first.kind = "predefined_type" := hfirst.kind_eq
    simp [declarator?, hkind]
  have hrestDeclared : rest.filterMap (declarator? source) = declared.map id :=
    filterMap_spells hrest fun m v hv hm =>
      declarator?_spells hm (List.all_eq_true.mp hreadable v hv)
  have hdeclared : n.children.filterMap (declarator? source) = declared := by
    rw [hchildren, List.filterMap_cons_none hnone, hrestDeclared, List.map_id]
  have hmods := modifiers_modified h (by simp)
  simp [field?, hn, ht, Node.textOf, htext, hmods, hdeclared]

theorem accessor?_spells {n : Node} {a : Accessor} (h : Spells source n (accessorShape a))
    (hkeyword : a.keyword.isEmpty = false) : accessor? source n = some a := by
  have hkind : n.kind = "accessor_declaration" := h.kind_eq
  obtain ⟨name, hname, htext⟩ :=
    exists_token? "name" h.parts_spelled ((Shape.labelled?_modified ..).trans rfl)
  have hmods := modifiers_modified h.parts_spelled (by simp [nameShape])
  simp [accessor?, hkind, accessorKeyword, hname, Node.textOf, htext, hkeyword, hmods]

/-- The accessors of a property are read back, and whether it has an accessor list. -/
theorem accessors_spells {clause : Bool} {name type : String} {mods : List String}
    {accessors : Option (List Accessor)} {initializer : Option Initializer}
    (h : List.Forall₂ (Spells source) ns (modified mods ([typeShape type, nameShape name] ++
      accessorListShapes accessors ++ initializerShapes clause initializer)))
    (hkeywords : (accessors.getD []).all fun a => !a.keyword.isEmpty)
    (hinit : accessors.isSome || initializer.isNone) :
    (labelledOrOfKind? "accessors" ["accessor_list"] ns).map
      (fun list => list.children.filterMap (accessor? source)) = accessors := by
  cases accessors with
  | some list =>
    obtain ⟨n, hn, hspells⟩ :=
      exists_labelled? "accessors" h ((Shape.labelled?_modified ..).trans rfl)
    have hread : n.children.filterMap (accessor? source) = list.map id :=
      filterMap_spells hspells.parts_spelled fun m a ha hm =>
        accessor?_spells hm (by simpa using List.all_eq_true.mp hkeywords a ha)
    simp [labelledOrOfKind?, hn, hread]
  | none =>
    -- an initial value could be of the kind of a list, but without a list there is none
    have hnone : initializer = none := by simpa using hinit
    subst hnone
    have hrel := labelledOrOfKind?_spells h "accessors" ["accessor_list"]
    have hshape : Shape.labelledOrOfKind? "accessors" ["accessor_list"]
        (modified mods ([typeShape type, nameShape name] ++ accessorListShapes none ++
          initializerShapes clause none)) = none := by
      rw [Shape.labelledOrOfKind?, Shape.labelled?_modified, Shape.ofKind?_modified (by simp)]
      rfl
    rw [hshape] at hrel
    rw [eq_none_of_rel_none hrel, Option.map_none]

/-- No part of an initial value that can be told is a modifier. -/
theorem initializerShapes_kind_ne {clause : Bool} {initializer : Option Initializer}
    (hreadable : initializer.all Initializer.isReadable) :
    ∀ s ∈ initializerShapes clause initializer, s.kind ≠ "modifier" := by
  cases initializer with
  | none => simp [initializerShapes]
  | some i =>
    have hkind : i.kind ≠ "modifier" := by
      rintro hk
      simp [Initializer.isReadable, hk] at hreadable
    cases clause <;> simp [initializerShapes, valueShapes, hkind]

theorem property?_spells {clause : Bool} {name type : String} {mods : List String}
    {accessors : Option (List Accessor)} {initializer : Option Initializer}
    (h : List.Forall₂ (Spells source) ns (modified mods ([typeShape type, nameShape name] ++
      accessorListShapes accessors ++ initializerShapes clause initializer)))
    (hreadable : (Member.property name type mods accessors initializer).isReadable) :
    property? source ns = some (.property name type mods accessors initializer) := by
  simp only [Member.isReadable, Bool.and_eq_true] at hreadable
  obtain ⟨⟨hkeywords, hvalue⟩, hsome⟩ := hreadable
  obtain ⟨n, hn, hname⟩ := exists_token? "name" h ((Shape.labelled?_modified ..).trans rfl)
  obtain ⟨t, ht, htype⟩ := exists_token? "type" h ((Shape.labelled?_modified ..).trans rfl)
  have hlist := accessors_spells h hkeywords hsome
  have hmods : modifiers source ns = mods := modifiers_modified h fun s hs => by
    simp only [List.cons_append, List.nil_append, List.mem_cons, List.mem_append] at hs
    rcases hs with rfl | rfl | hs | hs
    · simp [typeShape]
    · simp [nameShape]
    · simp [kind_of_mem_accessorListShapes hs]
    · exact initializerShapes_kind_ne hvalue s hs
  have hinit : initializer? source ns = initializer := by
    -- all parts but the last are in front of the equals sign
    rw [modified, ← List.append_assoc] at h
    refine initializer?_spells _ h (fun s hs => ?_) hvalue
    rcases mem_modified hs with hs | hs
    · simp [hs]
    · simp only [List.cons_append, List.nil_append, List.mem_cons] at hs
      rcases hs with rfl | rfl | hs
      · simp [typeShape]
      · simp [nameShape]
      · simp [kind_of_mem_accessorListShapes hs]
  -- the initial value is read only if there is an accessor list
  have hguarded : ((labelledOrOfKind? "accessors" ["accessor_list"] ns).bind fun _ => initializer) =
      initializer := by
    cases hfound : labelledOrOfKind? "accessors" ["accessor_list"] ns with
    | some list => rfl
    | none =>
      have hnone : accessors = none := by rw [← hlist, hfound, Option.map_none]
      have : initializer = none := by simpa [hnone] using hsome
      rw [this, Option.bind_none]
  simp [property?, hn, hname, ht, Node.textOf, htype, hmods, hlist, hinit, hguarded]

/-- **A member is read back.** -/
theorem member_spells {clause : Bool} {n : Node} {m : Member} (h : Spells source n (m.shape clause))
    (hreadable : m.isReadable) : declaration source n = pure (some (.member m)) := by
  obtain ⟨info, children⟩ := n
  have hkind : info.kind = (m.shape clause).kind := h.kind_eq
  have hparts : List.Forall₂ (Spells source) children (m.shape clause).parts := h.parts_spelled
  -- the kind of the node tells the form, and its parts are read in that form
  cases m with
  | constructor name modifiers parameters =>
    have hform : formOf info.kind = .constructor := by rw [hkind]; rfl
    rw [declaration, hform, constructor?_spells hparts]
    rfl
  | field type declared modifiers =>
    have hform : formOf info.kind = .field := by rw [hkind]; rfl
    rw [declaration, hform, field?_spells hparts hreadable]
    rfl
  | property name type modifiers accessors initializer =>
    have hform : formOf info.kind = .property := by rw [hkind]; rfl
    rw [declaration, hform, property?_spells hparts hreadable]
    rfl
  | method name returnType modifiers parameters =>
    have hform : formOf info.kind = .method := by rw [hkind]; rfl
    rw [declaration, hform, method?_spells hparts]
    rfl
  | enumMember name value => simp [Member.isReadable] at hreadable

/-! ## Enumerations -/

theorem enumMember?_spells {clause : Bool} {n : Node} {name : String} {value : Option String}
    (h : Spells source n ((Member.enumMember name value).shape clause)) :
    enumMember? source n = some (.enumMember name value) := by
  have hkind : n.kind = "enum_member_declaration" := h.kind_eq
  obtain ⟨m, hm, htext⟩ := exists_token? "name" h.parts_spelled rfl
  have hvalue : (valueNode? n.children).map (Node.text source) = value := by
    have hname : ∀ s ∈ [nameShape name], s.kind ≠ "=" ∧ s.kind ≠ "equals_value_clause" := by
      simp [nameShape]
    cases value with
    | none => rw [valueNode?_eq_none h.parts_spelled hname, Option.map_none]
    | some text =>
      obtain ⟨rest, hrest, heq⟩ := valueNodeAfter?_skip h.parts_spelled hname
      obtain ⟨v, hv, hspells⟩ := valueNode?_valueShapes hrest (by simp) (by simp) (by simp)
      rw [heq, hv, Option.map_some, hspells.text_eq, Shape.text_token]
  simp [enumMember?, hkind, labelledOrOfKind?, hm, htext, hvalue]

theorem enumMembers_spells {clause : Bool} {members : List Declaration}
    (h : List.Forall₂ (Spells source) ns (Declaration.shapes clause members))
    (hmembers : members.all Declaration.isEnumMember) :
    (ns.filterMap (enumMember? source)).map .member = members := by
  induction members generalizing ns with
  | nil => rw [List.forall₂_nil_right_iff.mp h]; rfl
  | cons d rest ih =>
    obtain ⟨n, after, hn, hafter, rfl⟩ := List.forall₂_cons_right_iff.mp h
    simp only [List.all_cons, Bool.and_eq_true] at hmembers
    obtain ⟨hd, hrest⟩ := hmembers
    -- only members of enumerations pass the test
    match d, hd with
    | .member (.enumMember name value), _ =>
      rw [List.filterMap_cons_some (enumMember?_spells hn), List.map_cons, ih hafter hrest]

/-- **An enumeration is read back.** -/
theorem enumeration_spells {clause : Bool} {n : Node} {head : EnumHead} {members : List Declaration}
    (h : Spells source n ((Declaration.enum head members).shape clause))
    (hreadable : (Declaration.enum head members).isReadable) :
    declaration source n = pure (some (.enum head members)) := by
  obtain ⟨info, children⟩ := n
  have hform : formOf info.kind = .enumeration := by
    rw [show info.kind = "enum_declaration" from h.kind_eq]
    rfl
  have hparts : List.Forall₂ (Spells source) children
      (head.parts (Declaration.shapes clause members)) := h.parts_spelled
  simp only [Declaration.isReadable, Bool.and_eq_true, beq_iff_eq] at hreadable
  obtain ⟨hkeyword, hmembers⟩ := hreadable
  obtain ⟨name, hname, htext⟩ :=
    exists_token? "name" hparts ((Shape.labelled?_modified ..).trans rfl)
  obtain ⟨body, hbody, hspells⟩ :=
    exists_labelled? "body" hparts ((Shape.labelled?_modified ..).trans rfl)
  have hmods := modifiers_modified hparts (by simp [nameShape])
  have hread := enumMembers_spells hspells.parts_spelled hmembers
  rw [declaration, hform]
  -- no part stands for the keyword: what is read is always `enum`
  obtain ⟨headName, mods, keyword⟩ := head
  simp only at hkeyword hmods htext
  simp [enumeration?, hname, htext, labelledOrOfKind?, hbody, enumMembers, hread, hmods, hkeyword]

/-! ## Types and namespaces -/

theorem baseTexts_spells {bases : List String}
    (h : List.Forall₂ (Spells source) ns (bases.map (token "identifier" none))) :
    baseTexts source ns = .ok bases := by
  induction bases generalizing ns with
  | nil => rw [List.forall₂_nil_right_iff.mp h, baseTexts]
  | cons b bases ih =>
    obtain ⟨n, rest, hn, hrest, rfl⟩ := List.forall₂_cons_right_iff.mp h
    have hkind : n.kind = "identifier" := hn.kind_eq
    have hbase : baseNode n = .ok n := by rw [baseNode, hkind]; rfl
    have htext : n.text source = b := hn.text_eq.trans (Shape.text_token ..)
    rw [baseTexts, hbase, ih hrest, ← htext]
    rfl

theorem baseEntries_spells {n : Node} {bases : List String}
    (h : Spells source n (group "base_list" none (bases.map (token "identifier" none)))) :
    baseEntries n = n.children := by
  have hentry : ∀ c ∈ n.children, c.named = true ∧ c.kind = "identifier" := by
    intro c hc
    obtain ⟨s, hs, hspells⟩ := exists_spelled_of_mem h.parts_spelled hc
    obtain ⟨b, -, rfl⟩ := List.mem_map.mp hs
    exact ⟨hspells.named_eq, hspells.kind_eq⟩
  have hnamed : n.namedChildren = n.children := List.filter_eq_self.mpr fun c hc => (hentry c hc).1
  rw [baseEntries, hnamed]
  refine List.filter_eq_self.mpr fun c hc => ?_
  simp [(hentry c hc).2]

theorem typeParameters_spells {head : TypeHead} {members : List Shape}
    (h : List.Forall₂ (Spells source) ns (head.parts members)) :
    Node.textOf source (labelledOrOfKind? "type_parameters" ["type_parameter_list"] ns) =
      head.typeParameters := by
  rw [textOf_spells (labelledOrOfKind?_spells h _ _), Shape.labelledOrOfKind?, TypeHead.parts,
    Shape.labelled?_modified, Shape.ofKind?_modified (by simp), typeParameterShapes]
  cases hempty : head.typeParameters.isEmpty with
  | true => simp_all [nameShape]
  | false => simp [nameShape]

theorem typeHead_spells {head : TypeHead} {members : List Shape} {name : Node}
    (h : List.Forall₂ (Spells source) ns (head.parts members))
    (hname : name.text source = head.name) :
    typeHead source name ns = .ok head := by
  -- the base list is the only part of its kind, with or without type parameters before it
  have hlist : Shape.ofKind? ["base_list"] (head.parts members) =
      some (group "base_list" none (head.baseTypes.map (token "identifier" none))) := by
    rw [TypeHead.parts, Shape.ofKind?_modified (by simp), typeParameterShapes]
    split <;> simp [nameShape]
  obtain ⟨list, hfound, hspells⟩ := exists_ofKind? ["base_list"] h hlist
  have hbases : baseTypes source ns = .ok head.baseTypes := by
    rw [baseTypes, hfound]
    simp only [baseEntries_spells hspells]
    exact baseTexts_spells hspells.parts_spelled
  have hmods : modifiers source ns = head.modifiers := modifiers_modified h fun s hs => by
    simp only [List.mem_cons, List.mem_append, List.not_mem_nil, or_false] at hs
    rcases hs with rfl | hs | rfl | rfl
    · simp [nameShape]
    · simp [kind_of_mem_typeParameterShapes hs]
    · simp
    · simp
  simp only [typeHead, hbases, hname, hmods, typeParameters_spells h]
  rfl

theorem formOf_typeNodeKind (kind : TypeKind) : formOf (typeNodeKind kind) = .type kind := by
  cases kind <;> rfl

/-- No canonical node is a file-scoped namespace. -/
theorem formOf_shape_ne (clause : Bool) (d : Declaration) :
    formOf (d.shape clause).kind ≠ .fileNamespace := by
  cases d with
  | type kind head members =>
    rw [Declaration.shape, Shape.kind_group, formOf_typeNodeKind]
    nofun
  | enum head members => simp [Declaration.shape, formOf]
  | member m => cases m <;> simp [Declaration.shape, Member.shape, formOf, skippedKinds]
  | scope s members => simp [Declaration.shape, formOf]

/-- The nodes in the body of a declaration spell its members. -/
theorem bodyNodes_spells {ss members : List Shape} (h : List.Forall₂ (Spells source) ns ss)
    (hbody : Shape.labelled? "body" ss = some (group "declaration_list" (some "body") members)) :
    List.Forall₂ (Spells source) (bodyNodes ns) members := by
  obtain ⟨body, hfound, hspells⟩ := exists_labelled? "body" h hbody
  rw [bodyNodes, labelledOrOfKind?, hfound]
  exact hspells.parts_spelled

theorem labelled?_body_parts (head : TypeHead) (members : List Shape) :
    Shape.labelled? "body" (head.parts members) =
      some (group "declaration_list" (some "body") members) := by
  rw [TypeHead.parts, Shape.labelled?_modified, typeParameterShapes]
  split <;> simp [nameShape]

mutual

/-- **A readable declaration is read back**, with the declarations inside. -/
theorem declaration_spells (clause : Bool) : ∀ (d : Declaration) {n : Node},
    Spells source n (d.shape clause) → d.isReadable → declaration source n = pure (some d)
  | .type kind head members, .mk info children, h, hreadable => by
    have hform : formOf info.kind = .type kind := by
      rw [show info.kind = typeNodeKind kind from h.kind_eq, formOf_typeNodeKind]
    have hparts : List.Forall₂ (Spells source) children
      (head.parts (Declaration.shapes clause members)) := h.parts_spelled
    obtain ⟨name, hname, htext⟩ :=
      exists_token? "name" hparts ((Shape.labelled?_modified ..).trans rfl)
    have hmembers := declarations_spells clause members
      (bodyNodes_spells hparts (labelled?_body_parts ..)) hreadable
    rw [declaration, hform]
    simp only [hname, typeHead_spells hparts htext, bodyDeclarations_eq, hmembers]
    rfl
  | .enum head members, n, h, hreadable => enumeration_spells h hreadable
  | .member m, n, h, hreadable => member_spells h hreadable
  | .scope (.namespaceOf name) members, .mk info children, h, hreadable => by
    have hform : formOf info.kind = .namespaceBlock := by
      rw [show info.kind = "namespace_declaration" from h.kind_eq]
      rfl
    have hparts : List.Forall₂ (Spells source) children [nameShape name,
      group "declaration_list" (some "body") (Declaration.shapes clause members)] := h.parts_spelled
    obtain ⟨n, hn, htext⟩ := exists_token? "name" hparts rfl
    have hmembers := declarations_spells clause members (bodyNodes_spells hparts rfl) hreadable
    rw [declaration, hform]
    simp [bodyDeclarations_eq, hmembers, namespaceName, labelledOrOfKind?, hn, Node.textOf, htext]

/-- Readable declarations are read back in order. -/
theorem declarations_spells (clause : Bool) : ∀ (ds : List Declaration) {ns : List Node},
    List.Forall₂ (Spells source) ns (Declaration.shapes clause ds) → Declaration.areReadable ds →
      declarations source ns (pure []) = pure ds
  | [], ns, h, _ => by
    rw [List.forall₂_nil_right_iff.mp h, declarations]
  | d :: ds, ns, h, hreadable => by
    obtain ⟨n, rest, hn, hrest, rfl⟩ := List.forall₂_cons_right_iff.mp h
    simp only [Declaration.areReadable, Bool.and_eq_true] at hreadable
    -- so what follows the node stays beside it
    have hfile : formOf n.kind ≠ .fileNamespace := hn.kind_eq ▸ formOf_shape_ne clause d
    rw [declarations_cons source hfile, declaration_spells clause d hn hreadable.1,
      declarations_spells clause ds hrest hreadable.2]
    rfl

end

/-- **The outline of the canonical layout of a file is the file**, without any notices. -/
theorem outline_canonical (clause : Bool) (members : List Declaration) (filePath : String)
    (h : Declaration.areReadable members) :
    outline (canonicalSource clause members) (canonicalTree clause members) filePath =
      ⟨[], .ok (.scope (.compilationUnit filePath) members)⟩ := by
  have hroot := Shape.place_spells (fileShape clause members) [] []
  rw [List.nil_append, List.append_nil] at hroot
  have hread : declarations (canonicalSource clause members)
      (canonicalTree clause members).root.children (pure []) = pure members :=
    declarations_spells clause members hroot.parts_spelled h
  simp only [outline, hread]
  rfl

/-- A file with members of all kinds and texts outside ASCII. -/
def variedFile : List Declaration :=
  [.scope (.namespaceOf "Größe") [
    .type .classType ⟨"Maß", ["public", "static"], "<T>", ["A", "B<T>"]⟩ [
      .member (.constructor "Maß" [] [⟨"x", "int"⟩, ⟨"", ""⟩]),
      .member (.field "double" [⟨"π", some ⟨"3.14", "real_literal"⟩⟩, ⟨"e", none⟩] ["const"]),
      .member (.property "P" "T" [] (some [⟨"get", ["private"]⟩])
        (some ⟨"f()", "invocation_expression"⟩)),
      .member (.property "Q" "T" [] none none),
      .member (.method "∇" "void" ["abstract"] []),
      .type .structType ⟨"", [], "", []⟩ [.enum ⟨"E", ["internal"], "enum"⟩ [
        .member (.enumMember "a" none), .member (.enumMember "b" (some ""))]]]]]

theorem outline_canonical_variedFile :
    Declaration.areReadable variedFile ∧
      outline (canonicalSource false variedFile) (canonicalTree false variedFile) "f.cs" =
        ⟨[], .ok (.scope (.compilationUnit "f.cs") variedFile)⟩ :=
  ⟨by decide, outline_canonical false variedFile "f.cs" (by decide)⟩

end Syntax

end ClassChart
