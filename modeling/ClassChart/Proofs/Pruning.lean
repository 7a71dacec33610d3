import ClassChart.Proofs.GrammarLayouts

/-!
# Comments and code do not show

A comment can stand between any two nodes, and every reader of a list passes over it in its own way.
The code in a method, a constructor or an accessor is not read at all. So a syntax tree without its
comments and its code has the same outline. Two readers take the first named child of a node where
they do not find a labelled type, and would take a comment there; in a tidy tree they find the type.

## Main definitions

* `uncommented`: a list of nodes without the comments
* `isCode`: whether a node is the body of a method, a constructor or an accessor
* `prunedNode`, `prunedTree`: a node without the comments and the code below it, and a tree of them
* `IsTidy`: comments have no labels, and types have one where a comment could be taken for a type

## Main results

* `declarations_uncommented`, `declaration_uncommented`: comments declare nothing, neither in a list
  nor among the parts of a declaration
* `sameNode_uncommented`, `sameNode_pruned`: a node is read the same without its comments, and
  without all comments and code below it
* `outline_pruned`: the outline of a file does not depend on its comments and its code
-/

namespace ClassChart.Syntax

open Text (Bytes)

/-! ## Nodes that are taken away -/

/-- Nodes without the comments among them. -/
def uncommented (nodes : List Node) : List Node :=
  nodes.filter (·.kind != "comment")

/-- Whether a child of a node of kind `parent` is a body of code. -/
def isCode (parent : String) (info : NodeInfo) : Bool :=
  ["method_declaration", "constructor_declaration", "accessor_declaration"].contains parent &&
    info.label == some "body" && ["block", "arrow_expression_clause"].contains info.kind

mutual

/-- A node without the comments and the code below it. -/
def prunedNode : Node → Node
  | .mk info children => .mk info (prunedChildren info.kind children)

/-- The children of a node of kind `parent` without all comments, with nothing in bodies of code. -/
def prunedChildren (parent : String) : List Node → List Node
  | [] => []
  | n :: rest =>
    if n.kind = "comment" then prunedChildren parent rest
    else
      (if isCode parent n.info then .mk n.info [] else prunedNode n) :: prunedChildren parent rest

end

/-- A syntax tree without its comments and its code. -/
def prunedTree (tree : SyntaxTree) : SyntaxTree :=
  { tree with root := prunedNode tree.root }

mutual

/-- A node and all nodes below it. -/
def nodesOf : Node → List Node
  | .mk info children => .mk info children :: nodesOfAll children

/-- Nodes and all nodes below them. -/
def nodesOfAll : List Node → List Node
  | [] => []
  | n :: rest => nodesOf n ++ nodesOfAll rest

end

/-- A comment has no label. A declaration of variables and a base with constructor arguments have a
child that is labelled as the type. -/
structure IsTidy (n : Node) : Prop where
  comment : n.kind = "comment" → n.label = none
  type : n.kind = "variable_declaration" ∨ n.kind = "primary_constructor_base_type" →
    ∃ m ∈ n.children, m.label = some "type"

instance (n : Node) : Decidable (IsTidy n) :=
  decidable_of_iff ((n.kind = "comment" → n.label = none) ∧
      (n.kind = "variable_declaration" ∨ n.kind = "primary_constructor_base_type" →
        ∃ m ∈ n.children, m.label = some "type"))
    ⟨fun ⟨hcomment, htype⟩ => ⟨hcomment, htype⟩, fun h => ⟨h.comment, h.type⟩⟩

variable {source : Bytes} {parent : String} {info : NodeInfo} {cs : List Node}

/-! ## Readers of lists -/

theorem uncommented_comment {n : Node} (h : n.kind = "comment") (cs : List Node) :
    uncommented (n :: cs) = uncommented cs :=
  List.filter_cons_of_neg (by simpa using h)

theorem uncommented_cons {n : Node} (h : n.kind ≠ "comment") (cs : List Node) :
    uncommented (n :: cs) = n :: uncommented cs :=
  List.filter_cons_of_pos (by simpa using h)

/-- What is not asked for in comments is found without them. -/
theorem find?_uncommented {p : Node → Bool} (hp : ∀ n ∈ cs, n.kind = "comment" → p n = false) :
    (uncommented cs).find? p = cs.find? p := by
  induction cs with
  | nil => rfl
  | cons n cs ih =>
    obtain ⟨hn, hcs⟩ := List.forall_mem_cons.mp hp
    by_cases hkind : n.kind = "comment"
    · rw [uncommented_comment hkind, List.find?_cons_of_neg (by simpa using hn hkind), ih hcs]
    · rw [uncommented_cons hkind, List.find?_cons, List.find?_cons, ih hcs]

theorem filter_uncommented {p : Node → Bool} (hp : ∀ n ∈ cs, n.kind = "comment" → p n = false) :
    (uncommented cs).filter p = cs.filter p := by
  rw [uncommented, List.filter_filter]
  refine List.filter_congr fun n hn => ?_
  by_cases hkind : n.kind = "comment"
  · simp [hp n hn hkind]
  · simp [hkind]

theorem filterMap_uncommented {β : Type} {f : Node → Option β}
    (hf : ∀ n : Node, n.kind = "comment" → f n = none) :
    (uncommented cs).filterMap f = cs.filterMap f := by
  rw [uncommented, List.filterMap_filter]
  refine List.filterMap_congr fun n _ => ?_
  by_cases hkind : n.kind = "comment"
  · simp [hf n hkind, hkind]
  · simp [hkind]

/-- The named nodes of which something holds that does not hold of comments. -/
theorem filter_named_uncommented {p : Node → Bool}
    (hp : ∀ n : Node, n.kind = "comment" → p n = false) :
    ((uncommented cs).filter (·.named)).filter p = (cs.filter (·.named)).filter p := by
  rw [List.filter_filter, List.filter_filter]
  refine filter_uncommented fun n _ hkind => ?_
  simp [hp n hkind]

theorem enumMembers_uncommented :
    (uncommented cs).filterMap (enumMember? source) = cs.filterMap (enumMember? source) := by
  refine filterMap_uncommented fun n hkind => ?_
  rw [enumMember?, if_neg (by rw [hkind]; decide)]

theorem accessors_uncommented :
    (uncommented cs).filterMap (accessor? source) = cs.filterMap (accessor? source) := by
  refine filterMap_uncommented fun n hkind => ?_
  rw [accessor?, if_neg (by rw [hkind]; decide)]

theorem declarators_uncommented :
    (uncommented cs).filterMap (declarator? source) = cs.filterMap (declarator? source) := by
  refine filterMap_uncommented fun n hkind => ?_
  rw [declarator?, if_neg (by rw [hkind]; decide)]

theorem ofKind?_uncommented {kinds : List String} (h : "comment" ∉ kinds) :
    ofKind? kinds (uncommented cs) = ofKind? kinds cs := by
  refine find?_uncommented fun n _ hkind => ?_
  simpa [hkind] using h

theorem modifiers_uncommented : modifiers source (uncommented cs) = modifiers source cs := by
  unfold modifiers
  rw [filter_uncommented]
  intro n _ hkind
  simp [hkind]

theorem parametersAfter_uncommented (array : OpenArray) :
    parametersAfter source array (uncommented cs) = parametersAfter source array cs := by
  induction cs generalizing array with
  | nil => rfl
  | cons n cs ih =>
    by_cases hkind : n.kind = "comment"
    · have hskip : parametersAfter source array (n :: cs) = parametersAfter source array cs := by
        simp [parametersAfter, hkind]
      rw [hskip, uncommented_comment hkind, ih]
    · rw [uncommented_cons hkind]
      simp only [parametersAfter, ih]

theorem valueNodeAfter?_uncommented (seen : Bool) :
    valueNodeAfter? seen (uncommented cs) = valueNodeAfter? seen cs := by
  induction cs generalizing seen with
  | nil => rfl
  | cons n cs ih =>
    by_cases hkind : n.kind = "comment"
    · have hskip : valueNodeAfter? seen (n :: cs) = valueNodeAfter? seen cs := by
        simp [valueNodeAfter?, hkind]
      rw [hskip, uncommented_comment hkind, ih]
    · rw [uncommented_cons hkind]
      simp only [valueNodeAfter?, ih]

/-- **Comments declare nothing** in a list. -/
theorem declarations_uncommented (after : Outline (List Declaration)) :
    declarations source (uncommented cs) after = declarations source cs after := by
  induction cs with
  | nil => rfl
  | cons n cs ih =>
    by_cases hkind : n.kind = "comment"
    · -- a comment has no form of a declaration
      have hfile : formOf n.kind ≠ .fileNamespace := by
        rw [hkind]
        decide
      have hnone : declaration source n = pure none := by
        obtain ⟨info, children⟩ := n
        have hother : formOf info.kind = .other := by
          rw [show info.kind = "comment" from hkind]
          decide
        rw [declaration, hother]
      rw [declarations_cons source hfile, hnone, uncommented_comment hkind, ih]
      simp only [pure_bind, Option.toList_none, List.nil_append, bind_pure]
    · rw [uncommented_cons hkind]
      by_cases hfile : formOf n.kind = .fileNamespace
      · rw [declarations_cons_file source hfile, declarations_cons_file source hfile, ih]
      · rw [declarations_cons source hfile, declarations_cons source hfile, ih]

/-! ## Readers of parts

Parts are looked for by labels, which comments do not have, and by kinds that are not theirs. -/

section Parts

variable (hcs : ∀ n ∈ cs, n.kind = "comment" → n.label = none)

include hcs

theorem labelled?_uncommented (label : String) :
    labelled? label (uncommented cs) = labelled? label cs := by
  refine find?_uncommented fun n hn hkind => ?_
  simp [hcs n hn hkind]

theorem labelledOrOfKind?_uncommented (label : String) {kinds : List String}
    (h : "comment" ∉ kinds) :
    labelledOrOfKind? label kinds (uncommented cs) = labelledOrOfKind? label kinds cs := by
  rw [labelledOrOfKind?, labelledOrOfKind?, labelled?_uncommented hcs, ofKind?_uncommented h]

theorem bodyNodes_uncommented : bodyNodes (uncommented cs) = bodyNodes cs := by
  rw [bodyNodes, bodyNodes, labelledOrOfKind?_uncommented hcs _ (by decide)]

theorem plain?_uncommented (form : Form) :
    plain? source (uncommented cs) form = plain? source cs form := by
  have hlabelled := labelled?_uncommented hcs
  cases form with
  | enumeration =>
    simp (disch := decide) only [plain?, enumeration?, hlabelled, modifiers_uncommented,
      labelledOrOfKind?_uncommented hcs]
  | constructor =>
    simp (disch := decide) only [plain?, constructor?, hlabelled, modifiers_uncommented,
      parameterListNode?, labelledOrOfKind?_uncommented hcs]
  | method =>
    simp (disch := decide) only [plain?, method?, hlabelled, modifiers_uncommented,
      parameterListNode?, labelledOrOfKind?_uncommented hcs]
  | field =>
    simp (disch := decide) only [plain?, field?, modifiers_uncommented, ofKind?_uncommented]
  | property =>
    simp (disch := decide) only [plain?, property?, hlabelled, modifiers_uncommented, initializer?,
      valueNode?, valueNodeAfter?_uncommented, labelledOrOfKind?_uncommented hcs]
  | _ => rfl

theorem typeHead_uncommented (name : Node) :
    typeHead source name (uncommented cs) = typeHead source name cs := by
  simp (disch := decide) only [typeHead, baseTypes, modifiers_uncommented, ofKind?_uncommented,
    labelledOrOfKind?_uncommented hcs]

theorem namespaceName_uncommented :
    namespaceName source (uncommented cs) = namespaceName source cs := by
  rw [namespaceName, namespaceName, labelledOrOfKind?_uncommented hcs _ (by decide)]

/-- **Comments are no parts** of a declaration. -/
theorem declaration_uncommented :
    declaration source (.mk info (uncommented cs)) = declaration source (.mk info cs) := by
  have hplain : plain? source (uncommented cs) (formOf info.kind) =
      plain? source cs (formOf info.kind) :=
    plain?_uncommented hcs _
  rw [declaration, declaration]
  cases hform : formOf info.kind with
  | namespaceBlock =>
    simp only [bodyDeclarations_eq, bodyNodes_uncommented hcs, namespaceName_uncommented hcs]
  | type kind =>
    simp only [bodyDeclarations_eq, bodyNodes_uncommented hcs, labelled?_uncommented hcs,
      typeHead_uncommented hcs]
  | enumeration | constructor | field | property | method =>
    rw [hform] at hplain
    exact congrArg pure hplain
  | skipped | fileNamespace | other => rfl

theorem enumMember?_uncommented :
    enumMember? source (.mk info (uncommented cs)) = enumMember? source (.mk info cs) := by
  simp (disch := decide) only [enumMember?, Node.children, labelledOrOfKind?_uncommented hcs,
    valueNode?, valueNodeAfter?_uncommented]
  rfl

theorem declarator?_uncommented :
    declarator? source (.mk info (uncommented cs)) = declarator? source (.mk info cs) := by
  simp (disch := decide) only [declarator?, Node.children, labelledOrOfKind?_uncommented hcs,
    initializer?, valueNode?, valueNodeAfter?_uncommented]
  rfl

theorem accessor?_uncommented :
    accessor? source (.mk info (uncommented cs)) = accessor? source (.mk info cs) := by
  simp (disch := decide) only [accessor?, accessorKeyword, Node.children, labelled?_uncommented hcs,
    modifiers_uncommented, ofKind?_uncommented]
  rfl

theorem parameterOf_uncommented :
    parameterOf source (.mk info (uncommented cs)) = parameterOf source (.mk info cs) := by
  have hidentifiers : (uncommented cs).filter (·.kind == "identifier") =
      cs.filter (·.kind == "identifier") :=
    filter_uncommented fun n _ hkind => by simp [hkind]
  simp only [parameterOf, Node.children, labelled?_uncommented hcs, hidentifiers]

/-- Without a labelled type, the first named child is the base, and that could be a comment. -/
theorem baseNode_uncommented
    (htype : info.kind = "primary_constructor_base_type" → ∃ m ∈ cs, m.label = some "type") :
    (baseNode (.mk info cs)).map (·.text source) =
      (baseNode (.mk info (uncommented cs))).map (·.text source) := by
  by_cases hkind : info.kind = "primary_constructor_base_type"
  · obtain ⟨type, hfound⟩ := Option.isSome_iff_exists.mp (isSome_labelled?_iff.mpr (htype hkind))
    have hbase {ds : List Node} (hds : labelled? "type" ds = some type) :
        baseNode (.mk info ds) = .ok type := by
      rw [baseNode, if_pos (show (Node.mk info ds).kind = _ from hkind), Node.children, hds]
    rw [hbase hfound, hbase ((labelled?_uncommented hcs "type").trans hfound)]
  · rw [baseNode_of_ne hkind, baseNode_of_ne hkind]
    rfl

/-- **A node is read the same without its comments**, if a labelled type keeps them from being taken
for a type. -/
theorem sameNode_uncommented
    (htype : info.kind = "variable_declaration" ∨ info.kind = "primary_constructor_base_type" →
      ∃ m ∈ cs, m.label = some "type") :
    SameNode source parent (.mk info cs) (.mk info (uncommented cs)) where
  kind := rfl
  named := rfl
  text := rfl
  label := rfl
  listed rest after := by
    by_cases hfile : formOf info.kind = .fileNamespace
    · rw [declarations_cons_file source (n := .mk info cs) hfile,
        declarations_cons_file source (n := .mk info (uncommented cs)) hfile]
      simp only [Node.children, declarations_uncommented, namespaceName_uncommented hcs]
    · rw [declarations_cons source (n := .mk info cs) hfile,
        declarations_cons source (n := .mk info (uncommented cs)) hfile,
        declaration_uncommented hcs]
  enumMember := (enumMember?_uncommented hcs).symm
  accessor := (accessor?_uncommented hcs).symm
  parameter _ := (parameterOf_uncommented hcs).symm
  body _ _ after := (declarations_uncommented after).symm
  enumBody _ _ := enumMembers_uncommented.symm
  parameterList _ _ := (parametersAfter_uncommented .closed).symm
  accessorList _ _ := accessors_uncommented.symm
  baseList _ _ _ := by
    have hentries : baseEntries (.mk info (uncommented cs)) = baseEntries (.mk info cs) :=
      filter_named_uncommented fun n hkind => by simp [hkind]
    rw [hentries]
  fieldParts _ hkind := by
    obtain ⟨type, hfound⟩ := Option.isSome_iff_exists.mp
      (isSome_labelled?_iff.mpr (htype (.inl hkind)))
    simp only [Node.children, labelled?_uncommented hcs, hfound, Option.some_or,
      declarators_uncommented, and_self]
  declarator _ := (declarator?_uncommented hcs).symm
  base _ := baseNode_uncommented hcs fun hkind => htype (.inr hkind)
  clause _ _ := by
    have hfirst : (Node.mk info (uncommented cs)).namedChildren.find? (·.kind != "comment") =
        (Node.mk info cs).namedChildren.find? (·.kind != "comment") := by
      rw [← List.head?_filter, ← List.head?_filter]
      exact congrArg List.head? (filter_named_uncommented fun n hkind => by simp [hkind])
    rw [hfirst]
    exact optionRel_refl .refl _

end Parts

/-! ## Whole trees -/

/-- What is in a body of code is not read. -/
theorem sameNode_code {n : Node} (hcode : isCode parent n.info = true) :
    SameNode source parent n (.mk n.info []) := by
  obtain ⟨info, children⟩ := n
  simp only [isCode, Node.info, Bool.and_eq_true, List.contains_iff_mem, beq_iff_eq, List.mem_cons,
    List.not_mem_nil, or_false] at hcode
  obtain ⟨⟨hparent, hlabel⟩, hkind⟩ := hcode
  have hform : formOf info.kind = .other := by
    rcases hkind with hkind | hkind <;> rw [hkind] <;> decide
  have hne {kind : String} (h : kind ∉ ["block", "arrow_expression_clause"]) :
      info.kind ≠ kind := by
    rintro rfl
    exact h (by simpa using hkind)
  refine sameNode_of_unlisted ?_ ?_ ?_ ?_ ?_
  · -- methods and constructors are read for their parameters, and accessors for no list
    intro label hlist
    rcases hparent with rfl | rfl | rfl
    · cases hlist
      rw [hlabel]
      decide
    · cases hlist
      rw [hlabel]
      decide
    · cases hlist
  · rcases hkind with hkind | hkind <;> rw [hkind] <;> decide
  · rw [declaration, declaration, hform]
  · rw [enumMember?_of_ne (hne (by decide)), enumMember?_of_ne (hne (by decide))]
  · rw [declarator?_of_ne (hne (by decide)), declarator?_of_ne (hne (by decide))]

/-- One step of pruning: a node is read the same without its comments, and with children that are
read the same as its other ones. -/
theorem sameNode_of_uncommented {ds : List Node} (hnode : IsTidy (.mk info cs))
    (hcs : ∀ n ∈ cs, IsTidy n)
    (h : List.Forall₂ (SameNode source info.kind) (uncommented cs) ds) :
    SameNode source parent (.mk info cs) (.mk info ds) :=
  (sameNode_uncommented (fun n hn => (hcs n hn).comment) hnode.type).trans (sameNode_mk h)

theorem mem_nodesOf_self (n : Node) : n ∈ nodesOf n := by
  obtain ⟨info, cs⟩ := n
  exact List.mem_cons_self

theorem mem_nodesOfAll {n : Node} (h : n ∈ cs) : n ∈ nodesOfAll cs := by
  induction cs with
  | nil => cases h
  | cons m rest ih =>
    rw [nodesOfAll, List.mem_append]
    rcases List.mem_cons.mp h with rfl | h
    · exact .inl (mem_nodesOf_self n)
    · exact .inr (ih h)

mutual

/-- **A node is read the same without the comments and the code below it.** -/
theorem sameNode_pruned (source : Bytes) (parent : String) :
    ∀ n : Node, (∀ m ∈ nodesOf n, IsTidy m) → SameNode source parent n (prunedNode n)
  | .mk info children, h => by
    rw [nodesOf, List.forall_mem_cons] at h
    obtain ⟨hnode, hbelow⟩ := h
    rw [prunedNode]
    refine sameNode_of_uncommented hnode ?_ (sameNodes_pruned source info.kind children hbelow)
    exact fun n hn => hbelow n (mem_nodesOfAll hn)

/-- **Nodes are read the same without the comments and the code among and below them.** -/
theorem sameNodes_pruned (source : Bytes) (parent : String) :
    ∀ cs : List Node, (∀ n ∈ nodesOfAll cs, IsTidy n) →
      List.Forall₂ (SameNode source parent) (uncommented cs) (prunedChildren parent cs)
  | [], _ => .nil
  | n :: rest, h => by
    rw [nodesOfAll, List.forall_mem_append] at h
    have hrest := sameNodes_pruned source parent rest h.2
    rw [prunedChildren]
    by_cases hkind : n.kind = "comment"
    · rw [if_pos hkind, uncommented_comment hkind]
      exact hrest
    · rw [if_neg hkind, uncommented_cons hkind]
      refine .cons ?_ hrest
      by_cases hcode : isCode parent n.info = true
      · rw [if_pos hcode]
        exact sameNode_code hcode
      · rw [if_neg hcode]
        exact sameNode_pruned source parent n h.1

end

/-- **The outline of a file does not depend on its comments and its code.** -/
theorem outline_pruned {tree : SyntaxTree} (h : ∀ n ∈ nodesOf tree.root, IsTidy n)
    (source : Bytes) (filePath : String) :
    outline source (prunedTree tree) filePath = outline source tree filePath := by
  obtain ⟨⟨info, cs⟩, hasError⟩ := tree
  rw [nodesOf, List.forall_mem_cons] at h
  have hpruned : declarations source (prunedChildren info.kind cs) (pure []) =
      declarations source cs (pure []) := by
    have hsame := sameNodes_pruned source info.kind cs h.2
    rw [← declarations_congr (hsame.imp fun _ _ hn => hn.toSameEntry), declarations_uncommented]
  simp only [outline, prunedTree, prunedNode, Node.children, hpruned]

/-- A comment, and nothing else of note. -/
def remark : Node :=
  letterNode "comment" none 0 []

/-- A class with a base, a field and a method, with comments in front of most of it. There is
another class in the code of the method. -/
def remarkedClass : SyntaxTree where
  root := letterNode "compilation_unit" none 0 [
    remark,
    letterNode "class_declaration" none 1 [
      letterNode "identifier" (some "name") 1 [],
      letterNode "base_list" none 2 [remark, letterNode "identifier" none 2 []],
      remark,
      letterNode "declaration_list" (some "body") 3 [
        remark,
        letterNode "field_declaration" none 3 [
          letterNode "variable_declaration" none 3 [
            remark,
            letterNode "predefined_type" (some "type") 3 [],
            letterNode "variable_declarator" none 4 [
              letterNode "identifier" (some "name") 4 [],
              .mk ⟨"=", false, none, 4, 5, 0⟩ [],
              remark,
              letterNode "integer_literal" none 5 []]]],
        letterNode "method_declaration" none 6 [
          letterNode "predefined_type" (some "returns") 3 [],
          letterNode "identifier" (some "name") 6 [],
          letterNode "parameter_list" (some "parameters") 7 [
            remark,
            letterNode "parameter" none 7 [
              letterNode "predefined_type" (some "type") 3 [],
              remark,
              letterNode "identifier" (some "name") 7 []]],
          letterNode "block" (some "body") 8 [
            remark,
            letterNode "class_declaration" none 8 [
              letterNode "identifier" (some "name") 8 []]]]]]]

theorem outline_pruned_remarkedClass :
    let source := Text.Utf8.encode "/CBTV5MPX"
    (∀ n ∈ nodesOf remarkedClass.root, IsTidy n) ∧
      (nodesOf remarkedClass.root).length = 32 ∧
      (nodesOf (prunedTree remarkedClass).root).length = 21 ∧
      outline source (prunedTree remarkedClass) "f.cs" = outline source remarkedClass "f.cs" ∧
      (outline source remarkedClass "f.cs").outcome =
        .ok (.scope (.compilationUnit "f.cs") [
          .type .classType { name := "C", baseTypes := ["B"] } [
            .member (.field "T" [⟨"V", some ⟨"5", "integer_literal"⟩⟩] []),
            .member (.method "M" "T" [] [⟨"P", "T"⟩])]]) := by
  intro source
  have htidy : ∀ n ∈ nodesOf remarkedClass.root, IsTidy n := by decide +kernel
  exact ⟨htidy, by decide +kernel, by decide +kernel, outline_pruned htidy source "f.cs",
    by decide +kernel⟩

end ClassChart.Syntax
