import ClassChart.Proofs.Walk

/-!
# When a file has no outline

Syntax trees come with nodes missing, and nearly all of them can do without: a name, a body, a type
or a list that is not there is left out. The one part that is asked for and not only looked for is
the type in a base with constructor arguments. So a file has no outline if there is such a base
without anything to name it, in a type that the walk comes to, and it has one otherwise.

## Main definitions

* `IsReached`: the nodes that the walk comes to
* `IsBareBase`: a base with constructor arguments and without a type
* `LacksBase`: a type with a name and with such a base

## Main results

* `mem_reached_iff`: the nodes that are looked at are those that the walk comes to
* `baseTypes_eq_error_iff`: when the bases of a type cannot be read
* `walk_eq_error_iff`: the walk fails if a node that is looked at lacks a base
* `outline_fails_iff`: which files have no outline
-/

namespace ClassChart

open Text (Bytes)

/-- A sequence fails if its first part does, or its second part, if that fails whatever the result
of the first one is. -/
theorem Syntax.bind_eq_error_iff {α β : Type} {x : Outline α} {f : α → Outline β} {P : Prop}
    (h : ∀ a, (f a).outcome = .error .missingBase ↔ P) :
    (x >>= f).outcome = .error .missingBase ↔ x.outcome = .error .missingBase ∨ P := by
  rw [Logged.bind_def, Logged.bind]
  cases x.outcome with
  | ok a => simp [h a]
  | error e => cases e; simp

namespace Syntax

/-! ## The nodes that the walk comes to -/

/-- The nodes that the walk over a list comes to: those of the list and, below a node that it comes
to, what stands in the body of a namespace, in a file-scoped namespace, and in the body of a type
that has a name. What follows a file-scoped namespace is in the same list and needs no rule. -/
inductive IsReached (nodes : List Node) : Node → Prop where
  | listed {n : Node} (hmem : n ∈ nodes) : IsReached nodes n
  | inNamespace {n m : Node} (h : IsReached nodes n) (hkind : n.kind = "namespace_declaration")
      (hmem : m ∈ bodyNodes n.children) : IsReached nodes m
  | inFile {n m : Node} (h : IsReached nodes n)
      (hkind : n.kind = "file_scoped_namespace_declaration") (hmem : m ∈ n.children) :
      IsReached nodes m
  | inType {n m : Node} (h : IsReached nodes n)
      (hkind : n.kind ∈ ["class_declaration", "interface_declaration", "struct_declaration"])
      (hname : ∃ name ∈ n.children, name.label = some "name") (hmem : m ∈ bodyNodes n.children) :
      IsReached nodes m

/-- The forms of types are those of three kinds of nodes. -/
theorem formOf_eq_type_iff {kind : String} :
    (∃ type, formOf kind = .type type) ↔
      kind ∈ ["class_declaration", "interface_declaration", "struct_declaration"] := by
  constructor
  · rintro ⟨type, hform⟩
    -- a form tells its kind
    cases type with
    | classType => simp [kind_of_formOf (k := "class_declaration") (by rw [hform]; rfl)]
    | interfaceType => simp [kind_of_formOf (k := "interface_declaration") (by rw [hform]; rfl)]
    | structType => simp [kind_of_formOf (k := "struct_declaration") (by rw [hform]; rfl)]
  · intro hkind
    simp only [List.mem_cons, List.not_mem_nil, or_false] at hkind
    rcases hkind with rfl | rfl | rfl
    · exact ⟨.classType, rfl⟩
    · exact ⟨.interfaceType, rfl⟩
    · exact ⟨.structType, rfl⟩

/-- The three ways from a node to those inside it. -/
theorem mem_innerNodes_iff {n m : Node} :
    m ∈ innerNodes n ↔
      (n.kind = "namespace_declaration" ∧ m ∈ bodyNodes n.children) ∨
      (n.kind = "file_scoped_namespace_declaration" ∧ m ∈ n.children) ∨
      (n.kind ∈ ["class_declaration", "interface_declaration", "struct_declaration"] ∧
        (∃ name ∈ n.children, name.label = some "name") ∧ m ∈ bodyNodes n.children) := by
  obtain ⟨info, children⟩ := n
  -- both sides in terms of the form that a node is read by
  simp only [Node.kind, Node.info, Node.children, ← formOf_eq_type_iff, ← isSome_labelled?_iff]
  constructor
  · intro hmem
    rw [innerNodes] at hmem
    split at hmem
    case h_1 hform => exact .inr (.inl ⟨kind_of_formOf (by rw [hform]; rfl), hmem⟩)
    case h_2 hform => exact .inl ⟨kind_of_formOf (by rw [hform]; rfl), hmem⟩
    case h_3 type hform =>
      split at hmem
      case isTrue hname => exact .inr (.inr ⟨⟨type, hform⟩, hname, hmem⟩)
      case isFalse => cases hmem
    case h_4 => cases hmem
  · rintro (⟨hkind, hmem⟩ | ⟨hkind, hmem⟩ | ⟨⟨type, hform⟩, hname, hmem⟩)
    · rw [innerNodes, hkind]
      exact hmem
    · rw [innerNodes, hkind]
      exact hmem
    · rw [innerNodes, hform]
      simpa only [hname, if_true] using hmem

theorem IsReached.inside {nodes : List Node} {n m : Node} (h : IsReached nodes n)
    (hmem : m ∈ innerNodes n) : IsReached nodes m := by
  rcases mem_innerNodes_iff.mp hmem with ⟨hkind, hmem⟩ | ⟨hkind, hmem⟩ | ⟨hkind, hname, hmem⟩
  · exact .inNamespace h hkind hmem
  · exact .inFile h hkind hmem
  · exact .inType h hkind hname hmem

/-- What is reached from nodes that are all reached is reached. -/
theorem IsReached.trans {nodes others : List Node} {m : Node} (h : IsReached others m)
    (hothers : ∀ n ∈ others, IsReached nodes n) : IsReached nodes m := by
  induction h with
  | listed hmem => exact hothers _ hmem
  | inNamespace _ hkind hmem ih => exact .inNamespace ih hkind hmem
  | inFile _ hkind hmem ih => exact .inFile ih hkind hmem
  | inType _ hkind hname hmem ih => exact .inType ih hkind hname hmem

theorem mem_reached_of_mem {nodes : List Node} {n : Node} (h : n ∈ nodes) : n ∈ reached nodes := by
  induction nodes with
  | nil => cases h
  | cons k rest ih =>
    rw [reached]
    rcases List.mem_cons.mp h with rfl | h
    · exact List.mem_cons_self
    · exact List.mem_cons_of_mem k (List.mem_append_right _ (ih h))

/-- The nodes inside a node that is looked at are looked at. -/
theorem mem_reached_inside {nodes : List Node} {n m : Node} (h : n ∈ reached nodes)
    (hmem : m ∈ innerNodes n) : m ∈ reached nodes := by
  fun_induction reached nodes with
  | case1 => cases h
  | case2 k rest ihInner ihRest =>
    refine List.mem_cons_of_mem k (List.mem_append.mpr ?_)
    rcases List.mem_cons.mp h with rfl | h
    · exact .inl (mem_reached_of_mem hmem)
    · rcases List.mem_append.mp h with h | h
      · exact .inl (ihInner h)
      · exact .inr (ihRest h)

/-- **The nodes that are looked at are those that the walk comes to.** -/
theorem mem_reached_iff {nodes : List Node} {n : Node} : n ∈ reached nodes ↔ IsReached nodes n := by
  constructor
  · intro h
    fun_induction reached nodes with
    | case1 => cases h
    | case2 k rest ihInner ihRest =>
      have hfirst : IsReached (k :: rest) k := .listed List.mem_cons_self
      rcases List.mem_cons.mp h with rfl | h
      · exact hfirst
      · rcases List.mem_append.mp h with h | h
        · exact (ihInner h).trans fun m hm => hfirst.inside hm
        · exact (ihRest h).trans fun m hm => .listed (List.mem_cons_of_mem k hm)
  · intro h
    induction h with
    | listed hmem => exact mem_reached_of_mem hmem
    | inNamespace _ hkind hmem ih =>
      exact mem_reached_inside ih (mem_innerNodes_iff.mpr (.inl ⟨hkind, hmem⟩))
    | inFile _ hkind hmem ih =>
      exact mem_reached_inside ih (mem_innerNodes_iff.mpr (.inr (.inl ⟨hkind, hmem⟩)))
    | inType _ hkind hname hmem ih =>
      exact mem_reached_inside ih (mem_innerNodes_iff.mpr (.inr (.inr ⟨hkind, hname, hmem⟩)))

/-! ## Bases that cannot be read -/

/-- A base with constructor arguments in which nothing stands for the type: no child is labelled as
one, and no child is named. -/
def IsBareBase (n : Node) : Prop :=
  n.kind = "primary_constructor_base_type" ∧
    ∀ m ∈ n.children, m.label ≠ some "type" ∧ m.named = false

/-- A class, an interface or a struct with a name, in the first base list of which there is a bare
base. -/
structure LacksBase (n : Node) : Prop where
  isType : n.kind ∈ ["class_declaration", "interface_declaration", "struct_declaration"]
  hasName : ∃ name ∈ n.children, name.label = some "name"
  hasBareBase : ∃ list, n.children.find? (·.kind = "base_list") = some list ∧
    ∃ base ∈ list.children, base.named = true ∧ IsBareBase base

variable {source : Bytes}

theorem baseNode_eq_error_iff {n : Node} : baseNode n = .error .missingBase ↔ IsBareBase n := by
  rw [baseNode, IsBareBase]
  by_cases hkind : n.kind = "primary_constructor_base_type"
  · simp only [hkind, if_true, true_and]
    cases htype : labelled? "type" n.children with
    | some type =>
      -- a labelled type is in the way of the right side, too
      have hmem := List.mem_of_find?_eq_some htype
      have hlabel : type.label = some "type" := by simpa using List.find?_some htype
      simp only [reduceCtorEq, false_iff]
      exact fun hnone => (hnone type hmem).1 hlabel
    | none =>
      have hlabels : ∀ m ∈ n.children, m.label ≠ some "type" := by
        simpa [labelled?] using htype
      have hnamed : n.namedChildren = [] ↔ ∀ m ∈ n.children, m.named = false := by
        simp [Node.namedChildren, List.filter_eq_nil_iff]
      have hboth : (∀ m ∈ n.children, m.label ≠ some "type" ∧ m.named = false) ↔
          n.namedChildren = [] :=
        ⟨fun h => hnamed.mpr fun m hm => (h m hm).2,
          fun h m hm => ⟨hlabels m hm, hnamed.mp h m hm⟩⟩
      rw [hboth]
      cases n.namedChildren <;> simp
  · simp [hkind]

theorem baseTexts_eq_error_iff {nodes : List Node} :
    baseTexts source nodes = .error .missingBase ↔ ∃ n ∈ nodes, IsBareBase n := by
  induction nodes with
  | nil => simp [baseTexts]
  | cons n rest ih =>
    have hsplit : (∃ m ∈ n :: rest, IsBareBase m) ↔ IsBareBase n ∨ ∃ m ∈ rest, IsBareBase m := by
      simp only [List.mem_cons, or_and_right, exists_or, exists_eq_left]
    rw [hsplit, ← ih, ← baseNode_eq_error_iff, baseTexts]
    -- the first bare base ends the reading, and there is only one error
    cases baseNode n with
    | error e => cases e; simp [bind, Except.bind]
    | ok base => cases baseTexts source rest <;> simp [bind, Except.bind, pure, Except.pure]

/-- **The bases of a type cannot be read** if one of them is bare. What is no base, a comment or an
argument list, is none of a kind to be bare. -/
theorem baseTypes_eq_error_iff {children : List Node} :
    baseTypes source children = .error .missingBase ↔
      ∃ list, children.find? (·.kind = "base_list") = some list ∧
        ∃ base ∈ list.children, base.named = true ∧ IsBareBase base := by
  have hfind : ofKind? ["base_list"] children = children.find? (·.kind = "base_list") := by
    simp [ofKind?]
  rw [baseTypes, hfind]
  cases children.find? (·.kind = "base_list") with
  | none => simp
  | some list =>
    simp only [baseTexts_eq_error_iff, Option.some.injEq, exists_eq_left', baseEntries,
      Node.namedChildren, List.mem_filter]
    refine exists_congr fun base => ⟨?_, ?_⟩
    · rintro ⟨⟨⟨hmem, hnamed⟩, -⟩, hbare⟩
      exact ⟨hmem, hnamed, hbare⟩
    · rintro ⟨hmem, hnamed, hbare⟩
      refine ⟨⟨⟨hmem, hnamed⟩, ?_⟩, hbare⟩
      rw [hbare.1]
      rfl

theorem typeHead_eq_error_iff {name : Node} {children : List Node} :
    typeHead source name children = .error .missingBase ↔
      baseTypes source children = .error .missingBase := by
  rw [typeHead]
  cases baseTypes source children <;> simp [bind, Except.bind, pure, Except.pure]

/-! ## The walk and the outline -/

/-- A node cannot be read if it lacks a base, or if what is inside cannot. -/
theorem readNode_eq_error_iff {n : Node} :
    (readNode source (walk source (innerNodes n)) n).outcome = .error .missingBase ↔
      LacksBase n ∨ (walk source (innerNodes n)).outcome = .error .missingBase := by
  obtain ⟨info, children⟩ := n
  have hlacks : LacksBase (.mk info children) ↔ (∃ type, formOf info.kind = .type type) ∧
      (labelled? "name" children).isSome = true ∧
      baseTypes source children = .error .missingBase := by
    rw [formOf_eq_type_iff, isSome_labelled?_iff, baseTypes_eq_error_iff]
    constructor
    · intro h
      exact ⟨h.1, h.2, h.3⟩
    · rintro ⟨htype, hname, hbase⟩
      exact ⟨htype, hname, hbase⟩
  -- nothing is inside a node of the other forms, and nothing fails there
  have hempty : (walk source []).outcome ≠ .error .missingBase := by
    rw [walk]
    intro herror
    cases herror
  rw [hlacks, readNode, innerNodes]
  cases hform : formOf info.kind with
  | fileNamespace | namespaceBlock => simp
  | type kind =>
    cases hname : labelled? "name" children with
    | none => simp [hempty]
    | some name =>
      have hhead : (∃ type, Form.type kind = .type type) ∧ (some name).isSome = true ∧
          baseTypes source children = .error .missingBase ↔
          (Logged.ofExcept (typeHead source name children)).outcome = .error .missingBase := by
        simp [Logged.ofExcept, typeHead_eq_error_iff]
      rw [hhead]
      refine bind_eq_error_iff fun head => ?_
      rw [bind_eq_error_iff (P := False) fun members => by simp, or_false]
  | skipped =>
    rw [bind_eq_error_iff (P := False) fun _ => by simp]
    simp [Logged.notice, hempty]
  | enumeration | constructor | field | property | method | other => simp [hempty]

/-- **The walk fails** if a node that is looked at lacks a base. -/
theorem walk_eq_error_iff {nodes : List Node} :
    (walk source nodes).outcome = .error .missingBase ↔ ∃ n ∈ reached nodes, LacksBase n := by
  induction nodes using reached.induct with
  | case1 =>
    rw [walk, reached]
    simp
  | case2 n rest ihInner ihRest =>
    have hsplit : (∃ m ∈ reached (n :: rest), LacksBase m) ↔ (LacksBase n ∨
        ∃ m ∈ reached (innerNodes n), LacksBase m) ∨ ∃ m ∈ reached rest, LacksBase m := by
      rw [reached]
      simp only [List.mem_cons, List.mem_append, or_and_right, exists_or, exists_eq_left, or_assoc]
    rw [hsplit, ← ihInner, ← ihRest, ← readNode_eq_error_iff, walk]
    refine bind_eq_error_iff fun found => ?_
    rw [bind_eq_error_iff (P := False) fun others => by simp, or_false]

/-- The outline of a file fails as the walk does, for it erases to the walk. -/
theorem outline_eq_error_iff (source : Bytes) (tree : SyntaxTree) (filePath : String) :
    (outline source tree filePath).outcome = .error .missingBase ↔
      (walk source tree.root.children).outcome = .error .missingBase := by
  have hwalk : Declaration.erasedAll <$> declarations source tree.root.children (pure []) =
      walk source tree.root.children := by
    simp [erasedAll_declarations, Declaration.erasedAll]
  rw [outline_outcome, ← hwalk, Logged.map_outcome]
  cases (declarations source tree.root.children (pure [])).outcome <;> simp [Except.map]

/-- **A file has no outline** exactly if there is a type without one of its bases among the nodes
that the walk comes to. In every other case, whatever is missing in the syntax tree and wherever its
nodes lie, the outline is a compilation unit. -/
theorem outline_fails_iff (source : Bytes) (tree : SyntaxTree) (filePath : String) :
    ((outline source tree filePath).outcome = .error .missingBase ↔
        ∃ n, IsReached tree.root.children n ∧ LacksBase n) ∧
      ((∃ members, (outline source tree filePath).outcome =
          .ok (.scope (.compilationUnit filePath) members)) ↔
        ¬ ∃ n, IsReached tree.root.children n ∧ LacksBase n) := by
  have herror : (outline source tree filePath).outcome = .error .missingBase ↔
      ∃ n, IsReached tree.root.children n ∧ LacksBase n := by
    rw [outline_eq_error_iff, walk_eq_error_iff]
    simp only [mem_reached_iff]
  refine ⟨herror, ?_⟩
  rw [← herror, outline_outcome]
  cases (declarations source tree.root.children (pure [])).outcome with
  | ok members => simp [Except.map]
  | error e => cases e; simp [Except.map]

/-- A class with a bare base beside a file-scoped namespace, in a class with the given name. -/
def bareBaseInside (name : List Node) : SyntaxTree where
  root := letterNode "compilation_unit" none 0 [letterNode "class_declaration" none 0 (name ++ [
    letterNode "declaration_list" (some "body") 0 [
      letterNode "file_scoped_namespace_declaration" none 0 [],
      letterNode "class_declaration" none 0 [
        letterNode "identifier" (some "name") 0 [],
        letterNode "base_list" none 0 [letterNode "primary_constructor_base_type" none 0 []]]]])]

example : (outline [] (bareBaseInside [letterNode "identifier" (some "name") 0 []]) "").outcome =
    .error .missingBase := by
  decide

example : (outline [] (bareBaseInside []) "").outcome = .ok (.scope (.compilationUnit "") []) := by
  decide

end Syntax

end ClassChart
