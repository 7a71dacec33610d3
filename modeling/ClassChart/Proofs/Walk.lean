import ClassChart.Syntax.Outline
import Mathlib.Control.Monad.Basic

/-!
# The outline as a plain walk

A file-scoped namespace re-parents what follows it, so the outline of a list of nodes is not read
off the list one node at a time. With the namespaces erased it is: each node is read once, where it
stands, and a namespace stands for the nodes in it.

## Main definitions

* `Form.kind?`: the kind of the nodes that are read in a form
* `bodyNodes`, `innerNodes`: the nodes among which the declarations inside a node stand
* `reached`: all nodes that are looked at, a node before what is in it
* `walk`: the declarations of a list of nodes, read from left to right
* `Declaration.erased`: a declaration with its namespaces replaced by their members
* `Declaration.listed`: the declarations in a declaration, each without its members

## Main results

* `erasedAll_declarations`: erasing the namespaces of an outline gives the walk, in its result, its
  failure and its notices
* `walk_ok`: the walk declares what the reached nodes declare, and notes those that are skipped
* `outline_erased`: both, for the outline of a file
-/

namespace ClassChart

open Text (Bytes)

/-! ## Results with notices -/

namespace Logged

variable {ε α β : Type}

theorem bind_def (x : Logged ε α) (f : α → Logged ε β) : x >>= f = x.bind f := rfl

@[simp] theorem outcome_pure (a : α) : (pure a : Logged ε α).outcome = .ok a := rfl

@[simp] theorem notices_pure (a : α) : (pure a : Logged ε α).notices = [] := rfl

/-- Both parts of a sequence succeed if the whole does. -/
theorem bind_outcome_eq_ok {x : Logged ε α} {f : α → Logged ε β} {b : β} :
    (x >>= f).outcome = .ok b ↔ ∃ a, x.outcome = .ok a ∧ (f a).outcome = .ok b := by
  rw [bind_def, Logged.bind]
  cases x.outcome with
  | ok a => simp
  | error e => simp

/-- After a success, the notices of what follows come after those made before. -/
theorem bind_notices {x : Logged ε α} {f : α → Logged ε β} {a : α} (h : x.outcome = .ok a) :
    (x >>= f).notices = x.notices ++ (f a).notices := by
  rw [bind_def, Logged.bind, h]

theorem map_outcome (f : α → β) (x : Logged ε α) : (f <$> x).outcome = x.outcome.map f := by
  rw [map_eq_pure_bind, bind_def, Logged.bind]
  cases x.outcome <;> rfl

theorem map_notices (f : α → β) (x : Logged ε α) : (f <$> x).notices = x.notices := by
  rw [map_eq_pure_bind, bind_def, Logged.bind]
  cases x.outcome <;> simp

@[simp] theorem notice_bind_outcome (n : Notice) (f : Unit → Logged ε α) :
    (notice n >>= f).outcome = (f ()).outcome := rfl

@[simp] theorem notice_bind_notices (n : Notice) (f : Unit → Logged ε α) :
    (notice n >>= f).notices = n :: (f ()).notices := rfl

end Logged

namespace Syntax

/-! ## The kinds of nodes -/

/-- The kind of the nodes that are read in a form, if there is only one. -/
def Form.kind? : Form → Option String
  | .namespaceBlock => some "namespace_declaration"
  | .fileNamespace => some "file_scoped_namespace_declaration"
  | .type .classType => some "class_declaration"
  | .type .interfaceType => some "interface_declaration"
  | .type .structType => some "struct_declaration"
  | .enumeration => some "enum_declaration"
  | .constructor => some "constructor_declaration"
  | .field => some "field_declaration"
  | .property => some "property_declaration"
  | .method => some "method_declaration"
  | .skipped | .other => none

/-- A form tells the kind of the nodes that are read in it. -/
theorem kind_of_formOf {kind k : String} (h : (formOf kind).kind? = some k) : kind = k := by
  -- one step for each kind that is asked for
  have hite {c : Prop} [Decidable c] {a b : Form} (ha : c → a.kind? = some k → kind = k)
      (hb : b.kind? = some k → kind = k) (h : (if c then a else b).kind? = some k) : kind = k := by
    by_cases hc : c
    · rw [if_pos hc] at h
      exact ha hc h
    · rw [if_neg hc] at h
      exact hb h
  have hkind {name : String} {form : Form} (hform : form.kind? = some name) (hc : kind = name)
      (h : form.kind? = some k) : kind = k :=
    hc.trans (Option.some.inj (hform.symm.trans h))
  have hnone {form : Form} (hform : form.kind? = none) (h : form.kind? = some k) : kind = k := by
    rw [hform] at h
    cases h
  revert h
  exact hite (hkind rfl) <| hite (hkind rfl) <| hite (hkind rfl) <| hite (hkind rfl) <|
    hite (hkind rfl) <| hite (hkind rfl) <| hite (hkind rfl) <| hite (hkind rfl) <|
    hite (hkind rfl) <| hite (hkind rfl) <| hite (fun _ => hnone rfl) (hnone rfl)

/-! ## Where the declarations inside a node stand -/

/-- The children of the body among the children of a declaration. -/
def bodyNodes (children : List Node) : List Node :=
  ((labelledOrOfKind? "body" ["declaration_list"] children).map Node.children).getD []

/-- The nodes among which the declarations inside a node stand. A type without a name declares
nothing, and neither does what is in it. -/
def innerNodes : Node → List Node
  | .mk info children =>
    match formOf info.kind with
    | .fileNamespace => children
    | .namespaceBlock => bodyNodes children
    | .type _ => if (labelled? "name" children).isSome then bodyNodes children else []
    | _ => []

theorem isSome_labelled?_iff {label : String} {nodes : List Node} :
    (labelled? label nodes).isSome = true ↔ ∃ n ∈ nodes, n.label = some label := by
  simp [labelled?]

theorem labelledOrOfKind?_mem {label : String} {kinds : List String} {nodes : List Node} {n : Node}
    (h : labelledOrOfKind? label kinds nodes = some n) : n ∈ nodes := by
  unfold labelledOrOfKind? at h
  split at h
  case h_1 found hfound =>
    cases h
    exact List.mem_of_find?_eq_some hfound
  case h_2 => exact List.mem_of_find?_eq_some h

theorem one_le_sizeOf_nodes (nodes : List Node) : 1 ≤ sizeOf nodes := by
  cases nodes <;> simp only [List.nil.sizeOf_spec, List.cons.sizeOf_spec] <;> omega

theorem sizeOf_bodyNodes_le (children : List Node) :
    sizeOf (bodyNodes children) ≤ sizeOf children := by
  unfold bodyNodes
  cases hbody : labelledOrOfKind? "body" ["declaration_list"] children with
  | none => exact one_le_sizeOf_nodes children
  | some body =>
    have hlt := List.sizeOf_lt_of_mem (labelledOrOfKind?_mem hbody)
    obtain ⟨info, inner⟩ := body
    simp only [Node.mk.sizeOf_spec] at hlt
    simp only [Option.map_some, Node.children, Option.getD_some]
    omega

theorem sizeOf_innerNodes_lt (n : Node) : sizeOf (innerNodes n) < sizeOf n := by
  obtain ⟨info, children⟩ := n
  have hbody := sizeOf_bodyNodes_le children
  have hone := one_le_sizeOf_nodes children
  have hnil : sizeOf ([] : List Node) = 1 := rfl
  simp only [innerNodes, Node.mk.sizeOf_spec]
  split
  case h_3 => split <;> omega
  all_goals omega

theorem sizeOf_innerNodes_lt_cons (n : Node) (rest : List Node) :
    sizeOf (innerNodes n) < sizeOf (n :: rest) := by
  have hinner := sizeOf_innerNodes_lt n
  simp only [List.cons.sizeOf_spec]
  omega

/-- All nodes that are looked at, in the order in which they start. -/
def reached : List Node → List Node
  | [] => []
  | n :: rest => n :: (reached (innerNodes n) ++ reached rest)
termination_by nodes => sizeOf nodes
decreasing_by
  · exact sizeOf_innerNodes_lt_cons n rest
  · decreasing_tactic

/-! ## The walk -/

variable (source : Bytes)

/-- The declaration of a node without declarations inside, read from its children. -/
def plain? (children : List Node) : Form → Option Declaration
  | .enumeration => enumeration? source children
  | .constructor => (constructor? source children).map .member
  | .field => (field? source children).map .member
  | .property => (property? source children).map .member
  | .method => (method? source children).map .member
  | _ => none

/-- What a node declares, given what is declared inside. A namespace of either form stands for the
declarations inside, and any other declaration is read where it stands. -/
def readNode (inside : Outline (List Declaration)) : Node → Outline (List Declaration)
  | .mk info children =>
    match formOf info.kind with
    | .fileNamespace | .namespaceBlock => inside
    | .type kind =>
      match labelled? "name" children with
      | some name => do
        let head ← Logged.ofExcept (typeHead source name children)
        let members ← inside
        return [.type kind head members]
      | none => return []
    | .skipped => do
      Logged.notice (.skippedDeclaration info.kind (info.row + 1))
      return []
    | form => return (plain? source children form).toList

/-- The declarations of a list of nodes from left to right, each with what is declared inside. -/
def walk : List Node → Outline (List Declaration)
  | [] => return []
  | n :: rest => do
    let found ← readNode source (walk (innerNodes n)) n
    let others ← walk rest
    return found ++ others
termination_by nodes => sizeOf nodes
decreasing_by
  · exact sizeOf_innerNodes_lt_cons n rest
  · decreasing_tactic

end Syntax

/-! ## Erasing namespaces -/

mutual

/-- A declaration with its namespaces, and those in it, replaced by their members. -/
def Declaration.erased : Declaration → List Declaration
  | .type kind head members => [.type kind head (Declaration.erasedAll members)]
  | .enum head members => [.enum head (Declaration.erasedAll members)]
  | .member m => [.member m]
  | .scope (.namespaceOf _) members => Declaration.erasedAll members
  | .scope s members => [.scope s (Declaration.erasedAll members)]

/-- Declarations with all namespaces replaced by their members. -/
def Declaration.erasedAll : List Declaration → List Declaration
  | [] => []
  | d :: rest => d.erased ++ Declaration.erasedAll rest

end

namespace Declaration

@[simp] theorem erasedAll_append (ds es : List Declaration) :
    erasedAll (ds ++ es) = erasedAll ds ++ erasedAll es := by
  induction ds with
  | nil => rfl
  | cons d ds ih => simp only [List.cons_append, erasedAll, ih, List.append_assoc]

theorem erasedAll_member (ms : List Member) : erasedAll (ms.map .member) = ms.map .member := by
  induction ms with
  | nil => rfl
  | cons m ms ih => simp only [List.map_cons, erasedAll, erased, ih, List.singleton_append]

end Declaration

namespace Syntax

variable (source : Bytes)

/-! ## Erasing the namespaces of an outline -/

theorem find?_isBody (children : List Node) :
    children.find? (isBody children) = labelledOrOfKind? "body" ["declaration_list"] children := by
  unfold labelledOrOfKind?
  cases hbody : labelled? "body" children with
  | some body =>
    have hp : isBody children = fun n => n.label == some "body" := by
      funext n
      simp [isBody, hbody]
    rw [hp]
    exact hbody
  | none =>
    have hp : isBody children = fun n => ["declaration_list"].contains n.kind := by
      funext n
      simp [isBody, hbody, Bool.beq_eq_decide_eq]
    rw [hp]
    rfl

theorem bodyDeclarations_eq_find? (p : Node → Bool) (nodes : List Node) :
    bodyDeclarations source p nodes =
      declarations source (((nodes.find? p).map Node.children).getD []) (pure []) := by
  induction nodes with
  | nil => simp [bodyDeclarations, declarations]
  | cons n rest ih =>
    obtain ⟨info, children⟩ := n
    rw [bodyDeclarations, List.find?_cons]
    split <;> simp_all [Node.children]

/-- The declarations of a body are those of its children. -/
theorem bodyDeclarations_eq (children : List Node) :
    bodyDeclarations source (isBody children) children =
      declarations source (bodyNodes children) (pure []) := by
  rw [bodyDeclarations_eq_find?, find?_isBody, bodyNodes]

theorem erasedAll_plain? (children : List Node) (form : Form) :
    Declaration.erasedAll (plain? source children form).toList =
      (plain? source children form).toList := by
  have hmember (m : Option Member) :
      Declaration.erasedAll (m.map Declaration.member).toList = (m.map .member).toList := by
    cases m <;> rfl
  cases form with
  | enumeration =>
    simp only [plain?, enumeration?]
    cases labelled? "name" children with
    | none => rfl
    | some name => simp [Declaration.erasedAll, Declaration.erased, Declaration.erasedAll_member]
  | constructor | field | property | method => exact hmember _
  | _ => rfl

/-- A node other than a file-scoped namespace is read for itself: with its namespaces erased, it
declares what the walk reads. -/
theorem erasedAll_declaration (n : Node) (hfile : formOf n.kind ≠ .fileNamespace) :
    (fun found => Declaration.erasedAll found.toList) <$> declaration source n =
      readNode source
        (Declaration.erasedAll <$> declarations source (innerNodes n) (pure [])) n := by
  obtain ⟨info, children⟩ := n
  simp only [Node.kind, Node.info] at hfile
  rw [declaration, readNode, innerNodes]
  cases hform : formOf info.kind with
  | fileNamespace => exact absurd hform hfile
  | namespaceBlock => simp [bodyDeclarations_eq, Declaration.erasedAll, Declaration.erased]
  | type kind =>
    cases hname : labelled? "name" children with
    | none => simp [Declaration.erasedAll]
    | some name => simp [bodyDeclarations_eq, Declaration.erasedAll, Declaration.erased]
  | skipped => simp [Declaration.erasedAll]
  | enumeration | constructor | field | property | method | other =>
    -- nothing stands inside these, so there is no namespace to erase
    have hplain := erasedAll_plain? source children (formOf info.kind)
    rw [hform] at hplain
    exact (map_pure ..).trans (congrArg pure hplain)

/-- A file-scoped namespace takes in its children and all that follows. -/
theorem declarations_cons_file {n : Node} (hfile : formOf n.kind = .fileNamespace)
    (rest : List Node) (after : Outline (List Declaration)) :
    declarations source (n :: rest) after = do
      let members ← declarations source n.children (declarations source rest after)
      return [.scope (.namespaceOf (namespaceName source n.children)) members] := by
  obtain ⟨info, children⟩ := n
  simp only [Node.kind, Node.info] at hfile
  rw [declarations, hfile]
  rfl

/-- Any other node is read for itself. -/
theorem declarations_cons {n : Node} (hfile : formOf n.kind ≠ .fileNamespace)
    (rest : List Node) (after : Outline (List Declaration)) :
    declarations source (n :: rest) after = do
      let found ← declaration source n
      let others ← declarations source rest after
      return found.toList ++ others := by
  obtain ⟨info, children⟩ := n
  simp only [Node.kind, Node.info] at hfile
  rw [declarations]
  split
  case h_1 hform => exact absurd hform hfile
  case h_2 => rfl

/-- **Erasing the namespaces of an outline gives the walk**, with the same failures and notices.
What comes after the nodes has its own namespaces erased. -/
theorem erasedAll_declarations (nodes : List Node) (after : Outline (List Declaration)) :
    Declaration.erasedAll <$> declarations source nodes after = do
      let found ← walk source nodes
      let others ← Declaration.erasedAll <$> after
      return found ++ others := by
  fun_induction walk source nodes generalizing after with
  | case1 => simp [declarations]
  | case2 n rest ihInner ihRest =>
    by_cases hfile : formOf n.kind = .fileNamespace
    · -- the rest moves behind the children, where the induction hypothesis finds it again
      have hread (inside : Outline (List Declaration)) : readNode source inside n = inside := by
        obtain ⟨info, children⟩ := n
        simp only [Node.kind, Node.info] at hfile
        rw [readNode, hfile]
      have hinner : innerNodes n = n.children := by
        obtain ⟨info, children⟩ := n
        simp only [Node.kind, Node.info] at hfile
        rw [innerNodes, hfile, Node.children]
      rw [hinner] at ihInner
      rw [declarations_cons_file source hfile, hread, hinner]
      calc _ = Declaration.erasedAll <$>
            declarations source n.children (declarations source rest after) := by
            simp [Declaration.erasedAll, Declaration.erased]
        _ = _ := by simp [ihInner, ihRest]
    · have hinner : Declaration.erasedAll <$> declarations source (innerNodes n) (pure []) =
          walk source (innerNodes n) := by
        simp [ihInner, Declaration.erasedAll]
      have hnode := erasedAll_declaration source n hfile
      rw [hinner] at hnode
      calc Declaration.erasedAll <$> declarations source (n :: rest) after
        _ = do
            let found ← (fun found => Declaration.erasedAll found.toList) <$> declaration source n
            let others ← Declaration.erasedAll <$> declarations source rest after
            return found ++ others := by simp [declarations_cons source hfile]
        _ = _ := by simp [hnode, ihRest]

end Syntax

/-! ## What the reached nodes declare -/

mutual

/-- The declarations in a declaration, a type without its members before them. -/
def Declaration.listed : Declaration → List Declaration
  | .type kind head members => .type kind head [] :: Declaration.listedAll members
  | .enum head members => [.enum head members]
  | .member m => [.member m]
  | .scope _ members => Declaration.listedAll members

/-- The declarations in declarations. -/
def Declaration.listedAll : List Declaration → List Declaration
  | [] => []
  | d :: rest => d.listed ++ Declaration.listedAll rest

end

theorem Declaration.listedAll_append (ds es : List Declaration) :
    listedAll (ds ++ es) = listedAll ds ++ listedAll es := by
  induction ds with
  | nil => rfl
  | cons d ds ih => simp only [List.cons_append, listedAll, ih, List.append_assoc]

namespace Syntax

variable (source : Bytes)

/-- What a node declares by itself, a type without its members. -/
def declared? : Node → Option Declaration
  | .mk info children =>
    match formOf info.kind with
    | .type kind => do
      let name ← labelled? "name" children
      let head ← (typeHead source name children).toOption
      return .type kind head []
    | form => plain? source children form

/-- The notice about a node that declares what diagrams do not show. -/
def skipNotice? : Node → Option Notice
  | .mk info _ =>
    if formOf info.kind = .skipped then some (.skippedDeclaration info.kind (info.row + 1))
    else none

theorem listedAll_plain? (children : List Node) (form : Form) :
    Declaration.listedAll (plain? source children form).toList =
      (plain? source children form).toList := by
  have hmember (m : Option Member) :
      Declaration.listedAll (m.map Declaration.member).toList = (m.map .member).toList := by
    cases m <;> rfl
  cases form with
  | enumeration =>
    simp only [plain?, enumeration?]
    cases labelled? "name" children <;> rfl
  | constructor | field | property | method => exact hmember _
  | _ => rfl

/-- A node that can be read lists and notes first itself, then what is inside. -/
theorem readNode_ok {n : Node} {ds : List Declaration}
    (h : (readNode source (walk source (innerNodes n)) n).outcome = .ok ds) :
    ∃ members, (walk source (innerNodes n)).outcome = .ok members ∧
      Declaration.listedAll ds = (declared? source n).toList ++ Declaration.listedAll members ∧
      (readNode source (walk source (innerNodes n)) n).notices =
        (skipNotice? n).toList ++ (walk source (innerNodes n)).notices := by
  obtain ⟨info, children⟩ := n
  rw [readNode, innerNodes, declared?, skipNotice?] at *
  cases hform : formOf info.kind with
  | fileNamespace | namespaceBlock =>
    simp only [hform] at h ⊢
    exact ⟨ds, h, by simp [plain?], by simp⟩
  | type kind =>
    simp only [hform] at h ⊢
    cases hname : labelled? "name" children with
    | none =>
      -- a type without a name hides what is inside, and no node inside is reached either
      simp only [hname, Logged.outcome_pure, Except.ok.injEq] at h
      subst h
      exact ⟨[], by simp [walk], by simp [Declaration.listedAll], by simp [walk]⟩
    | some name =>
      simp only [hname] at h
      obtain ⟨head, hhead, h⟩ := Logged.bind_outcome_eq_ok.mp h
      obtain ⟨members, hmembers, h⟩ := Logged.bind_outcome_eq_ok.mp h
      simp only [Logged.outcome_pure, Except.ok.injEq] at h
      subst h
      have hhead' : typeHead source name children = .ok head := hhead
      refine ⟨members, hmembers, ?_, ?_⟩
      · simp [hhead', Except.toOption, Declaration.listedAll, Declaration.listed]
      · rw [Logged.bind_notices hhead, Logged.bind_notices hmembers]
        simp [Logged.ofExcept]
  | skipped =>
    simp only [hform, Logged.notice_bind_outcome, Logged.outcome_pure, Except.ok.injEq] at h ⊢
    subst h
    refine ⟨[], by simp [walk], by simp [plain?, Declaration.listedAll], ?_⟩
    rw [Logged.notice_bind_notices]
    simp [walk]
  | enumeration | constructor | field | property | method | other =>
    simp only [hform, Logged.outcome_pure, Except.ok.injEq] at h ⊢
    subst h
    exact ⟨[], by simp [walk], by simp [listedAll_plain?, Declaration.listedAll], by simp [walk]⟩

/-- **The walk declares what the reached nodes declare**, once each and in their order, and notes
those of them that are skipped. -/
theorem walk_ok {nodes : List Node} {ds : List Declaration}
    (h : (walk source nodes).outcome = .ok ds) :
    Declaration.listedAll ds = (reached nodes).filterMap (declared? source) ∧
      (walk source nodes).notices = (reached nodes).filterMap skipNotice? := by
  fun_induction walk source nodes generalizing ds with
  | case1 =>
    simp only [Logged.outcome_pure, Except.ok.injEq] at h
    subst h
    simp [reached, Declaration.listedAll]
  | case2 n rest ihInner ihRest =>
    obtain ⟨found, hfound, h⟩ := Logged.bind_outcome_eq_ok.mp h
    obtain ⟨others, hothers, h⟩ := Logged.bind_outcome_eq_ok.mp h
    simp only [Logged.outcome_pure, Except.ok.injEq] at h
    subst h
    obtain ⟨members, hmembers, hlist, hnotices⟩ := readNode_ok source hfound
    obtain ⟨hinnerList, hinnerNotices⟩ := ihInner hmembers
    obtain ⟨hrestList, hrestNotices⟩ := ihRest hothers
    -- each list has the node first, then what is inside, then what follows
    constructor
    · rw [Declaration.listedAll_append, hlist, hinnerList, hrestList, reached]
      cases h : declared? source n <;> simp [h]
    · rw [Logged.bind_notices hfound, Logged.bind_notices hothers, hnotices, hinnerNotices,
        hrestNotices, reached]
      cases h : skipNotice? n <;> simp [h]

/-! ## The outline of a file -/

theorem outline_outcome (tree : SyntaxTree) (filePath : String) :
    (outline source tree filePath).outcome =
      (declarations source tree.root.children (pure [])).outcome.map
        (.scope (.compilationUnit filePath)) := by
  rw [outline, ← Logged.map_outcome, map_eq_pure_bind]
  cases tree.hasError <;> rfl

theorem outline_notices (tree : SyntaxTree) (filePath : String) :
    (outline source tree filePath).notices =
      (if tree.hasError then [.syntaxErrors filePath] else []) ++
        (declarations source tree.root.children (pure [])).notices := by
  rw [outline, ← Logged.map_notices (Declaration.scope (.compilationUnit filePath)),
    map_eq_pure_bind]
  cases tree.hasError <;> rfl

/-- **The outline of a file is its plain walk.** With the namespaces erased, the unit holds what the
walk finds, which is what the reached nodes declare, each once and in their order. The notices are
one about syntax errors, if there are any, and one for each reached node that is skipped. -/
theorem outline_erased {source : Bytes} {tree : SyntaxTree} {filePath : String} {unit : Declaration}
    (h : (outline source tree filePath).outcome = .ok unit) :
    ∃ found, (walk source tree.root.children).outcome = .ok found ∧
      unit.erased = [.scope (.compilationUnit filePath) found] ∧
      Declaration.listedAll found = (reached tree.root.children).filterMap (declared? source) ∧
      (outline source tree filePath).notices =
        (if tree.hasError then [.syntaxErrors filePath] else []) ++
          (reached tree.root.children).filterMap skipNotice? := by
  rw [outline_outcome] at h
  cases hmembers : (declarations source tree.root.children (pure [])).outcome with
  | error e => simp [hmembers, Except.map] at h
  | ok members =>
    simp only [hmembers, Except.map, Except.ok.injEq] at h
    subst h
    have hwalk : Declaration.erasedAll <$> declarations source tree.root.children (pure []) =
        walk source tree.root.children := by
      simp [erasedAll_declarations, Declaration.erasedAll]
    have hfound :
        (walk source tree.root.children).outcome = .ok (Declaration.erasedAll members) := by
      rw [← hwalk, Logged.map_outcome, hmembers, Except.map]
    obtain ⟨hlisted, hnotices⟩ := walk_ok source hfound
    refine ⟨Declaration.erasedAll members, hfound, rfl, hlisted, ?_⟩
    rw [outline_notices, ← hnotices, ← hwalk, Logged.map_notices]

/-- A node of a kind, with a label, that spans one byte. -/
def letterNode (kind : String) (label : Option String) (start : Nat) (children : List Node) :
    Node :=
  .mk ⟨kind, true, label, start, start + 1, start⟩ children

/-- Two file-scoped namespaces beside two classes, and a third one in the body of the first class,
with a record in it. -/
def nestedNamespaces : SyntaxTree where
  root := letterNode "compilation_unit" none 0 [
    letterNode "file_scoped_namespace_declaration" none 0
      [letterNode "identifier" (some "name") 0 []],
    letterNode "class_declaration" none 1 [
      letterNode "identifier" (some "name") 1 [],
      letterNode "declaration_list" (some "body") 2 [
        letterNode "file_scoped_namespace_declaration" none 2 [
          letterNode "identifier" (some "name") 2 [],
          letterNode "record_declaration" none 3 []],
        letterNode "class_declaration" none 3 [letterNode "identifier" (some "name") 3 []]]],
    letterNode "file_scoped_namespace_declaration" none 4 [],
    letterNode "class_declaration" none 4 [letterNode "identifier" (some "name") 4 []]]

/-- The class with the given name and members. -/
def plainClass (name : String) (members : List Declaration) : Declaration :=
  .type .classType { name } members

theorem outline_erased_nestedNamespaces :
    let source := Text.Utf8.encode "NCMDE"
    let unit : Declaration := .scope (.compilationUnit "f.cs") [.scope (.namespaceOf "N") [
      plainClass "C" [.scope (.namespaceOf "M") [plainClass "D" []]],
      .scope (.namespaceOf "") [plainClass "E" []]]]
    (outline source nestedNamespaces "f.cs").outcome = .ok unit ∧
      unit.erased = [.scope (.compilationUnit "f.cs") [
        plainClass "C" [plainClass "D" []], plainClass "E" []]] ∧
      (outline source nestedNamespaces "f.cs").notices.map Notice.message =
        ["skipping record_declaration at line 4"] ∧
      ∃ found, (walk source nestedNamespaces.root.children).outcome = .ok found ∧
        unit.erased = [.scope (.compilationUnit "f.cs") found] := by
  intro source unit
  have hok : (outline source nestedNamespaces "f.cs").outcome = .ok unit := by decide +kernel
  obtain ⟨found, hfound, herased, -⟩ := outline_erased hok
  exact ⟨hok, by decide +kernel, by decide +kernel, found, hfound, herased⟩

end Syntax

end ClassChart
