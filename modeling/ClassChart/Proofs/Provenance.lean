import ClassChart.Proofs.Walk
import Mathlib.Logic.Relation

/-!
# Where the texts of an outline come from

All that a declaration says was read below the node that it was read from: its texts are the texts
of nodes there, and the kind of an initial value is the kind of such a node. The file-scoped
namespaces of a tree move declarations to other places in the outline, but not away from their
nodes.

## Main definitions

* `Node.IsBelow`: a node is a proper descendant of another
* `Excerpt`, `Declaration.excerpts`: what a declaration carries from the source, with all in it
* `Declaration.within`: a declaration and all declarations in it
* `Stems`: a declaration, as far as it has a node of its own, was read from a node below another

## Main results

* `declarations_stem`: what a list of nodes declares was read from the nodes and what is below them
* `outline_verbatim`: each declaration of a file was read from a node of its kind, and all that it
  carries from below that node
-/

namespace ClassChart

open Text (Bytes)

/-! ## What declarations carry -/

/-- Something that a declaration carries from the source. -/
inductive Excerpt where
  | text (s : String)
  /-- The keyword of an accessor. -/
  | keyword (s : String)
  | initializer (i : Initializer)

/-- What parameters carry. -/
def parameterExcerpts (parameters : List Parameter) : List Excerpt :=
  parameters.flatMap fun p => [.text p.name, .text p.type]

/-- What an accessor carries. -/
def Accessor.excerpts (a : Accessor) : List Excerpt :=
  .keyword a.keyword :: a.modifiers.map .text

/-- What a variable carries. -/
def Variable.excerpts (v : Variable) : List Excerpt :=
  .text v.name :: v.initializer.toList.map .initializer

/-- What a member carries. -/
def Member.excerpts : Member → List Excerpt
  | .constructor name modifiers parameters =>
    .text name :: (modifiers.map .text ++ parameterExcerpts parameters)
  | .field type declared modifiers =>
    .text type :: (modifiers.map .text ++ declared.flatMap Variable.excerpts)
  | .property name type modifiers accessors initializer =>
    .text name :: .text type :: (modifiers.map .text ++
      ((accessors.getD []).flatMap Accessor.excerpts ++ initializer.toList.map .initializer))
  | .method name returnType modifiers parameters =>
    .text name :: .text returnType :: (modifiers.map .text ++ parameterExcerpts parameters)
  | .enumMember name value => .text name :: value.toList.map .text

/-- What a scope carries. The path of a file is not from its source. -/
def Scope.excerpts : Scope → List Excerpt
  | .namespaceOf name => [.text name]
  | _ => []

/-- What the header of a type carries. -/
def TypeHead.excerpts (head : TypeHead) : List Excerpt :=
  .text head.name :: .text head.typeParameters ::
    (head.modifiers.map .text ++ head.baseTypes.map .text)

/-- What the header of an enumeration carries. -/
def EnumHead.excerpts (head : EnumHead) : List Excerpt :=
  .text head.name :: head.modifiers.map .text

mutual

/-- What a declaration carries, with all in it. -/
def Declaration.excerpts : Declaration → List Excerpt
  | .type _ head members => head.excerpts ++ Declaration.excerptsAll members
  | .enum head members => head.excerpts ++ Declaration.excerptsAll members
  | .member m => m.excerpts
  | .scope s members => s.excerpts ++ Declaration.excerptsAll members

/-- What declarations carry. -/
def Declaration.excerptsAll : List Declaration → List Excerpt
  | [] => []
  | d :: rest => d.excerpts ++ Declaration.excerptsAll rest

end

mutual

/-- A declaration and all declarations in it. -/
def Declaration.within : Declaration → List Declaration
  | .type kind head members => .type kind head members :: Declaration.withinAll members
  | .enum head members => .enum head members :: Declaration.withinAll members
  | .member m => [.member m]
  | .scope s members => .scope s members :: Declaration.withinAll members

/-- Declarations and all declarations in them. -/
def Declaration.withinAll : List Declaration → List Declaration
  | [] => []
  | d :: rest => d.within ++ Declaration.withinAll rest

end

/-- The kind of the nodes that members are read from. -/
def Member.nodeKind : Member → String
  | .constructor .. => "constructor_declaration"
  | .field .. => "field_declaration"
  | .property .. => "property_declaration"
  | .method .. => "method_declaration"
  | .enumMember .. => "enum_member_declaration"

/-- The kind of the node that a declaration is read from, unless it is a scope. -/
def Declaration.nodeKind? : Declaration → Option String
  | .type kind .. => (Syntax.Form.type kind).kind?
  | .enum .. => some "enum_declaration"
  | .member m => some m.nodeKind
  | .scope .. => none

namespace Declaration

theorem mem_excerptsAll {ds : List Declaration} {x : Excerpt} :
    x ∈ excerptsAll ds ↔ ∃ d ∈ ds, x ∈ d.excerpts := by
  induction ds with
  | nil => simp [excerptsAll]
  | cons d ds ih => simp [excerptsAll, ih]

theorem mem_withinAll {ds : List Declaration} {e : Declaration} :
    e ∈ withinAll ds ↔ ∃ d ∈ ds, e ∈ d.within := by
  induction ds with
  | nil => simp [withinAll]
  | cons d ds ih => simp [withinAll, ih]

end Declaration

/-- A node is a proper descendant of another. -/
def Node.IsBelow (n root : Node) : Prop :=
  Relation.TransGen (fun m k : Node => m ∈ k.children) n root

namespace Node.IsBelow

theorem child {n root : Node} (h : n ∈ root.children) : n.IsBelow root :=
  .single h

theorem trans {n m root : Node} (h : n.IsBelow m) (k : m.IsBelow root) : n.IsBelow root :=
  Relation.TransGen.trans h k

/-- A child of a descendant is a descendant. -/
theorem inside {n m root : Node} (h : n ∈ m.children) (k : m.IsBelow root) : n.IsBelow root :=
  .trans (.child h) k

end Node.IsBelow

/-- A text is empty or the text of a node below another. -/
def IsVerbatim (source : Bytes) (root : Node) (s : String) : Prop :=
  s = "" ∨ ∃ n : Node, n.IsBelow root ∧ s = n.text source

/-- **Something was read below a node.** An accessor may have a keyword of the language instead of a
text, and the word `default` alone is a literal. -/
def Excerpt.IsFrom (source : Bytes) (root : Node) : Excerpt → Prop
  | .text s => IsVerbatim source root s
  | .keyword s => IsVerbatim source root s ∨ s ∈ Syntax.accessorKeywords
  | .initializer i => ∃ n : Node, n.IsBelow root ∧ i.text = n.text source ∧
      (i.kind = n.kind ∨ i.kind = "default_literal" ∧ i.text = "default")

/-- All of a list was read below a node. -/
def AreFrom (source : Bytes) (root : Node) (xs : List Excerpt) : Prop :=
  ∀ x ∈ xs, x.IsFrom source root

/-- A declaration was read from a node. -/
def IsReadFrom (source : Bytes) (n : Node) (d : Declaration) : Prop :=
  (Syntax.declaration source n).outcome = .ok (some d) ∨
    ∃ m, Syntax.enumMember? source n = some m ∧ d = .member m

/-- **A declaration stems from what is below a node.** All that it carries was read there, and it
and all declarations in it, unless they are scopes, were read from nodes of their kinds there, each
with all that it carries. -/
structure Stems (source : Bytes) (root : Node) (d : Declaration) : Prop where
  excerpts : AreFrom source root d.excerpts
  within : ∀ e ∈ d.within, ∀ kind, e.nodeKind? = some kind →
    ∃ n : Node, n.IsBelow root ∧ n.kind = kind ∧ IsReadFrom source n e ∧
      AreFrom source n e.excerpts

section Below

variable {source : Bytes} {root n : Node}

theorem isVerbatim_text (h : n.IsBelow root) : IsVerbatim source root (n.text source) :=
  .inr ⟨n, h, rfl⟩

theorem isVerbatim_textOf {o : Option Node} (h : ∀ n ∈ o, n.IsBelow root) :
    IsVerbatim source root (Node.textOf source o) := by
  cases o with
  | none => exact .inl rfl
  | some n => exact isVerbatim_text (h n rfl)

theorem IsVerbatim.mono {s : String} (hn : n.IsBelow root) (h : IsVerbatim source n s) :
    IsVerbatim source root s := by
  rcases h with h | ⟨m, hm, h⟩
  · exact .inl h
  · exact .inr ⟨m, hm.trans hn, h⟩

theorem Excerpt.IsFrom.mono {x : Excerpt} (hn : n.IsBelow root) (h : x.IsFrom source n) :
    x.IsFrom source root := by
  cases x with
  | text s => exact IsVerbatim.mono hn h
  | keyword s => exact h.imp_left (IsVerbatim.mono hn)
  | initializer i =>
    obtain ⟨m, hm, h⟩ := h
    exact ⟨m, hm.trans hn, h⟩

theorem AreFrom.mono {xs : List Excerpt} (hn : n.IsBelow root) (h : AreFrom source n xs) :
    AreFrom source root xs :=
  fun x hx => (h x hx).mono hn

theorem areFrom_nil : AreFrom source root [] :=
  fun _ hx => by cases hx

theorem areFrom_cons {x : Excerpt} {xs : List Excerpt} (h : x.IsFrom source root)
    (hs : AreFrom source root xs) : AreFrom source root (x :: xs) :=
  List.forall_mem_cons.mpr ⟨h, hs⟩

theorem areFrom_append {xs ys : List Excerpt} (hx : AreFrom source root xs)
    (hy : AreFrom source root ys) : AreFrom source root (xs ++ ys) :=
  List.forall_mem_append.mpr ⟨hx, hy⟩

theorem areFrom_texts {texts : List String} (h : ∀ s ∈ texts, IsVerbatim source root s) :
    AreFrom source root (texts.map .text) :=
  List.forall_mem_map.mpr h

theorem areFrom_flatMap {α : Type} {f : α → List Excerpt} {as : List α}
    (h : ∀ a ∈ as, AreFrom source root (f a)) : AreFrom source root (as.flatMap f) := by
  intro x hx
  obtain ⟨a, ha, hx⟩ := List.mem_flatMap.mp hx
  exact h a ha x hx

theorem areFrom_excerptsAll {ds : List Declaration} (h : ∀ d ∈ ds, Stems source root d) :
    AreFrom source root (Declaration.excerptsAll ds) := by
  intro x hx
  obtain ⟨d, hd, hx⟩ := Declaration.mem_excerptsAll.mp hx
  exact (h d hd).excerpts x hx

theorem Stems.mono {d : Declaration} (hn : n.IsBelow root) (h : Stems source n d) :
    Stems source root d where
  excerpts := h.excerpts.mono hn
  within e he kind hk := by
    obtain ⟨m, hm, hrest⟩ := h.within e he kind hk
    exact ⟨m, hm.trans hn, hrest⟩

/-- What a declaration holds is from below a node, itself apart. -/
structure IsReadOff (source : Bytes) (n : Node) (d : Declaration) : Prop where
  excerpts : AreFrom source n d.excerpts
  within : ∀ e ∈ d.within, e = d ∨ ∃ c, Stems source n c ∧ e ∈ c.within

/-- A declaration that was read from a node below another stems from there. -/
theorem IsReadOff.stems {d : Declaration} (h : IsReadOff source n d) (hn : n.IsBelow root)
    (hread : IsReadFrom source n d) (hkind : ∀ kind, d.nodeKind? = some kind → n.kind = kind) :
    Stems source root d where
  excerpts := h.excerpts.mono hn
  within e he kind hk := by
    rcases h.within e he with rfl | ⟨c, hc, he⟩
    · exact ⟨n, hn, hkind kind hk, hread, h.excerpts⟩
    · exact (hc.mono hn).within e he kind hk

theorem isReadOff_member {m : Member} (h : AreFrom source n m.excerpts) :
    IsReadOff source n (.member m) where
  excerpts := h
  within _ he := .inl (List.mem_singleton.mp he)

/-- What is in a declaration with members is the declaration itself or in a member. -/
theorem isReadOff_of_members {d : Declaration} {head : List Excerpt} {members : List Declaration}
    (hexcerpts : d.excerpts = head ++ Declaration.excerptsAll members)
    (hwithin : d.within = d :: Declaration.withinAll members) (hhead : AreFrom source n head)
    (h : ∀ c ∈ members, Stems source n c) : IsReadOff source n d where
  excerpts := by
    rw [hexcerpts]
    exact areFrom_append hhead (areFrom_excerptsAll h)
  within e he := by
    rw [hwithin] at he
    rcases List.mem_cons.mp he with he | he
    · exact .inl he
    · obtain ⟨c, hc, he⟩ := Declaration.mem_withinAll.mp he
      exact .inr ⟨c, h c hc, he⟩

/-- A scope has no node of its own, so that its members may stem from anywhere below. -/
theorem stems_scope {s : Scope} {members : List Declaration} (hs : AreFrom source root s.excerpts)
    (h : ∀ d ∈ members, Stems source root d) : Stems source root (.scope s members) where
  excerpts := areFrom_append hs (areFrom_excerptsAll h)
  within e he kind hk := by
    rcases List.mem_cons.mp he with rfl | he
    · cases hk
    · obtain ⟨d, hd, he⟩ := Declaration.mem_withinAll.mp he
      exact (h d hd).within e he kind hk

end Below

namespace Syntax

variable {source : Bytes}

/-! ## What is read off the children of a declaration -/

/-- A base type is an entry of a base list or a child of one. -/
theorem below_of_baseNode {root n base : Node} (hn : n.IsBelow root) (h : baseNode n = .ok base) :
    base.IsBelow root := by
  unfold baseNode at h
  split at h
  · split at h
    case h_1 type htype =>
      cases h
      exact .inside (List.mem_of_find?_eq_some htype) hn
    case h_2 =>
      cases hchildren : n.namedChildren with
      | nil => simp [hchildren] at h
      | cons first others =>
        have hmem : first ∈ n.namedChildren := by simp [hchildren]
        simp only [hchildren, Except.ok.injEq] at h
        subst h
        exact .inside (List.mem_filter.mp hmem).1 hn
  · cases h
    exact hn

section Readers

variable {root : Node} {nodes : List Node} (hnodes : ∀ n ∈ nodes, n.IsBelow root)

include hnodes

theorem below_of_labelled? (label : String) : ∀ n ∈ labelled? label nodes, n.IsBelow root :=
  fun n hn => hnodes n (List.mem_of_find?_eq_some hn)

theorem below_of_labelledOrOfKind? {label : String} {kinds : List String} :
    ∀ n ∈ labelledOrOfKind? label kinds nodes, n.IsBelow root :=
  fun n hn => hnodes n (labelledOrOfKind?_mem hn)

theorem below_of_or (label : String) {o : Option Node} (h : ∀ n ∈ o, n.IsBelow root) :
    ∀ n ∈ (labelled? label nodes).or o, n.IsBelow root := by
  intro n hn
  rcases Option.or_eq_some_iff.mp hn with hn | ⟨-, hn⟩
  · exact below_of_labelled? hnodes label n hn
  · exact h n hn

theorem namespaceName_from :
    AreFrom source root (Scope.namespaceOf (namespaceName source nodes)).excerpts :=
  areFrom_cons (isVerbatim_textOf (below_of_labelledOrOfKind? hnodes)) areFrom_nil

theorem modifiers_verbatim : ∀ s ∈ modifiers source nodes, IsVerbatim source root s := by
  intro s hs
  obtain ⟨n, hn, rfl⟩ := List.mem_map.mp hs
  exact isVerbatim_text (hnodes n (List.mem_filter.mp hn).1)

theorem baseTexts_verbatim {texts : List String} (h : baseTexts source nodes = .ok texts) :
    ∀ s ∈ texts, IsVerbatim source root s := by
  induction nodes generalizing texts with
  | nil =>
    cases h
    intro s hs
    cases hs
  | cons n rest ih =>
    obtain ⟨hn, hrest⟩ := List.forall_mem_cons.mp hnodes
    cases hb : baseNode n with
    | error e => simp [baseTexts, hb, bind, Except.bind] at h
    | ok base =>
      cases ht : baseTexts source rest with
      | error e => simp [baseTexts, hb, ht, bind, Except.bind] at h
      | ok others =>
        simp only [baseTexts, hb, ht, bind, Except.bind, pure, Except.pure, Except.ok.injEq] at h
        subst h
        exact List.forall_mem_cons.mpr ⟨isVerbatim_text (below_of_baseNode hn hb), ih hrest ht⟩

theorem baseTypes_verbatim {texts : List String} (h : baseTypes source nodes = .ok texts) :
    ∀ s ∈ texts, IsVerbatim source root s := by
  unfold baseTypes at h
  split at h
  case h_1 list hlist =>
    have hbelow : list.IsBelow root := hnodes list (List.mem_of_find?_eq_some hlist)
    refine baseTexts_verbatim (fun n hn => .inside ?_ hbelow) h
    exact (List.mem_filter.mp (List.mem_filter.mp hn).1).1
  case h_2 =>
    cases h
    intro s hs
    cases hs

/-- A value is a sibling of the equals sign or stands in a clause. -/
theorem below_of_valueNodeAfter? {seen : Bool} {value : Node}
    (h : valueNodeAfter? seen nodes = some value) : value.IsBelow root := by
  fun_induction valueNodeAfter? seen nodes with
  | case1 => cases h
  | case2 seen n rest =>
    have hmem := (List.mem_filter.mp (List.mem_of_find?_eq_some h)).1
    exact .inside hmem (hnodes n (by simp))
  | case3 seen n rest _ _ ih => exact ih (List.forall_mem_cons.mp hnodes).2 h
  | case4 seen n rest =>
    cases h
    exact (List.forall_mem_cons.mp hnodes).1
  | case5 seen n rest _ _ _ ih => exact ih (List.forall_mem_cons.mp hnodes).2 h

theorem initializer?_from :
    AreFrom source root ((initializer? source nodes).toList.map .initializer) := by
  refine List.forall_mem_map.mpr fun i hi => ?_
  obtain ⟨value, hvalue, rfl⟩ := Option.map_eq_some_iff.mp (Option.mem_toList.mp hi)
  refine ⟨value, below_of_valueNodeAfter? hnodes hvalue, rfl, ?_⟩
  by_cases hdefault : value.kind = "default_expression" ∧ value.text source = "default"
  · exact .inr ⟨if_pos hdefault, hdefault.2⟩
  · exact .inl (if_neg hdefault)

/-- A parameter is read below its own node or, without one, off two entries of the list. The type of
an open array has been met before. -/
theorem parametersAfter_from {array : OpenArray}
    (harray : ∀ type, array = .typed type → type.IsBelow root) :
    AreFrom source root (parameterExcerpts (parametersAfter source array nodes)) := by
  unfold parameterExcerpts
  fun_induction parametersAfter source array nodes with
  | case1 => exact areFrom_nil
  -- the node of a parameter; then the entries of an array: its mark, its type, its name, others
  | case2 array n rest _ ih =>
    obtain ⟨hn, hrest⟩ := List.forall_mem_cons.mp hnodes
    have hchildren : ∀ m ∈ n.children, m.IsBelow root := fun m hm => .inside hm hn
    have hname : ∀ m ∈ (labelled? "name" n.children).or
        ((n.children.filter (·.kind == "identifier")).getLast?), m.IsBelow root := by
      refine below_of_or hchildren _ fun m hm => hchildren m ?_
      exact (List.mem_filter.mp (List.mem_of_getLast? hm)).1
    refine areFrom_cons (isVerbatim_textOf hname) (areFrom_cons ?_ (ih hrest harray))
    exact isVerbatim_textOf (below_of_labelled? hchildren _)
  | case3 array n rest _ _ ih => exact ih (List.forall_mem_cons.mp hnodes).2 nofun
  | case4 n rest _ _ _ ih => exact ih (List.forall_mem_cons.mp hnodes).2 nofun
  | case5 n rest _ _ _ ih =>
    refine ih (List.forall_mem_cons.mp hnodes).2 fun type htype => ?_
    cases htype
    exact hnodes n (by simp)
  | case6 n rest _ _ _ type ih =>
    refine areFrom_cons (isVerbatim_text (hnodes n (by simp))) ?_
    refine areFrom_cons (isVerbatim_text (harray type rfl)) ?_
    exact ih (List.forall_mem_cons.mp hnodes).2 nofun
  | case7 array n rest _ _ _ ih => exact ih (List.forall_mem_cons.mp hnodes).2 harray

theorem parameters_from :
    AreFrom source root (parameterExcerpts (parameters source (parameterListNode? nodes))) := by
  cases hlist : parameterListNode? nodes with
  | none => exact areFrom_nil
  | some list =>
    have hbelow : list.IsBelow root := below_of_labelledOrOfKind? hnodes list hlist
    exact parametersAfter_from (fun n hn => .inside hn hbelow) nofun

/-! ### Members -/

theorem constructor?_from {m : Member} (h : constructor? source nodes = some m) :
    m.nodeKind = "constructor_declaration" ∧ AreFrom source root m.excerpts := by
  obtain ⟨name, hname, h⟩ := Option.bind_eq_some_iff.mp h
  cases h
  refine ⟨rfl, areFrom_cons (isVerbatim_text (below_of_labelled? hnodes _ name hname)) ?_⟩
  exact areFrom_append (areFrom_texts (modifiers_verbatim hnodes)) (parameters_from hnodes)

theorem method?_from {m : Member} (h : method? source nodes = some m) :
    m.nodeKind = "method_declaration" ∧ AreFrom source root m.excerpts := by
  obtain ⟨name, hname, h⟩ := Option.bind_eq_some_iff.mp h
  cases h
  have hreturns := below_of_or hnodes "returns" (below_of_labelled? hnodes "type")
  refine ⟨rfl, areFrom_cons (isVerbatim_text (below_of_labelled? hnodes _ name hname)) ?_⟩
  refine areFrom_cons (isVerbatim_textOf hreturns) ?_
  exact areFrom_append (areFrom_texts (modifiers_verbatim hnodes)) (parameters_from hnodes)

end Readers

theorem declarator?_from {root n : Node} {v : Variable} (hn : n.IsBelow root)
    (h : declarator? source n = some v) : AreFrom source root v.excerpts := by
  unfold declarator? at h
  split at h
  · obtain ⟨name, hname, h⟩ := Option.bind_eq_some_iff.mp h
    cases h
    have hchildren : ∀ m ∈ n.children, m.IsBelow root := fun m hm => .inside hm hn
    refine areFrom_cons (isVerbatim_text ?_) (initializer?_from hchildren)
    exact below_of_labelledOrOfKind? hchildren name hname
  · cases h

/-- Without a label, the keyword of an accessor is the kind of a child, which is a keyword of the
language and not a text. -/
theorem accessor?_from {root n : Node} {a : Accessor} (hn : n.IsBelow root)
    (h : accessor? source n = some a) : AreFrom source root a.excerpts := by
  have hchildren : ∀ m ∈ n.children, m.IsBelow root := fun m hm => .inside hm hn
  have hkeyword : (Excerpt.keyword (accessorKeyword source n.children)).IsFrom source root := by
    simp only [accessorKeyword]
    split
    · cases hword : ofKind? accessorKeywords n.children with
      | none => exact .inl (.inl rfl)
      | some word =>
        have hmem := List.find?_some hword
        exact .inr (List.contains_iff_mem.mp hmem)
    · exact .inl (isVerbatim_textOf (below_of_labelled? hchildren _))
  simp only [accessor?] at h
  split at h
  · split at h
    · cases h
    · cases h
      exact areFrom_cons hkeyword (areFrom_texts (modifiers_verbatim hchildren))
  · cases h

theorem enumMember?_from {n : Node} {m : Member} (h : enumMember? source n = some m) :
    n.kind = m.nodeKind ∧ AreFrom source n m.excerpts := by
  unfold enumMember? at h
  split at h
  case isTrue hkind =>
    obtain ⟨name, hname, h⟩ := Option.bind_eq_some_iff.mp h
    cases h
    have hchildren : ∀ k ∈ n.children, k.IsBelow n := fun k hk => .child hk
    refine ⟨hkind, areFrom_cons (isVerbatim_text ?_) (areFrom_texts fun s hs => ?_)⟩
    · exact below_of_labelledOrOfKind? hchildren name hname
    · obtain ⟨value, hvalue, rfl⟩ := Option.map_eq_some_iff.mp (Option.mem_toList.mp hs)
      exact isVerbatim_text (below_of_valueNodeAfter? hchildren hvalue)
  case isFalse => cases h

section Members

variable {root : Node} {nodes : List Node} (hnodes : ∀ n ∈ nodes, n.IsBelow root)

include hnodes

theorem field?_from {m : Member} (h : field? source nodes = some m) :
    m.nodeKind = "field_declaration" ∧ AreFrom source root m.excerpts := by
  obtain ⟨declaration, hdeclaration, h⟩ := Option.bind_eq_some_iff.mp h
  cases h
  have hbelow : declaration.IsBelow root := hnodes _ (List.mem_of_find?_eq_some hdeclaration)
  have hchildren : ∀ n ∈ declaration.children, n.IsBelow root := fun n hn => .inside hn hbelow
  have htype : ∀ n ∈ (labelled? "type" declaration.children).or declaration.namedChildren.head?,
      n.IsBelow root := by
    refine below_of_or hchildren _ fun n hn => hchildren n ?_
    exact (List.mem_filter.mp (List.mem_of_head? hn)).1
  refine ⟨rfl, areFrom_cons (isVerbatim_textOf htype) ?_⟩
  refine areFrom_append (areFrom_texts (modifiers_verbatim hnodes)) (areFrom_flatMap fun v hv => ?_)
  obtain ⟨n, hn, hv⟩ := List.mem_filterMap.mp hv
  exact declarator?_from (hchildren n hn) hv

theorem property?_from {m : Member} (h : property? source nodes = some m) :
    m.nodeKind = "property_declaration" ∧ AreFrom source root m.excerpts := by
  obtain ⟨name, hname, h⟩ := Option.bind_eq_some_iff.mp h
  cases h
  refine ⟨rfl, areFrom_cons (isVerbatim_text (below_of_labelled? hnodes _ name hname)) ?_⟩
  refine areFrom_cons (isVerbatim_textOf (below_of_labelled? hnodes _)) ?_
  refine areFrom_append (areFrom_texts (modifiers_verbatim hnodes)) ?_
  cases hlist : labelledOrOfKind? "accessors" ["accessor_list"] nodes with
  | none => exact areFrom_nil
  | some list =>
    have hbelow : list.IsBelow root := below_of_labelledOrOfKind? hnodes list hlist
    refine areFrom_append (areFrom_flatMap fun a ha => ?_) (initializer?_from hnodes)
    obtain ⟨n, hn, ha⟩ := List.mem_filterMap.mp ha
    exact accessor?_from (.inside hn hbelow) ha

theorem typeHead_from {name : Node} {head : TypeHead} (hname : name.IsBelow root)
    (h : typeHead source name nodes = .ok head) : AreFrom source root head.excerpts := by
  unfold typeHead at h
  cases hbases : baseTypes source nodes with
  | error e => simp [hbases, bind, Except.bind] at h
  | ok bases =>
    simp only [hbases, bind, Except.bind, pure, Except.pure, Except.ok.injEq] at h
    subst h
    refine areFrom_cons (isVerbatim_text hname) ?_
    refine areFrom_cons (isVerbatim_textOf (below_of_labelledOrOfKind? hnodes)) ?_
    refine areFrom_append (areFrom_texts (modifiers_verbatim hnodes)) ?_
    exact areFrom_texts (baseTypes_verbatim hnodes hbases)

end Members

/-! ## The outline -/

/-- A member of an enumeration stems from its node. -/
theorem stems_enumMember {root n : Node} {m : Member} (hn : n.IsBelow root)
    (h : enumMember? source n = some m) : Stems source root (.member m) := by
  obtain ⟨hkind, hexcerpts⟩ := enumMember?_from h
  refine (isReadOff_member hexcerpts).stems hn (.inr ⟨m, h, rfl⟩) ?_
  intro kind hk
  exact hkind.trans (Option.some.inj hk)

theorem enumMembers_stem {root : Node} {body : Option Node} (h : ∀ n ∈ body, n.IsBelow root) :
    ∀ d ∈ (enumMembers source body).map .member, Stems source root d := by
  refine List.forall_mem_map.mpr fun m hm => ?_
  cases body with
  | none => cases hm
  | some body =>
    obtain ⟨n, hn, hm⟩ := List.mem_filterMap.mp hm
    exact stems_enumMember (.inside hn (h body rfl)) hm

/-- A member by itself is read off the node that it is read from. -/
theorem readOff_of_member {n : Node} {member? : Option Member} {kind : String}
    (hfrom : ∀ {m}, member? = some m → m.nodeKind = kind ∧ AreFrom source n m.excerpts)
    {d : Declaration} (h : member?.map .member = some d) :
    d.nodeKind? = some kind ∧ IsReadOff source n d := by
  obtain ⟨m, hm, rfl⟩ := Option.map_eq_some_iff.mp h
  obtain ⟨hkind, hexcerpts⟩ := hfrom hm
  exact ⟨congrArg some hkind, isReadOff_member hexcerpts⟩

/-- A declaration without declarations inside is read off its node. -/
theorem plain?_readOff {n : Node} {form : Form} {d : Declaration}
    (h : plain? source n.children form = some d) :
    d.nodeKind? = form.kind? ∧ IsReadOff source n d := by
  have hchildren : ∀ k ∈ n.children, k.IsBelow n := fun k hk => .child hk
  cases form with
  | enumeration =>
    obtain ⟨name, hname, h⟩ := Option.bind_eq_some_iff.mp h
    cases h
    refine ⟨rfl, isReadOff_of_members rfl rfl ?_ (enumMembers_stem ?_)⟩
    case refine_2 => exact below_of_labelledOrOfKind? hchildren
    refine areFrom_cons (isVerbatim_text (below_of_labelled? hchildren _ name hname)) ?_
    exact areFrom_texts (modifiers_verbatim hchildren)
  | constructor => exact readOff_of_member (constructor?_from hchildren) h
  | field => exact readOff_of_member (field?_from hchildren) h
  | property => exact readOff_of_member (property?_from hchildren) h
  | method => exact readOff_of_member (method?_from hchildren) h
  | _ => cases h

/-- The children of a body are below its declaration. -/
theorem below_of_bodyNodes (n : Node) : ∀ m ∈ bodyNodes n.children, m.IsBelow n := by
  intro m hm
  unfold bodyNodes at hm
  cases hbody : labelledOrOfKind? "body" ["declaration_list"] n.children with
  | none => simp [hbody] at hm
  | some body =>
    simp only [hbody, Option.map_some, Option.getD_some] at hm
    exact .inside hm (.child (labelledOrOfKind?_mem hbody))

/-- What nodes declare, with what comes after them, stems from below any node that they are below.
-/
def DeclareBelow (source : Bytes) (nodes : List Node) : Prop :=
  ∀ (root : Node) (after : Outline (List Declaration)) (ds : List Declaration),
    (∀ n ∈ nodes, n.IsBelow root) →
    (∀ others, after.outcome = .ok others → ∀ d ∈ others, Stems source root d) →
    (declarations source nodes after).outcome = .ok ds → ∀ d ∈ ds, Stems source root d

/-- **One node.** What a node declares stems from it, if what stands inside does. -/
theorem declaration_stems {root n : Node} {d : Declaration} (hn : n.IsBelow root)
    (hinner : DeclareBelow source (innerNodes n))
    (h : (declaration source n).outcome = .ok (some d)) : Stems source root d := by
  have hread : IsReadFrom source n d := .inl h
  have hchildren : ∀ k ∈ n.children, k.IsBelow n := fun k hk => .child hk
  have hkind (hk : d.nodeKind? = (formOf n.kind).kind?) (kind : String)
      (hd : d.nodeKind? = some kind) : n.kind = kind :=
    kind_of_formOf (hk.symm.trans hd)
  have hnone : ∀ others, (pure [] : Outline (List Declaration)).outcome = .ok others →
      ∀ d ∈ others, Stems source n d := by
    intro others hothers
    cases hothers
    exact fun _ hd => by cases hd
  obtain ⟨info, children⟩ := n
  have hbelow : ∀ k ∈ bodyNodes children, k.IsBelow (.mk info children) :=
    below_of_bodyNodes (.mk info children)
  rw [declaration] at h
  rw [innerNodes] at hinner
  cases hform : formOf info.kind with
  | namespaceBlock =>
    simp only [hform, bodyDeclarations_eq] at h hinner
    obtain ⟨members, hmembers, h⟩ := Logged.bind_outcome_eq_ok.mp h
    cases h
    have hstems := hinner _ _ members hbelow hnone hmembers
    exact (stems_scope (namespaceName_from hchildren) hstems).mono hn
  | type kind =>
    simp only [hform] at h hinner
    cases hname : labelled? "name" children with
    | none => simp [hname] at h
    | some name =>
      simp only [hname, bodyDeclarations_eq, Option.isSome_some, if_true] at h hinner
      obtain ⟨head, hhead, h⟩ := Logged.bind_outcome_eq_ok.mp h
      obtain ⟨members, hmembers, h⟩ := Logged.bind_outcome_eq_ok.mp h
      cases h
      have hstems := hinner _ _ members hbelow hnone hmembers
      have hfrom := typeHead_from hchildren (below_of_labelled? hchildren _ name hname) hhead
      have hoff : IsReadOff source (.mk info children) (.type kind head members) :=
        isReadOff_of_members rfl rfl hfrom hstems
      exact hoff.stems hn hread (hkind (congrArg Form.kind? hform.symm))
  | skipped =>
    simp only [hform, Logged.notice_bind_outcome, Logged.outcome_pure, Except.ok.injEq] at h
    cases h
  | enumeration | constructor | field | property | method | fileNamespace | other =>
    -- nothing stands inside these
    simp only [hform, Logged.outcome_pure, Except.ok.injEq] at h
    have hplain : plain? source (Node.mk info children).children (formOf info.kind) = some d := by
      rw [hform]
      exact h
    obtain ⟨hd, hoff⟩ := plain?_readOff hplain
    exact hoff.stems hn hread (hkind hd)

/-- **All nodes of a list.** What they declare, with what comes after them, stems from below. -/
theorem declarations_stem (nodes : List Node) : DeclareBelow source nodes := by
  fun_induction reached nodes with
  | case1 =>
    intro root after ds hnodes hafter h
    rw [declarations] at h
    exact hafter ds h
  | case2 n rest ihInner ihRest =>
    intro root after ds hnodes hafter h
    obtain ⟨hn, hrest⟩ := List.forall_mem_cons.mp hnodes
    by_cases hfile : formOf n.kind = .fileNamespace
    · -- the rest moves into the namespace, but not away from the root
      have hinner : innerNodes n = n.children := by
        obtain ⟨info, children⟩ := n
        simp only [Node.kind, Node.info] at hfile
        rw [innerNodes, hfile, Node.children]
      rw [hinner] at ihInner
      rw [declarations_cons_file source hfile] at h
      obtain ⟨members, hmembers, h⟩ := Logged.bind_outcome_eq_ok.mp h
      cases h
      have hchildren : ∀ k ∈ n.children, k.IsBelow root := fun k hk => .inside hk hn
      refine List.forall_mem_singleton.mpr (stems_scope (namespaceName_from hchildren) ?_)
      refine ihInner root _ members hchildren (fun others hothers => ?_) hmembers
      exact ihRest root after others hrest hafter hothers
    · rw [declarations_cons source hfile] at h
      obtain ⟨found, hfound, h⟩ := Logged.bind_outcome_eq_ok.mp h
      obtain ⟨others, hothers, h⟩ := Logged.bind_outcome_eq_ok.mp h
      cases h
      have hrests := ihRest root after others hrest hafter hothers
      refine List.forall_mem_append.mpr ⟨fun d hd => ?_, hrests⟩
      rw [Option.mem_toList.mp hd] at hfound
      exact declaration_stems hn ihInner hfound

/-- **All that a unit says is verbatim and local.** Each declaration in it, scopes apart, was read
from a node of its kind, and all that it carries was read below that node, what is carried by the
declarations in it included. -/
theorem outline_verbatim {source : Bytes} {tree : SyntaxTree} {filePath : String}
    {unit : Declaration} (h : (outline source tree filePath).outcome = .ok unit) :
    ∀ d ∈ unit.within, ∀ kind, d.nodeKind? = some kind →
      ∃ n : Node, n.IsBelow tree.root ∧ n.kind = kind ∧ IsReadFrom source n d ∧
        ∀ x ∈ d.excerpts, x.IsFrom source n := by
  rw [outline_outcome] at h
  cases hmembers : (declarations source tree.root.children (pure [])).outcome with
  | error e => simp [hmembers, Except.map] at h
  | ok members =>
    simp only [hmembers, Except.map, Except.ok.injEq] at h
    subst h
    have hstems := declarations_stem tree.root.children tree.root (pure []) members
      (fun n hn => .child hn) (fun others hothers => ?_) hmembers
    · exact (stems_scope areFrom_nil hstems).within
    · cases hothers
      exact fun _ hd => by cases hd

/-- A file-scoped namespace, and beside it a class with a property that has an unlabelled accessor
and a bare default value. -/
def defaultedProperty : SyntaxTree where
  root := letterNode "compilation_unit" none 0 [
    letterNode "file_scoped_namespace_declaration" none 0
      [letterNode "identifier" (some "name") 0 []],
    letterNode "class_declaration" none 1 [
      letterNode "identifier" (some "name") 1 [],
      letterNode "declaration_list" (some "body") 2 [
        letterNode "property_declaration" none 2 [
          letterNode "predefined_type" (some "type") 2 [],
          letterNode "identifier" (some "name") 3 [],
          letterNode "accessor_list" (some "accessors") 4
            [letterNode "accessor_declaration" none 4 [letterNode "get" none 4 []]],
          letterNode "=" none 4 [],
          .mk ⟨"default_expression", true, none, 5, 12, 0⟩ []]]]]

theorem outline_verbatim_defaultedProperty :
    let source := Text.Utf8.encode "NCTP=default"
    let property : Declaration :=
      .member (.property "P" "T" [] (some [⟨"get", []⟩]) (some ⟨"default", "default_literal"⟩))
    let unit : Declaration := .scope (.compilationUnit "f.cs")
      [.scope (.namespaceOf "N") [plainClass "C" [property]]]
    (outline source defaultedProperty "f.cs").outcome = .ok unit ∧ property ∈ unit.within ∧
      ∃ n : Node, n.IsBelow defaultedProperty.root ∧ n.kind = "property_declaration" ∧
        IsReadFrom source n property ∧ ∀ x ∈ property.excerpts, x.IsFrom source n := by
  intro source property unit
  have hok : (outline source defaultedProperty "f.cs").outcome = .ok unit := by decide +kernel
  have hmem : property ∈ unit.within := by decide
  exact ⟨hok, hmem, outline_verbatim hok property hmem _ rfl⟩

end Syntax

end ClassChart
