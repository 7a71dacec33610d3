import ClassChart.Proofs.SameReading
import Mathlib.Logic.Relation

/-!
# Layouts of different grammars

Releases of a grammar lay the same source out in different ways. What follows a file-scoped
namespace stands inside it or beside it, an initial value stands in a clause of its own or among the
other children, and the type that a method returns has one of two labels. The outline of a source
does not depend on the layout.

## Main definitions

* `Spliced`, `Unwrapped`, `Relabelled`: the three changes of layout, in a list of children
* `Relaid`: one change of layout in a node or in what is below it
* `LayoutChange`: one change of layout in a syntax tree

## Main results

* `sameNode_of_relaid`: a change of layout leaves a node that is read the same
* `outline_eq_of_layoutChanges`: the outline is the same after any number of changes
-/

namespace ClassChart.Syntax

open Text (Bytes)

/-! ## The changes -/

/-- The end of a file-scoped namespace is moved behind it. -/
inductive Spliced : List Node → List Node → Prop where
  | intro (before kept moved after : List Node) {info info' : NodeInfo}
      (hinfo : formOf info.kind = .fileNamespace) (hinfo' : formOf info'.kind = .fileNamespace)
      (hname : (labelled? "name" kept).isSome) :
      Spliced (before ++ .mk info (kept ++ moved) :: after)
        (before ++ .mk info' kept :: (moved ++ after))

/-- The labels by which the parts of a declaration with an initial value are looked for. -/
def partLabels : List String :=
  ["name", "type", "accessors"]

/-- No part of a declaration with an initial value is labelled so. -/
def IsPlain (label : Option String) : Prop :=
  ∀ part ∈ partLabels, label ≠ some part

instance (label : Option String) : Decidable (IsPlain label) :=
  inferInstanceAs (Decidable (∀ part ∈ partLabels, label ≠ some part))

/-- The clause of an initial value is replaced by its children. -/
inductive Unwrapped : List Node → List Node → Prop where
  | intro (before tokens rest after : List Node) {equals value : Node} {info : NodeInfo}
      (hinfo : info.kind = "equals_value_clause")
      (hbefore : ∀ n ∈ before, n.kind ≠ "=" ∧ n.kind ≠ "equals_value_clause")
      (hequals : equals.kind = "=" ∧ equals.named = false)
      (htokens : ∀ n ∈ tokens, n.kind = "comment" ∨ n.named = false)
      (hvalue : value.named = true ∧ value.kind ≠ "comment" ∧ value.kind ≠ "=")
      (hname : ∃ n ∈ before ++ after, n.label = some "name")
      (hclause : IsPlain info.label)
      (hmoved : ∀ n ∈ equals :: tokens ++ value :: rest, IsPlain n.label ∧
        n.kind ∉ ["modifier", "accessor_list", "equals_value_clause"]) :
      Unwrapped (before ++ .mk info (equals :: tokens ++ value :: rest) :: after)
        (before ++ ((equals :: tokens ++ value :: rest) ++ after))

/-- The only child that is labelled as what a method returns is labelled as a type. -/
inductive Relabelled : List Node → List Node → Prop where
  | intro (before after : List Node) {children : List Node} {info : NodeInfo}
      (hlabel : info.label = some "returns")
      (hreturns : ∀ n ∈ before ++ after, n.label ≠ some "returns")
      (htype : ∀ n ∈ before, n.label ≠ some "type") :
      Relabelled (before ++ .mk info children :: after)
        (before ++ .mk { info with label := some "type" } children :: after)

/-- A node of this kind declares nothing in any list, whatever its children are. -/
def IsSealed (kind : String) : Prop :=
  (formOf kind = .other ∨ formOf kind = .skipped) ∧
    kind ∉ ["enum_member_declaration", "accessor_declaration", "parameter", "parameter_array"]

/-- The label of the part of a declaration that is read as a list. -/
def listLabel? : Form → Option String
  | .namespaceBlock | .type _ | .enumeration => some "body"
  | .constructor | .method => some "parameters"
  | .property => some "accessors"
  | _ => none

/-- A child of a node of kind `parent` is not labelled as the list that the node is read for. -/
def IsUnlisted (parent : String) (info : NodeInfo) : Prop :=
  ∀ label, listLabel? (formOf parent) = some label → info.label ≠ some label

/-- One change of layout in a child of a node of kind `parent`, or in what is below the child. The
declaration that is changed has one role: it is not read as a list at the same time. -/
inductive Relaid : (parent : String) → Node → Node → Prop where
  /-- In the body of a namespace or a type, if it is not the base list of the type too. The
  declaration may be read as a list, if the body does not matter there. -/
  | splice {parent : String} {info inner : NodeInfo} {before after cs ds : List Node}
      (h : Spliced cs ds) (hbody : (formOf info.kind).hasBody)
      (hbases : inner.kind = "base_list" → formOf info.kind = .namespaceBlock)
      (hrole : IsUnlisted parent info ∨ IsSealed inner.kind) :
      Relaid parent (.mk info (before ++ .mk inner cs :: after))
        (.mk info (before ++ .mk inner ds :: after))
  /-- In a declaration with an initial value. -/
  | unwrap {parent : String} {info : NodeInfo} {cs ds : List Node} (h : Unwrapped cs ds)
      (hkind : info.kind ∈ valueKinds) (hrole : IsUnlisted parent info) :
      Relaid parent (.mk info cs) (.mk info ds)
  | relabel {parent : String} {info : NodeInfo} {cs ds : List Node} (h : Relabelled cs ds)
      (hkind : info.kind = "method_declaration") : Relaid parent (.mk info cs) (.mk info ds)
  | child {parent : String} {info : NodeInfo} (before after : List Node) {n m : Node}
      (h : Relaid info.kind n m) :
      Relaid parent (.mk info (before ++ n :: after)) (.mk info (before ++ m :: after))

/-- One change of layout in a syntax tree. Of the root only the list of its children is read,
whatever kind it has, and so its children are changed as those of any node. -/
inductive LayoutChange : SyntaxTree → SyntaxTree → Prop where
  | splice {info : NodeInfo} {cs ds : List Node} {hasError : Bool} (h : Spliced cs ds) :
      LayoutChange ⟨.mk info cs, hasError⟩ ⟨.mk info ds, hasError⟩
  /-- In the body of a root that is a namespace or a type. -/
  | spliceBody {info inner : NodeInfo} {before after cs ds : List Node} {hasError : Bool}
      (h : Spliced cs ds) (hrole : IsSealed inner.kind) :
      LayoutChange ⟨.mk info (before ++ .mk inner cs :: after), hasError⟩
        ⟨.mk info (before ++ .mk inner ds :: after), hasError⟩
  | relabel {info : NodeInfo} {cs ds : List Node} {hasError : Bool} (h : Relabelled cs ds) :
      LayoutChange ⟨.mk info cs, hasError⟩ ⟨.mk info ds, hasError⟩
  | child (parent : String) {info : NodeInfo} (before after : List Node) {n m : Node}
      {hasError : Bool} (h : Relaid parent n m) :
      LayoutChange ⟨.mk info (before ++ n :: after), hasError⟩
        ⟨.mk info (before ++ m :: after), hasError⟩

variable {source : Bytes} {parent : String} {info : NodeInfo} {cs ds before after : List Node}

/-! ## Nodes with one role -/

/-- Lists that differ in one node are related if that node is. -/
theorem forall₂_middle {R : Node → Node → Prop} (hrefl : ∀ n, R n n) {n m : Node} (h : R n m)
    (before after : List Node) : List.Forall₂ R (before ++ n :: after) (before ++ m :: after) :=
  List.rel_append (List.forall₂_same.mpr fun k _ => hrefl k)
    (.cons h (List.forall₂_same.mpr fun k _ => hrefl k))

theorem hasBody_cases {form : Form} (h : form.hasBody) :
    form = .namespaceBlock ∨ ∃ kind, form = .type kind := by
  cases form with
  | namespaceBlock => exact .inl rfl
  | type kind => exact .inr ⟨kind, rfl⟩
  | _ => cases h

/-- The kinds of nodes whose children are read in some way other than for a declaration with a body
or an initial value. -/
def partKinds : List String :=
  ["declaration_list", "enum_member_declaration_list", "parameter_list", "accessor_list",
    "base_list", "variable_declaration", "primary_constructor_base_type", "equals_value_clause",
    "file_scoped_namespace_declaration", "accessor_declaration", "parameter", "parameter_array"]

/-- A declaration that is not read as a list is the same node if it declares the same. -/
theorem sameNode_of_unlisted (hrole : IsUnlisted parent info) (hkind : info.kind ∉ partKinds)
    (hdeclaration : declaration source (.mk info cs) = declaration source (.mk info ds))
    (hmember : enumMember? source (.mk info cs) = enumMember? source (.mk info ds))
    (hdeclarator : declarator? source (.mk info cs) = declarator? source (.mk info ds)) :
    SameNode source parent (.mk info cs) (.mk info ds) := by
  have hne {kind : String} (hk : kind ∈ partKinds) : info.kind ≠ kind := by
    rintro rfl
    exact hkind hk
  -- the node is a list neither by its label nor by its kind
  have hunlisted (label : String) {kind : String} (hlabel : listLabel? (formOf parent) = some label)
      (hk : kind ∈ partKinds) (hlist : info.label = some label ∨ info.kind = kind) : False :=
    hlist.elim (hrole label hlabel) (hne hk)
  have hfile : formOf info.kind ≠ .fileNamespace := by
    intro hform
    have hk : info.kind = "file_scoped_namespace_declaration" := kind_of_formOf (by rw [hform]; rfl)
    exact hne (by decide) hk
  have hbase : info.kind ≠ "primary_constructor_base_type" := hne (by decide)
  exact {
    kind := rfl
    named := rfl
    text := rfl
    label := rfl
    listed := fun rest after => by
      rw [declarations_cons source (n := .mk info cs) hfile,
        declarations_cons source (n := .mk info ds) hfile, hdeclaration]
    enumMember := hmember
    accessor := by
      rw [accessor?_of_ne (hne (by decide)), accessor?_of_ne (hne (by decide))]
    parameter := fun hlist => (hlist.elim (hne (by decide)) (hne (by decide))).elim
    body := fun hparent hlist => by
      refine (hunlisted "body" ?_ (by decide) hlist).elim
      rcases hasBody_cases hparent with hp | ⟨kind, hp⟩ <;> rw [hp] <;> rfl
    enumBody := fun hparent hlist =>
      (hunlisted "body" (by rw [hparent]; rfl) (by decide) hlist).elim
    parameterList := fun hparent hlist => by
      refine (hunlisted "parameters" ?_ (by decide) hlist).elim
      generalize formOf parent = form at hparent
      cases form <;> first | rfl | cases hparent
    accessorList := fun hparent hlist =>
      (hunlisted "accessors" (by rw [hparent]; rfl) (by decide) hlist).elim
    baseList := fun _ _ hlist => (hne (by decide) hlist).elim
    fieldParts := fun _ hlist => (hne (by decide) hlist).elim
    declarator := fun _ => hdeclarator
    base := fun _ => by
      rw [baseNode_of_ne hbase, baseNode_of_ne hbase]
      rfl
    clause := fun _ hlist => (hne (by decide) hlist).elim }

/-! ## File-scoped namespaces -/

/-- Nodes are read with what follows them, however the list is cut. -/
theorem declarations_append (cs ds : List Node) (after : Outline (List Declaration)) :
    declarations source (cs ++ ds) after =
      declarations source cs (declarations source ds after) := by
  induction cs with
  | nil => rw [List.nil_append, declarations]
  | cons n cs ih =>
    rw [List.cons_append]
    by_cases hfile : formOf n.kind = .fileNamespace
    · rw [declarations_cons_file source hfile, declarations_cons_file source hfile, ih]
    · rw [declarations_cons source hfile, declarations_cons source hfile, ih]

/-- A name that is labelled is found among the first nodes already. -/
theorem namespaceName_append (hname : (labelled? "name" cs).isSome) (ds : List Node) :
    namespaceName source (cs ++ ds) = namespaceName source cs := by
  obtain ⟨name, hname⟩ := Option.isSome_iff_exists.mp hname
  have happend : labelled? "name" (cs ++ ds) = some name := by
    unfold labelled? at hname ⊢
    rw [List.find?_append, hname, Option.some_or]
  simp only [namespaceName, labelledOrOfKind?, hname, happend]

/-- A file-scoped namespace takes in what follows it, so the end of its own list may follow it. -/
theorem Spliced.declarations_eq (h : Spliced cs ds) (after : Outline (List Declaration)) :
    declarations source cs after = declarations source ds after := by
  obtain @⟨before, kept, moved, rest, info, info', hinfo, hinfo', hname⟩ := h
  rw [declarations_append, declarations_append,
    declarations_cons_file source (n := .mk info (kept ++ moved)) hinfo,
    declarations_cons_file source (n := .mk info' kept) hinfo']
  simp only [Node.children, declarations_append, namespaceName_append hname]

/-- A node of a sealed kind declares nothing, so its children do not matter in a list. -/
theorem sameEntry_of_sealed (hsealed : IsSealed info.kind) (cs ds : List Node) :
    SameEntry source (.mk info cs) (.mk info ds) := by
  obtain ⟨hform, hkinds⟩ := hsealed
  simp only [List.mem_cons, List.not_mem_nil, or_false, not_or] at hkinds
  -- its kind is none of those that a list is searched for
  obtain ⟨hmember, haccessor, hparameter, harray⟩ := hkinds
  have hfile : formOf info.kind ≠ .fileNamespace := by
    rcases hform with hform | hform <;> simp [hform]
  have hdeclaration : declaration source (.mk info cs) = declaration source (.mk info ds) := by
    rw [declaration, declaration]
    rcases hform with hform | hform <;> rw [hform]
  exact {
    kind := rfl
    named := rfl
    text := rfl
    listed := fun rest after => by
      rw [declarations_cons source (n := .mk info cs) hfile,
        declarations_cons source (n := .mk info ds) hfile, hdeclaration]
    enumMember := by rw [enumMember?_of_ne hmember, enumMember?_of_ne hmember]
    accessor := by rw [accessor?_of_ne haccessor, accessor?_of_ne haccessor]
    parameter := fun hkind => (hkind.elim hparameter harray).elim }

/-- In the body of a namespace or a type, the change does not show. -/
theorem Spliced.samePart (h : Spliced cs ds) (hparent : (formOf parent).hasBody)
    (hbases : info.kind = "base_list" → formOf parent = .namespaceBlock) :
    SamePart source parent (.mk info cs) (.mk info ds) where
  kind := rfl
  named := rfl
  text := rfl
  label := rfl
  body _ _ after := h.declarations_eq after
  -- a parent with a body is read for nothing else but its base list
  enumBody hform := by rw [hform] at hparent; cases hparent
  parameterList hform := by
    rcases hasBody_cases hparent with hp | ⟨kind, hp⟩ <;> rw [hp] at hform <;> cases hform
  accessorList hform := by rw [hform] at hparent; cases hparent
  baseList _ htype hkind := absurd (hbases hkind) htype
  fieldParts hform := by rw [hform] at hparent; cases hparent
  declarator hkind := by rw [hkind] at hparent; cases hparent
  base hkind := by rw [hkind] at hparent; cases hparent
  clause hkind := by
    simp only [valueKinds, List.mem_cons, List.not_mem_nil, or_false] at hkind
    rcases hkind with rfl | rfl | rfl <;> cases hparent

theorem not_mem_partKinds_of_hasBody (h : (formOf info.kind).hasBody) : info.kind ∉ partKinds := by
  have hnone : ∀ kind ∈ partKinds, (formOf kind).hasBody = false := by decide
  intro hkind
  rw [hnone _ hkind] at h
  cases h

theorem Spliced.sameNode {inner : NodeInfo} (h : Spliced cs ds) (hbody : (formOf info.kind).hasBody)
    (hbases : inner.kind = "base_list" → formOf info.kind = .namespaceBlock)
    (hrole : IsUnlisted parent info ∨ IsSealed inner.kind) (before after : List Node) :
    SameNode source parent (.mk info (before ++ .mk inner cs :: after))
      (.mk info (before ++ .mk inner ds :: after)) := by
  have hpart : SamePart source info.kind (.mk inner cs) (.mk inner ds) := h.samePart hbody hbases
  have hkind := not_mem_partKinds_of_hasBody hbody
  have hne {kind : String} (hk : (formOf kind).hasBody = false) : info.kind ≠ kind := by
    rintro rfl
    rw [hk] at hbody
    cases hbody
  -- either the parent is not looked at in a list, or the changed node is not
  rcases hrole with hrole | hsealed
  · refine sameNode_of_unlisted hrole hkind
      (declaration_congr (forall₂_middle .refl hpart before after)) ?_ ?_
    · rw [enumMember?_of_ne (hne (by decide)), enumMember?_of_ne (hne (by decide))]
    · rw [declarator?_of_ne (hne (by decide)), declarator?_of_ne (hne (by decide))]
  · have hentry : SameEntry source (.mk inner cs) (.mk inner ds) :=
      sameEntry_of_sealed hsealed cs ds
    exact sameNode_mk (forall₂_middle .refl
      ⟨hpart, hentry.listed, hentry.enumMember, hentry.accessor, hentry.parameter⟩ before after)

/-! ## Initial values -/

/-- A search passes over nodes in the middle that are not looked for. -/
theorem find?_middle {p : Node → Bool} {middle : List Node} (h : ∀ n ∈ middle, p n = false)
    (before after : List Node) :
    (before ++ (middle ++ after)).find? p = (before ++ after).find? p := by
  have hnone : middle.find? p = none := by
    rw [List.find?_eq_none]
    intro n hn
    simp [h n hn]
  rw [List.find?_append, List.find?_append, List.find?_append, hnone, Option.none_or]

theorem filter_middle {p : Node → Bool} {middle : List Node} (h : ∀ n ∈ middle, p n = false)
    (before after : List Node) :
    (before ++ (middle ++ after)).filter p = (before ++ after).filter p := by
  have hnil : middle.filter p = [] := by
    rw [List.filter_eq_nil_iff]
    intro n hn
    simp [h n hn]
  rw [List.filter_append, List.filter_append, List.filter_append, hnil, List.nil_append]

/-- What is read of a declaration with an initial value besides the value. -/
structure SameHeader (cs ds : List Node) : Prop where
  labelled : ∀ part ∈ partLabels, labelled? part cs = labelled? part ds
  accessorList : ofKind? ["accessor_list"] cs = ofKind? ["accessor_list"] ds
  modifiers : ∀ source, modifiers source cs = modifiers source ds

/-- Nodes that are no parts may stand among the children of a declaration. -/
theorem sameHeader_middle {middle : List Node} (hlabel : ∀ n ∈ middle, IsPlain n.label)
    (hkind : ∀ n ∈ middle, n.kind ∉ ["modifier", "accessor_list"]) (before after : List Node) :
    SameHeader (before ++ (middle ++ after)) (before ++ after) where
  labelled part hpart := find?_middle (fun n hn => by simp [hlabel n hn part hpart]) before after
  accessorList := by
    refine find?_middle (fun n hn => ?_) before after
    have hn := hkind n hn
    simp only [List.mem_cons, List.not_mem_nil, or_false, not_or] at hn
    simp [hn.2]
  modifiers source := by
    unfold Syntax.modifiers
    rw [filter_middle]
    intro n hn
    have hn := hkind n hn
    simp only [List.mem_cons, List.not_mem_nil, or_false, not_or] at hn
    simp [hn.1]

/-- Before an equals sign there is no value. -/
theorem valueNodeAfter?_before
    (h : ∀ n ∈ before, n.kind ≠ "=" ∧ n.kind ≠ "equals_value_clause") (nodes : List Node) :
    valueNodeAfter? false (before ++ nodes) = valueNodeAfter? false nodes := by
  induction before with
  | nil => rfl
  | cons n before ih =>
    obtain ⟨hequals, hclause⟩ := h n (by simp)
    rw [List.cons_append, valueNodeAfter?, if_neg hclause, if_neg hequals, Bool.false_and,
      Bool.false_and]
    exact ih fun k hk => h k (by simp [hk])

/-- After an equals sign, comments and tokens come before the value. -/
theorem valueNodeAfter?_tokens {tokens : List Node} {value : Node}
    (htokens : ∀ n ∈ tokens, n.kind = "comment" ∨ n.named = false)
    (hclause : ∀ n ∈ tokens, n.kind ≠ "equals_value_clause")
    (hvalue : value.named = true ∧ value.kind ≠ "comment" ∧ value.kind ≠ "=")
    (hvalueClause : value.kind ≠ "equals_value_clause") (rest : List Node) :
    valueNodeAfter? true (tokens ++ value :: rest) = some value := by
  obtain ⟨hnamed, hcomment, hequals⟩ := hvalue
  induction tokens with
  | nil => simp [valueNodeAfter?, hvalueClause, hequals, hnamed, hcomment]
  | cons n tokens ih =>
    have ih := ih (fun k hk => htokens k (by simp [hk])) fun k hk => hclause k (by simp [hk])
    have hskip : (true && n.named && n.kind != "comment") = false := by
      rcases htokens n (by simp) with hn | hn <;> simp [hn]
    rw [List.cons_append, valueNodeAfter?, if_neg (hclause n (by simp)), hskip]
    split
    · exact ih
    · exact ih

/-- A clause has the same value: its first named child that is no comment. -/
theorem find?_clause {tokens : List Node} {equals value : Node} (hequals : equals.named = false)
    (htokens : ∀ n ∈ tokens, n.kind = "comment" ∨ n.named = false)
    (hnamed : value.named = true) (hcomment : value.kind ≠ "comment") (rest : List Node) :
    ((equals :: tokens ++ value :: rest).filter (·.named)).find? (·.kind != "comment") =
      some value := by
  have hnone : ((equals :: tokens).filter (·.named)).find? (·.kind != "comment") = none := by
    rw [List.find?_eq_none]
    intro n hn
    obtain ⟨hn, hname⟩ := List.mem_filter.mp hn
    rcases List.mem_cons.mp hn with rfl | hn
    · simp [hequals] at hname
    · rcases htokens n hn with hn | hn
      · simp [hn]
      · simp [hn] at hname
  rw [List.filter_append, List.find?_append, hnone, Option.none_or, List.filter_cons, if_pos hnamed,
    List.find?_cons_of_pos (by simp [hcomment])]

theorem Unwrapped.sameHeader (h : Unwrapped cs ds) : SameHeader cs ds := by
  obtain @⟨before, tokens, rest, after, equals, value, info, hinfo, -, -, -, -, -, hclause,
    hmoved⟩ := h
  -- the clause is no part, and neither are the nodes that come in its place
  have hold : SameHeader (before ++ ([.mk info (equals :: tokens ++ value :: rest)] ++ after))
      (before ++ after) := by
    refine sameHeader_middle (fun n hn => ?_) (fun n hn => ?_) before after
    · rw [List.mem_singleton.mp hn]
      exact hclause
    · rw [List.mem_singleton.mp hn]
      simp [Node.kind, Node.info, hinfo]
  have hnew : SameHeader (before ++ ((equals :: tokens ++ value :: rest) ++ after))
      (before ++ after) := by
    refine sameHeader_middle (fun n hn => (hmoved n hn).1) (fun n hn hkind => ?_) before after
    apply (hmoved n hn).2
    rcases List.mem_cons.mp hkind with hkind | hkind
    · simp [hkind]
    · simp [List.mem_singleton.mp hkind]
  exact {
    labelled := fun part hpart => (hold.labelled part hpart).trans (hnew.labelled part hpart).symm
    accessorList := hold.accessorList.trans hnew.accessorList.symm
    modifiers := fun source => (hold.modifiers source).trans (hnew.modifiers source).symm }

theorem Unwrapped.valueNode?_eq (h : Unwrapped cs ds) : valueNode? cs = valueNode? ds := by
  obtain @⟨before, tokens, rest, after, equals, value, info, hinfo, hbefore, hequals, htokens,
    hvalue, -, -, hmoved⟩ := h
  have hno (n : Node) (hn : n ∈ equals :: tokens ++ value :: rest) :
      n.kind ≠ "equals_value_clause" := by
    intro hkind
    exact (hmoved n hn).2 (by simp [hkind])
  unfold valueNode?
  rw [valueNodeAfter?_before hbefore, valueNodeAfter?_before hbefore]
  calc valueNodeAfter? false (.mk info (equals :: tokens ++ value :: rest) :: after)
    _ = some value := by
        refine (if_pos hinfo).trans ?_
        exact find?_clause hequals.2 htokens hvalue.1 hvalue.2.1 rest
    _ = valueNodeAfter? true (tokens ++ value :: (rest ++ after)) := by
        refine (valueNodeAfter?_tokens htokens (fun n hn => hno n ?_) hvalue (hno value ?_) _).symm
        · simp [hn]
        · simp
    _ = valueNodeAfter? false ((equals :: tokens ++ value :: rest) ++ after) := by
        rw [List.cons_append, List.cons_append, List.append_assoc, List.cons_append,
          valueNodeAfter?, if_neg (hno equals (by simp)), if_pos hequals.1]

/-- The name is labelled, so that no other identifier is taken for it. -/
theorem Unwrapped.name_eq (h : Unwrapped cs ds) (kinds : List String) :
    labelledOrOfKind? "name" kinds cs = labelledOrOfKind? "name" kinds ds := by
  have hsame := h.sameHeader.labelled "name" (by simp [partLabels])
  obtain @⟨before, tokens, rest, after, equals, value, info, -, -, -, -, -, hname, -, -⟩ := h
  have hsome : (labelled? "name"
      (before ++ .mk info (equals :: tokens ++ value :: rest) :: after)).isSome := by
    obtain ⟨n, hn, hlabel⟩ := hname
    rw [labelled?, List.find?_isSome]
    refine ⟨n, ?_, by simp [hlabel]⟩
    rcases List.mem_append.mp hn with hn | hn <;> simp [hn]
  obtain ⟨name, hfound⟩ := Option.isSome_iff_exists.mp hsome
  rw [labelledOrOfKind?, labelledOrOfKind?, ← hsame, hfound]

theorem property?_of_unwrapped (h : Unwrapped cs ds) :
    property? source cs = property? source ds := by
  have hheader := h.sameHeader
  have hname := hheader.labelled "name" (by simp [partLabels])
  have htype := hheader.labelled "type" (by simp [partLabels])
  have haccessors := hheader.labelled "accessors" (by simp [partLabels])
  simp only [property?, labelledOrOfKind?, initializer?, hname, htype, haccessors,
    hheader.accessorList, hheader.modifiers, h.valueNode?_eq]

theorem formOf_of_mem_valueKinds {kind : String} (h : kind ∈ valueKinds) :
    kind = "property_declaration" ∨ formOf kind = .other := by
  simp only [valueKinds, List.mem_cons, List.not_mem_nil, or_false] at h
  rcases h with rfl | rfl | rfl
  · exact .inr (by decide)
  · exact .inr (by decide)
  · exact .inl rfl

section Unwrapped

variable (h : Unwrapped cs ds)

include h

theorem declaration_of_unwrapped (hkind : info.kind ∈ valueKinds) :
    declaration source (.mk info cs) = declaration source (.mk info ds) := by
  rw [declaration, declaration]
  rcases formOf_of_mem_valueKinds hkind with hproperty | hother
  · have hform : formOf info.kind = .property := by rw [hproperty]; decide
    rw [hform, property?_of_unwrapped h]
  · rw [hother]

theorem enumMember?_of_unwrapped :
    enumMember? source (.mk info cs) = enumMember? source (.mk info ds) := by
  by_cases hkind : info.kind = "enum_member_declaration"
  · rw [enumMember?_mk hkind, enumMember?_mk hkind, h.name_eq, h.valueNode?_eq]
  · rw [enumMember?_of_ne hkind, enumMember?_of_ne hkind]

theorem declarator?_of_unwrapped :
    declarator? source (.mk info cs) = declarator? source (.mk info ds) := by
  by_cases hkind : info.kind = "variable_declarator"
  · rw [declarator?_mk hkind, declarator?_mk hkind, h.name_eq, initializer?, initializer?,
      h.valueNode?_eq]
  · rw [declarator?_of_ne hkind, declarator?_of_ne hkind]

theorem Unwrapped.sameNode (hkind : info.kind ∈ valueKinds) (hrole : IsUnlisted parent info) :
    SameNode source parent (.mk info cs) (.mk info ds) := by
  have hparts : ∀ kind ∈ valueKinds, kind ∉ partKinds := by decide
  exact sameNode_of_unlisted hrole (hparts _ hkind) (declaration_of_unwrapped h hkind)
    (enumMember?_of_unwrapped h) (declarator?_of_unwrapped h)

end Unwrapped

/-! ## Return types -/

/-- In a list, the label of a node does not matter. -/
theorem sameEntry_withLabel (info : NodeInfo) (label : Option String) (children : List Node) :
    SameEntry source (.mk info children) (.mk { info with label } children) where
  kind := rfl
  named := rfl
  text := rfl
  listed rest after := by
    by_cases hfile : formOf info.kind = .fileNamespace
    · rw [declarations_cons_file source (n := .mk info children) hfile,
        declarations_cons_file source (n := .mk { info with label } children) hfile]
      rfl
    · rw [declarations_cons source (n := .mk info children) hfile,
        declarations_cons source (n := .mk { info with label } children) hfile, declaration,
        declaration]
  enumMember := rfl
  accessor := rfl
  parameter _ := rfl

theorem Relabelled.sameEntries (h : Relabelled cs ds) : List.Forall₂ (SameEntry source) cs ds := by
  obtain @⟨-, -, -, -, -, -, -⟩ := h
  exact forall₂_middle .refl (sameEntry_withLabel _ _ _) _ _

/-- The child is looked for neither by its old label nor by its new one. -/
theorem Relabelled.labelled?_eq (h : Relabelled cs ds) (label : String)
    (hreturns : label ≠ "returns") (htype : label ≠ "type") :
    labelled? label cs = labelled? label ds := by
  obtain @⟨before, after, children, info, hlabel, -, -⟩ := h
  simp only [labelled?, List.find?_append]
  rw [List.find?_cons_of_neg, List.find?_cons_of_neg]
  · simpa [Node.label, Node.info] using htype.symm
  · simpa [Node.label, Node.info, hlabel] using hreturns.symm

/-- The child is found by its old label, or else by its new one. -/
theorem Relabelled.returns_eq (h : Relabelled cs ds) :
    Node.textOf source ((labelled? "returns" cs).or (labelled? "type" cs)) =
      Node.textOf source ((labelled? "returns" ds).or (labelled? "type" ds)) := by
  obtain @⟨before, after, children, info, hlabel, hreturns, htype⟩ := h
  -- no other child has the old label, and none before this one has the new one
  have hbefore : before.find? (fun n => n.label == some "returns") = none :=
    List.find?_eq_none.mpr fun n hn => by simp [hreturns n (by simp [hn])]
  have hafter : after.find? (fun n => n.label == some "returns") = none :=
    List.find?_eq_none.mpr fun n hn => by simp [hreturns n (by simp [hn])]
  have htypes : before.find? (fun n => n.label == some "type") = none :=
    List.find?_eq_none.mpr fun n hn => by simp [htype n hn]
  have hold : labelled? "returns" (before ++ .mk info children :: after) =
      some (.mk info children) := by
    rw [labelled?, List.find?_append, hbefore, Option.none_or, List.find?_cons_of_pos]
    simp [Node.label, Node.info, hlabel]
  have hnone : labelled? "returns"
      (before ++ .mk { info with label := some "type" } children :: after) = none := by
    rw [labelled?, List.find?_append, hbefore, Option.none_or, List.find?_cons_of_neg, hafter]
    simp [Node.label, Node.info]
  have hnew : labelled? "type"
      (before ++ .mk { info with label := some "type" } children :: after) =
      some (.mk { info with label := some "type" } children) := by
    rw [labelled?, List.find?_append, htypes, Option.none_or, List.find?_cons_of_pos]
    simp [Node.label, Node.info]
  rw [hold, hnone, hnew]
  rfl

/-- The list of parameters has no new label, and its own children stay as they are. -/
theorem Relabelled.parameters_eq (h : Relabelled cs ds) :
    parameters source (parameterListNode? cs) = parameters source (parameterListNode? ds) := by
  have hlabelled := h.labelled?_eq "parameters" (by decide) (by decide)
  have hkind : (ofKind? ["parameter_list"] cs).map Node.children =
      (ofKind? ["parameter_list"] ds).map Node.children := by
    obtain @⟨before, after, children, info, -, -, -⟩ := h
    simp only [ofKind?, List.find?_append, List.find?_cons]
    cases before.find? fun n => ["parameter_list"].contains n.kind with
    | some n => rfl
    | none =>
      simp only [Option.none_or, Node.kind, Node.info]
      cases ["parameter_list"].contains info.kind <;> rfl
  -- only the children of the list are read, not its label
  have hlist (list : Option Node) : parameters source list =
      ((list.map Node.children).map (parametersAfter source .closed)).getD [] := by
    cases list <;> rfl
  rw [hlist, hlist, parameterListNode?, parameterListNode?, labelledOrOfKind?, labelledOrOfKind?,
    hlabelled]
  cases labelled? "parameters" ds with
  | some n => rfl
  | none => exact congrArg (fun o => (o.map (parametersAfter source .closed)).getD []) hkind

theorem method?_of_relabelled (h : Relabelled cs ds) : method? source cs = method? source ds := by
  have hname := h.labelled?_eq "name" (by decide) (by decide)
  have hmodifiers : modifiers source cs = modifiers source ds :=
    modifiers_congr (faces_of_entries h.sameEntries)
  simp only [method?, hname, h.returns_eq, hmodifiers, h.parameters_eq]

theorem Relabelled.sameNode (h : Relabelled cs ds) (hkind : info.kind = "method_declaration") :
    SameNode source parent (.mk info cs) (.mk info ds) := by
  -- a method is read as nothing else, so all but one of the fields hold for want of its kind
  have hne {kind : String} (hk : "method_declaration" ≠ kind) : info.kind ≠ kind := by
    rw [hkind]
    exact hk
  have hform : formOf info.kind = .method := by rw [hkind]; decide
  have hfile : formOf info.kind ≠ .fileNamespace := by rw [hform]; decide
  have hbase : info.kind ≠ "primary_constructor_base_type" := hne (by decide)
  exact {
    kind := rfl
    named := rfl
    text := rfl
    label := rfl
    listed := fun rest after => by
      rw [declarations_cons source (n := .mk info cs) hfile,
        declarations_cons source (n := .mk info ds) hfile, declaration, declaration, hform,
        method?_of_relabelled h]
    enumMember := by
      rw [enumMember?_of_ne (hne (by decide)), enumMember?_of_ne (hne (by decide))]
    accessor := by
      rw [accessor?_of_ne (hne (by decide)), accessor?_of_ne (hne (by decide))]
    parameter := fun hrole => (hrole.elim (hne (by decide)) (hne (by decide))).elim
    body := fun _ _ after => declarations_congr h.sameEntries after
    enumBody := fun _ _ => filterMap_congr_forall₂ h.sameEntries fun _ _ hn => hn.enumMember
    parameterList := fun _ _ => (parametersAfter_congr h.sameEntries).1
    accessorList := fun _ _ => filterMap_congr_forall₂ h.sameEntries fun _ _ hn => hn.accessor
    baseList := fun _ _ hrole => (hne (by decide) hrole).elim
    fieldParts := fun _ hrole => (hne (by decide) hrole).elim
    declarator := fun _ => by
      rw [declarator?_of_ne (hne (by decide)), declarator?_of_ne (hne (by decide))]
    base := fun _ => by
      rw [baseNode_of_ne hbase, baseNode_of_ne hbase]
      rfl
    clause := fun _ hrole => (hne (by decide) hrole).elim }

/-! ## Changes anywhere in a tree -/

/-- **A change of layout leaves a node that is read the same**, wherever below the node it is. -/
theorem sameNode_of_relaid {n m : Node} (h : Relaid parent n m) : SameNode source parent n m := by
  induction h with
  | splice h hbody hbases hrole => exact h.sameNode hbody hbases hrole _ _
  | unwrap h hkind hrole => exact h.sameNode hkind hrole
  | relabel h hkind => exact h.sameNode hkind
  | child before after _ ih => exact sameNode_mk (forall₂_middle .refl ih before after)

theorem outline_of_layoutChange {tree tree' : SyntaxTree} (h : LayoutChange tree tree')
    (filePath : String) : outline source tree filePath = outline source tree' filePath := by
  have houtline {cs ds : List Node} (info : NodeInfo) (hasError : Bool)
      (hsame : declarations source cs (pure []) = declarations source ds (pure [])) :
      outline source ⟨.mk info cs, hasError⟩ filePath =
        outline source ⟨.mk info ds, hasError⟩ filePath := by
    simp only [outline, Node.children, hsame]
  cases h with
  | splice h => exact houtline _ _ (h.declarations_eq _)
  | spliceBody _ hrole =>
    refine houtline _ _ (declarations_congr (forall₂_middle .refl ?_ _ _) _)
    exact sameEntry_of_sealed hrole _ _
  | relabel h => exact houtline _ _ (declarations_congr h.sameEntries _)
  | child parent before after h =>
    have hn : SameNode source parent _ _ := sameNode_of_relaid h
    exact houtline _ _ (declarations_congr (forall₂_middle .refl hn.toSameEntry before after) _)

/-- **The layout does not matter.** After any number of changes of layout, anywhere in the tree, a
source has the same outline: the same unit or the same failure, and the same notices. -/
theorem outline_eq_of_layoutChanges {source : Bytes} {tree tree' : SyntaxTree}
    (h : Relation.ReflTransGen LayoutChange tree tree') (filePath : String) :
    outline source tree' filePath = outline source tree filePath := by
  induction h with
  | refl => rfl
  | tail _ h ih => rw [← outline_of_layoutChange h, ih]

/-- A variable with a name and further children. -/
def namedVariable (value : List Node) : Node :=
  letterNode "variable_declarator" none 3 (letterNode "identifier" (some "name") 3 [] :: value)

/-- What stands in the clause of an initial value. -/
def valueParts : List Node :=
  [.mk ⟨"=", false, none, 3, 4, 0⟩ [], letterNode "comment" none 3 [],
    letterNode "integer_literal" none 4 []]

/-- A method with a name and a return type that is labelled in some way. -/
def labelledMethod (label : String) : Node :=
  letterNode "method_declaration" none 5
    [letterNode "predefined_type" (some label) 2 [], letterNode "identifier" (some "name") 5 []]

/-- A class with a field of one variable, and a method. -/
def smallClass (declarator method : Node) : Node :=
  letterNode "class_declaration" none 1 [
    letterNode "identifier" (some "name") 1 [],
    letterNode "declaration_list" (some "body") 2 [
      letterNode "field_declaration" none 2 [
        letterNode "variable_declaration" none 2
          [letterNode "predefined_type" (some "type") 2 [], declarator]],
      method]]

/-- A file that consists of a file-scoped namespace and more. -/
def namespaceFile (inside after : List Node) : SyntaxTree where
  root := letterNode "compilation_unit" none 0
    (letterNode "file_scoped_namespace_declaration" none 0
      (letterNode "identifier" (some "name") 0 [] :: inside) :: after)

/-- All three changes, one after the other. -/
theorem outline_eq_of_layoutChanges_smallClass :
    let source := Text.Utf8.encode "NCTV4M"
    let clause := letterNode "equals_value_clause" none 3 valueParts
    let new := namespaceFile [smallClass (namedVariable [clause]) (labelledMethod "returns")] []
    let old := namespaceFile [] [smallClass (namedVariable valueParts) (labelledMethod "type")]
    outline source old "f.cs" = outline source new "f.cs" ∧
      (outline source old "f.cs").outcome =
        .ok (.scope (.compilationUnit "f.cs") [.scope (.namespaceOf "N") [plainClass "C" [
          .member (.field "T" [⟨"V", some ⟨"4", "integer_literal"⟩⟩] []),
          .member (.method "M" "T" [] [])]]]) := by
  intro source clause new old
  have hvalue : Unwrapped [letterNode "identifier" (some "name") 3 [], clause]
      (letterNode "identifier" (some "name") 3 [] :: valueParts) := by
    refine .intro [letterNode "identifier" (some "name") 3 []]
      [letterNode "comment" none 3 []] [] [] rfl ?_ ⟨rfl, rfl⟩ ?_ ⟨rfl, ?_, ?_⟩
      ⟨_, List.mem_singleton_self _, rfl⟩ ?_ ?_ <;> decide
  have hreturns : Relabelled (labelledMethod "returns").children
      (labelledMethod "type").children := by
    refine .intro [] _ rfl ?_ ?_ <;> decide
  have hfirst : LayoutChange new
      (namespaceFile [smallClass (namedVariable valueParts) (labelledMethod "returns")] []) := by
    refine .child "compilation_unit" [] _ ?_
    refine .child [_] _ (.child [_] _ (.child [] _ ?_))
    refine .child [] _ (.child [_] _ (.unwrap hvalue (by decide) ?_))
    exact fun _ hlabel => by cases hlabel
  have hsecond : LayoutChange
      (namespaceFile [smallClass (namedVariable valueParts) (labelledMethod "returns")] [])
      (namespaceFile [smallClass (namedVariable valueParts) (labelledMethod "type")] []) := by
    refine .child "compilation_unit" [] _ ?_
    exact .child [_] _ (.child [_] _ (.child [_] _ (.relabel hreturns rfl)))
  have hthird : LayoutChange
      (namespaceFile [smallClass (namedVariable valueParts) (labelledMethod "type")] []) old :=
    .splice (.intro [] [letterNode "identifier" (some "name") 0 []] _ []
      (by decide) (by decide) (by decide))
  refine ⟨outline_eq_of_layoutChanges ?_ "f.cs", by decide +kernel⟩
  exact ((Relation.ReflTransGen.single hfirst).tail hsecond).tail hthird

/-- A class whose body is its base list too. -/
def basesInBody (nodes : List Node) : SyntaxTree where
  root := letterNode "compilation_unit" none 0 [letterNode "class_declaration" none 0
    [letterNode "identifier" (some "name") 0 [], letterNode "base_list" (some "body") 1 nodes]]

/-- **A node with two roles shows the layout.** The end of a file-scoped namespace, moved behind it
in a body that is a base list too, becomes a base type. -/
theorem outline_basesInBody :
    let source := Text.Utf8.encode "CNX"
    let name := letterNode "identifier" (some "name") 1 []
    let more := letterNode "identifier" none 2 []
    let inside := [letterNode "file_scoped_namespace_declaration" none 1 [name, more]]
    let beside := [letterNode "file_scoped_namespace_declaration" none 1 [name], more]
    Spliced inside beside ∧
      (outline source (basesInBody inside) "").outcome =
        .ok (.scope (.compilationUnit "") [.type .classType { name := "C", baseTypes := ["N"] }
          [.scope (.namespaceOf "N") []]]) ∧
      (outline source (basesInBody beside) "").outcome =
        .ok (.scope (.compilationUnit "") [.type .classType { name := "C", baseTypes := ["N", "X"] }
          [.scope (.namespaceOf "N") []]]) := by
  intro source name more inside beside
  refine ⟨?_, by decide +kernel, by decide +kernel⟩
  exact .intro [] [name] _ [] (by decide) (by decide) (by decide)

end ClassChart.Syntax
