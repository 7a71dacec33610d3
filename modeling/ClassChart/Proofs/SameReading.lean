import ClassChart.Proofs.Walk
import Mathlib.Data.List.Forall2

/-!
# Nodes that are read the same

What is read of a node depends on where it stands. In a list it is an entry, of which its kind, its
text and what it declares matter. As a part of its parent it is looked for by its label or its kind,
and then its text or some of its children are read, in a way that the kind of the parent decides.
Two nodes that are read the same in both ways can stand for each other.

## Main definitions

* `SameEntry`: two nodes are read the same in every list
* `SamePart`: two nodes are read the same as parts of a node of some kind
* `SameNode`: both

## Main results

* `declarations_congr`: lists whose entries are read the same declare the same
* `declaration_congr`: nodes whose parts are read the same declare the same
* `sameNode_mk`: a node whose children are replaced by ones that are read the same is read the same
-/

namespace ClassChart.Syntax

open Text (Bytes)

/-- Two nodes are the same by themselves, without their labels and children. -/
structure SameFace (source : Bytes) (n m : Node) : Prop where
  kind : n.kind = m.kind
  named : n.named = m.named
  text : n.text source = m.text source

/-- Two nodes are read the same in every list. The label of a node does not matter there. -/
structure SameEntry (source : Bytes) (n m : Node) : Prop extends SameFace source n m where
  listed : ∀ rest after,
    declarations source (n :: rest) after = declarations source (m :: rest) after
  enumMember : enumMember? source n = enumMember? source m
  accessor : accessor? source n = accessor? source m
  parameter : n.kind = "parameter" ∨ n.kind = "parameter_array" →
    parameterOf source n = parameterOf source m

/-- The kinds of nodes that may have an initial value. -/
def valueKinds : List String :=
  ["variable_declarator", "enum_member_declaration", "property_declaration"]

/-- A declaration of this form has a body that is read for declarations. -/
def Form.hasBody : Form → Bool
  | .namespaceBlock | .type _ => true
  | _ => false

/-- A declaration of this form has a list of parameters. -/
def Form.hasParameters : Form → Bool
  | .constructor | .method => true
  | _ => false

/-- Two nodes are read the same as parts of a node of kind `parent`. -/
structure SamePart (source : Bytes) (parent : String) (n m : Node) : Prop
    extends SameFace source n m where
  label : n.label = m.label
  body : (formOf parent).hasBody → n.label = some "body" ∨ n.kind = "declaration_list" →
    ∀ after, declarations source n.children after = declarations source m.children after
  enumBody : formOf parent = .enumeration →
    n.label = some "body" ∨ n.kind = "enum_member_declaration_list" →
    n.children.filterMap (enumMember? source) = m.children.filterMap (enumMember? source)
  parameterList : (formOf parent).hasParameters →
    n.label = some "parameters" ∨ n.kind = "parameter_list" →
    parametersAfter source .closed n.children = parametersAfter source .closed m.children
  accessorList : formOf parent = .property →
    n.label = some "accessors" ∨ n.kind = "accessor_list" →
    n.children.filterMap (accessor? source) = m.children.filterMap (accessor? source)
  baseList : (formOf parent).hasBody → formOf parent ≠ .namespaceBlock → n.kind = "base_list" →
    baseTexts source (baseEntries n) = baseTexts source (baseEntries m)
  fieldParts : formOf parent = .field → n.kind = "variable_declaration" →
    Node.textOf source ((labelled? "type" n.children).or n.namedChildren.head?) =
        Node.textOf source ((labelled? "type" m.children).or m.namedChildren.head?) ∧
      n.children.filterMap (declarator? source) = m.children.filterMap (declarator? source)
  declarator : parent = "variable_declaration" → declarator? source n = declarator? source m
  base : parent = "base_list" →
    (baseNode n).map (·.text source) = (baseNode m).map (·.text source)
  clause : parent ∈ valueKinds → n.kind = "equals_value_clause" →
    Option.Rel (SameFace source) (n.namedChildren.find? (·.kind != "comment"))
      (m.namedChildren.find? (·.kind != "comment"))

/-- Two nodes are read the same among the children of a node of kind `parent`, whether these are
read as parts or as a list. -/
structure SameNode (source : Bytes) (parent : String) (n m : Node) : Prop
    extends SamePart source parent n m, SameEntry source n m

variable {source : Bytes} {parent : String} {cs ds : List Node}

theorem SameFace.refl (n : Node) : SameFace source n n :=
  ⟨rfl, rfl, rfl⟩

theorem SameEntry.refl (n : Node) : SameEntry source n n :=
  ⟨.refl n, fun _ _ => rfl, rfl, rfl, fun _ => rfl⟩

theorem optionRel_refl {α : Type} {R : α → α → Prop} (hR : ∀ a, R a a) (o : Option α) :
    Option.Rel R o o := by
  cases o with
  | none => exact .none
  | some a => exact .some (hR a)

theorem SamePart.refl (n : Node) : SamePart source parent n n where
  toSameFace := .refl n
  label := rfl
  body _ _ _ := rfl
  enumBody _ _ := rfl
  parameterList _ _ := rfl
  accessorList _ _ := rfl
  baseList _ _ _ := rfl
  fieldParts _ _ := ⟨rfl, rfl⟩
  declarator _ := rfl
  base _ := rfl
  clause _ _ := optionRel_refl .refl _

theorem SameNode.refl (n : Node) : SameNode source parent n n where
  toSamePart := .refl n
  listed _ _ := rfl
  enumMember := rfl
  accessor := rfl
  parameter _ := rfl

theorem SameFace.trans {n m k : Node} (h : SameFace source n m) (h' : SameFace source m k) :
    SameFace source n k :=
  ⟨h.kind.trans h'.kind, h.named.trans h'.named, h.text.trans h'.text⟩

theorem optionRel_trans {α : Type} {R : α → α → Prop} (hR : ∀ a b c, R a b → R b c → R a c)
    {a b c : Option α} (h : Option.Rel R a b) (h' : Option.Rel R b c) : Option.Rel R a c := by
  cases h with
  | none => exact h'
  | some hab =>
    cases h' with
    | some hbc => exact .some (hR _ _ _ hab hbc)

theorem SameEntry.trans {n m k : Node} (h : SameEntry source n m) (h' : SameEntry source m k) :
    SameEntry source n k where
  toSameFace := h.toSameFace.trans h'.toSameFace
  listed rest after := (h.listed rest after).trans (h'.listed rest after)
  enumMember := h.enumMember.trans h'.enumMember
  accessor := h.accessor.trans h'.accessor
  parameter hkind := (h.parameter hkind).trans (h'.parameter (h.kind ▸ hkind))

/-- The part between two parts that are read as it is has the label and the kind of both. -/
theorem SamePart.trans {n m k : Node} (h : SamePart source parent n m)
    (h' : SamePart source parent m k) : SamePart source parent n k where
  toSameFace := h.toSameFace.trans h'.toSameFace
  label := h.label.trans h'.label
  body hparent hrole after :=
    (h.body hparent hrole after).trans (h'.body hparent (h.label ▸ h.kind ▸ hrole) after)
  enumBody hparent hrole :=
    (h.enumBody hparent hrole).trans (h'.enumBody hparent (h.label ▸ h.kind ▸ hrole))
  parameterList hparent hrole :=
    (h.parameterList hparent hrole).trans (h'.parameterList hparent (h.label ▸ h.kind ▸ hrole))
  accessorList hparent hrole :=
    (h.accessorList hparent hrole).trans (h'.accessorList hparent (h.label ▸ h.kind ▸ hrole))
  baseList hparent htype hkind :=
    (h.baseList hparent htype hkind).trans (h'.baseList hparent htype (h.kind ▸ hkind))
  fieldParts hparent hkind := by
    obtain ⟨htype, hdeclared⟩ := h.fieldParts hparent hkind
    obtain ⟨htype', hdeclared'⟩ := h'.fieldParts hparent (h.kind ▸ hkind)
    exact ⟨htype.trans htype', hdeclared.trans hdeclared'⟩
  declarator hparent := (h.declarator hparent).trans (h'.declarator hparent)
  base hparent := (h.base hparent).trans (h'.base hparent)
  clause hparent hkind :=
    optionRel_trans (R := SameFace source) (fun _ _ _ => SameFace.trans) (h.clause hparent hkind)
      (h'.clause hparent (h.kind ▸ hkind))

theorem SameNode.trans {n m k : Node} (h : SameNode source parent n m)
    (h' : SameNode source parent m k) : SameNode source parent n k where
  toSamePart := h.toSamePart.trans h'.toSamePart
  listed := (h.toSameEntry.trans h'.toSameEntry).listed
  enumMember := h.enumMember.trans h'.enumMember
  accessor := h.accessor.trans h'.accessor
  parameter := (h.toSameEntry.trans h'.toSameEntry).parameter

theorem faces_of_entries (h : List.Forall₂ (SameEntry source) cs ds) :
    List.Forall₂ (SameFace source) cs ds :=
  h.imp fun _ _ hn => hn.toSameFace

theorem faces_of_parts (h : List.Forall₂ (SamePart source parent) cs ds) :
    List.Forall₂ (SameFace source) cs ds :=
  h.imp fun _ _ hn => hn.toSameFace

/-! ## Lists of entries -/

theorem declarations_congr (h : List.Forall₂ (SameEntry source) cs ds)
    (after : Outline (List Declaration)) :
    declarations source cs after = declarations source ds after := by
  induction h with
  | nil => rfl
  | @cons n m cs ds hn _ ih =>
    rw [hn.listed]
    by_cases hfile : formOf m.kind = .fileNamespace
    · rw [declarations_cons_file source hfile, declarations_cons_file source hfile, ih]
    · rw [declarations_cons source hfile, declarations_cons source hfile, ih]

theorem filterMap_congr_forall₂ {β : Type} {R : Node → Node → Prop} (h : List.Forall₂ R cs ds)
    {f : Node → Option β} (hf : ∀ n m, R n m → f n = f m) : cs.filterMap f = ds.filterMap f := by
  induction h with
  | nil => rfl
  | @cons n m cs ds hn _ ih => rw [List.filterMap_cons, List.filterMap_cons, hf n m hn, ih]

theorem head?_forall₂ {R : Node → Node → Prop} (h : List.Forall₂ R cs ds) :
    Option.Rel R cs.head? ds.head? := by
  cases h with
  | nil => exact .none
  | cons hn _ => exact .some hn

/-- The lists keep the same entries by a test that does not tell related nodes apart. -/
theorem filter_forall₂ {R : Node → Node → Prop} (h : List.Forall₂ R cs ds) {p : Node → Bool}
    (hp : ∀ n m, R n m → p n = p m) : List.Forall₂ R (cs.filter p) (ds.filter p) :=
  List.rel_filter (fun n m hn => iff_of_eq (congrArg (· = true) (hp n m hn))) h

theorem find?_forall₂ {R : Node → Node → Prop} (h : List.Forall₂ R cs ds) {p : Node → Bool}
    (hp : ∀ n m, R n m → p n = p m) : Option.Rel R (cs.find? p) (ds.find? p) := by
  rw [← List.head?_filter, ← List.head?_filter]
  exact head?_forall₂ (filter_forall₂ h hp)

theorem getLast?_forall₂ {R : Node → Node → Prop} (h : List.Forall₂ R cs ds) :
    Option.Rel R cs.getLast? ds.getLast? := by
  rw [← List.head?_reverse, ← List.head?_reverse]
  exact head?_forall₂ (List.rel_reverse h)

theorem modifiers_congr (h : List.Forall₂ (SameFace source) cs ds) :
    modifiers source cs = modifiers source ds := by
  have hfilter := filter_forall₂ h (p := fun n => n.kind == "modifier")
    fun n m hn => by rw [hn.kind]
  have htexts : List.Forall₂ (· = ·) (modifiers source cs) (modifiers source ds) :=
    List.rel_map (fun n m hn => hn.text) hfilter
  rwa [List.forall₂_eq_eq_eq] at htexts

/-- Parameters are read the same after a parameter array whose type has the same text. -/
theorem parametersAfter_congr (h : List.Forall₂ (SameEntry source) cs ds) :
    parametersAfter source .closed cs = parametersAfter source .closed ds ∧
      parametersAfter source .keyword cs = parametersAfter source .keyword ds ∧
      ∀ n m : Node, n.text source = m.text source →
        parametersAfter source (.typed n) cs = parametersAfter source (.typed m) ds := by
  induction h with
  | nil => exact ⟨rfl, rfl, fun _ _ _ => rfl⟩
  | @cons n m cs ds hn _ ih =>
    -- what follows a node may be read in any of the three states, so all are needed at once
    obtain ⟨hclosed, hkeyword, htyped⟩ := ih
    by_cases hparameter : n.kind = "parameter" ∨ n.kind = "parameter_array"
    · have hm : m.kind = "parameter" ∨ m.kind = "parameter_array" := hn.kind ▸ hparameter
      have hsame := hn.parameter hparameter
      refine ⟨?_, ?_, fun a b hab => ?_⟩
      · simp only [parametersAfter, if_pos hparameter, if_pos hm, hsame, hclosed]
      · simp only [parametersAfter, if_pos hparameter, if_pos hm, hsame, hkeyword]
      · simp only [parametersAfter, if_pos hparameter, if_pos hm, hsame, htyped a b hab]
    · have hm : ¬(m.kind = "parameter" ∨ m.kind = "parameter_array") := hn.kind ▸ hparameter
      refine ⟨?_, ?_, fun a b hab => ?_⟩
      · simp only [parametersAfter, if_neg hm, hn.kind, hn.named, hclosed,
          hkeyword]
      · simp only [parametersAfter, if_neg hm, hn.kind, hn.named, hkeyword,
          htyped n m hn.text]
      · simp only [parametersAfter, if_neg hm, hn.kind, hn.named, hn.text, hab,
          hclosed, hkeyword, htyped a b hab]

/-! ## Looking among parts -/

theorem labelled?_part (h : List.Forall₂ (SamePart source parent) cs ds) (label : String) :
    Option.Rel (SamePart source parent) (labelled? label cs) (labelled? label ds) :=
  find?_forall₂ h fun _ _ hn => by rw [hn.label]

theorem ofKind?_part (h : List.Forall₂ (SamePart source parent) cs ds) (kinds : List String) :
    Option.Rel (SamePart source parent) (ofKind? kinds cs) (ofKind? kinds ds) :=
  find?_forall₂ h fun _ _ hn => by rw [hn.kind]

theorem labelledOrOfKind?_forall₂ {R : Node → Node → Prop} (h : List.Forall₂ R cs ds)
    {label : String} (kinds : List String)
    (hlabel : ∀ n m, R n m → (n.label == some label) = (m.label == some label))
    (hkind : ∀ n m, R n m → n.kind = m.kind) :
    Option.Rel R (labelledOrOfKind? label kinds cs) (labelledOrOfKind? label kinds ds) := by
  unfold labelledOrOfKind?
  have hlabelled : Option.Rel R (labelled? label cs) (labelled? label ds) := find?_forall₂ h hlabel
  revert hlabelled
  generalize labelled? label cs = found, labelled? label ds = other
  rintro (hn | -)
  · exact .some hn
  · exact find?_forall₂ h fun n m hn => by rw [hkind n m hn]

theorem labelledOrOfKind?_part (h : List.Forall₂ (SamePart source parent) cs ds) (label : String)
    (kinds : List String) :
    Option.Rel (SamePart source parent) (labelledOrOfKind? label kinds cs)
      (labelledOrOfKind? label kinds ds) :=
  labelledOrOfKind?_forall₂ h kinds (fun n m hn => by rw [hn.label]) fun n m hn => hn.kind

/-- What is found by a label or by its kind has the one or the other. -/
theorem labelledOrOfKind?_cases {label kind : String} {n : Node}
    (h : labelledOrOfKind? label [kind] cs = some n) : n.label = some label ∨ n.kind = kind := by
  unfold labelledOrOfKind? at h
  split at h
  case h_1 found hfound =>
    cases h
    exact .inl (by simpa using List.find?_some hfound)
  case h_2 => exact .inr (by simpa [ofKind?] using List.find?_some h)

theorem map_congr_rel {β : Type} {R : Node → Node → Prop} {a b : Option Node}
    (h : Option.Rel R a b) {f : Node → β} (hf : ∀ n m, a = some n → R n m → f n = f m) :
    a.map f = b.map f := by
  cases h with
  | none => rfl
  | some hn => exact congrArg some (hf _ _ rfl hn)

/-- A part that is looked for by its label or its kind is read the same, if that reading depends on
the part alone. -/
theorem map_labelledOrOfKind? {β : Type} (h : List.Forall₂ (SamePart source parent) cs ds)
    {label kind : String} {f : Node → β}
    (hf : ∀ n m, n.label = some label ∨ n.kind = kind → SamePart source parent n m → f n = f m) :
    (labelledOrOfKind? label [kind] cs).map f = (labelledOrOfKind? label [kind] ds).map f :=
  map_congr_rel (labelledOrOfKind?_part h label [kind]) fun n m hfound hn =>
    hf n m (labelledOrOfKind?_cases hfound) hn

theorem map_ofKind? {β : Type} (h : List.Forall₂ (SamePart source parent) cs ds)
    {kind : String} {f : Node → β}
    (hf : ∀ n m, n.kind = kind → SamePart source parent n m → f n = f m) :
    (ofKind? [kind] cs).map f = (ofKind? [kind] ds).map f :=
  map_congr_rel (ofKind?_part h [kind]) fun n m hfound hn =>
    hf n m (by simpa [ofKind?] using List.find?_some hfound) hn

theorem textOf_congr {R : Node → Node → Prop} (hR : ∀ n m, R n m → n.text source = m.text source)
    {a b : Option Node} (h : Option.Rel R a b) : Node.textOf source a = Node.textOf source b := by
  cases h with
  | none => rfl
  | some hn => exact hR _ _ hn

theorem textOf_part {a b : Option Node} (h : Option.Rel (SamePart source parent) a b) :
    Node.textOf source a = Node.textOf source b :=
  textOf_congr (fun _ _ hn => hn.text) h

theorem or_rel {R : Node → Node → Prop} {a b c d : Option Node} (h : Option.Rel R a b)
    (h' : Option.Rel R c d) : Option.Rel R (a.or c) (b.or d) := by
  cases h with
  | none => exact h'
  | some hn => exact .some hn

/-! ## Parts of declarations -/

theorem namespaceName_congr (h : List.Forall₂ (SamePart source parent) cs ds) :
    namespaceName source cs = namespaceName source ds :=
  textOf_part (labelledOrOfKind?_part h _ _)

theorem bodyDeclarations_congr (hparent : (formOf parent).hasBody)
    (h : List.Forall₂ (SamePart source parent) cs ds) :
    bodyDeclarations source (isBody cs) cs = bodyDeclarations source (isBody ds) ds := by
  have hbody := map_labelledOrOfKind? h (f := fun n => declarations source n.children (pure []))
    fun n m hrole hn => hn.body hparent hrole (pure [])
  -- without a body, both lists are empty
  have hnodes (nodes : List Node) : declarations source (bodyNodes nodes) (pure []) =
      ((labelledOrOfKind? "body" ["declaration_list"] nodes).map
        fun n => declarations source n.children (pure [])).getD (pure []) := by
    unfold bodyNodes
    cases labelledOrOfKind? "body" ["declaration_list"] nodes with
    | none => rw [Option.map_none, Option.getD_none, declarations]; rfl
    | some n => rfl
  rw [bodyDeclarations_eq, bodyDeclarations_eq, hnodes, hnodes, hbody]

theorem baseTexts_congr (h : List.Forall₂ (SamePart source "base_list") cs ds) :
    baseTexts source cs = baseTexts source ds := by
  induction h with
  | nil => rfl
  | @cons n m cs ds hn _ ih =>
    have hbase := hn.base rfl
    have hcons (k : Node) (rest : List Node) : baseTexts source (k :: rest) = do
        let text ← (baseNode k).map (·.text source)
        let texts ← baseTexts source rest
        return text :: texts := by
      rw [baseTexts]
      cases baseNode k <;> rfl
    rw [hcons, hcons, hbase, ih]

theorem baseTypes_congr (hparent : (formOf parent).hasBody)
    (htype : formOf parent ≠ .namespaceBlock)
    (h : List.Forall₂ (SamePart source parent) cs ds) :
    baseTypes source cs = baseTypes source ds := by
  have hlist := map_ofKind? h (f := fun n => baseTexts source (baseEntries n))
    fun n m hkind hn => hn.baseList hparent htype hkind
  have htypes (nodes : List Node) : baseTypes source nodes =
      ((ofKind? ["base_list"] nodes).map fun n => baseTexts source (baseEntries n)).getD
        (.ok []) := by
    unfold baseTypes
    cases ofKind? ["base_list"] nodes <;> rfl
  rw [htypes, htypes, hlist]

theorem parameters_eq (list : Option Node) : parameters source list =
    (list.map fun n => parametersAfter source .closed n.children).getD [] := by
  cases list <;> rfl

theorem parameters_congr (hparent : (formOf parent).hasParameters)
    (h : List.Forall₂ (SamePart source parent) cs ds) :
    parameters source (parameterListNode? cs) = parameters source (parameterListNode? ds) := by
  have hlist := map_labelledOrOfKind? h (f := fun n => parametersAfter source .closed n.children)
    fun n m hrole hn => hn.parameterList hparent hrole
  rw [parameters_eq, parameters_eq, parameterListNode?, parameterListNode?, hlist]

theorem valueNodeAfter?_congr (hparent : parent ∈ valueKinds)
    (h : List.Forall₂ (SamePart source parent) cs ds) (seen : Bool) :
    Option.Rel (SameFace source) (valueNodeAfter? seen cs) (valueNodeAfter? seen ds) := by
  induction h generalizing seen with
  | nil => exact .none
  | @cons n m cs ds hn _ ih =>
    simp only [valueNodeAfter?, ← hn.kind, ← hn.named]
    split
    case isTrue hclause => exact hn.clause hparent hclause
    case isFalse =>
      split
      · exact ih true
      · split
        · exact .some hn.toSameFace
        · exact ih seen

theorem initializer?_congr (hparent : parent ∈ valueKinds)
    (h : List.Forall₂ (SamePart source parent) cs ds) :
    initializer? source cs = initializer? source ds :=
  map_congr_rel (valueNodeAfter?_congr hparent h false) fun n m _ hn => by
    simp only [initializerOf, hn.kind, hn.text]

/-! ## Whole declarations -/

/-- What needs a part that may be missing is read the same, if only the text of the part counts. -/
theorem bind_part {β : Type} {a b : Option Node} (h : Option.Rel (SamePart source parent) a b)
    {f g : Node → Option β} (hfg : ∀ n m, n.text source = m.text source → f n = g m) :
    a.bind f = b.bind g := by
  cases h with
  | none => rfl
  | some hn => exact hfg _ _ hn.text

theorem declarator?_mk {info : NodeInfo} (hkind : info.kind = "variable_declarator")
    (nodes : List Node) :
    declarator? source (.mk info nodes) =
      (labelledOrOfKind? "name" ["identifier"] nodes).bind fun name =>
        some ⟨name.text source, initializer? source nodes⟩ :=
  if_pos hkind

theorem declarator?_of_ne {info : NodeInfo} (hkind : info.kind ≠ "variable_declarator")
    (nodes : List Node) : declarator? source (.mk info nodes) = none :=
  if_neg hkind

theorem enumMember?_mk {info : NodeInfo} (hkind : info.kind = "enum_member_declaration")
    (nodes : List Node) :
    enumMember? source (.mk info nodes) =
      (labelledOrOfKind? "name" ["identifier"] nodes).bind fun name =>
        some (.enumMember (name.text source) ((valueNode? nodes).map (·.text source))) :=
  if_pos hkind

theorem enumMember?_of_ne {info : NodeInfo} (hkind : info.kind ≠ "enum_member_declaration")
    (nodes : List Node) : enumMember? source (.mk info nodes) = none :=
  if_neg hkind

theorem accessor?_of_ne {info : NodeInfo} (hkind : info.kind ≠ "accessor_declaration")
    (nodes : List Node) : accessor? source (.mk info nodes) = none :=
  if_neg hkind

theorem declarator?_congr {info : NodeInfo} (h : List.Forall₂ (SamePart source info.kind) cs ds) :
    declarator? source (.mk info cs) = declarator? source (.mk info ds) := by
  by_cases hkind : info.kind = "variable_declarator"
  · have hvalue := initializer?_congr (by simp [hkind, valueKinds]) h
    rw [declarator?_mk hkind, declarator?_mk hkind]
    refine bind_part (labelledOrOfKind?_part h _ _) fun n m hname => ?_
    rw [hname, hvalue]
  · rw [declarator?_of_ne hkind, declarator?_of_ne hkind]

theorem enumMember?_congr {info : NodeInfo} (h : List.Forall₂ (SamePart source info.kind) cs ds) :
    enumMember? source (.mk info cs) = enumMember? source (.mk info ds) := by
  by_cases hkind : info.kind = "enum_member_declaration"
  · have hvalue : (valueNode? cs).map (·.text source) = (valueNode? ds).map (·.text source) :=
      map_congr_rel (valueNodeAfter?_congr (by simp [hkind, valueKinds]) h false)
        fun _ _ _ hn => hn.text
    rw [enumMember?_mk hkind, enumMember?_mk hkind]
    refine bind_part (labelledOrOfKind?_part h _ _) fun n m hname => ?_
    rw [hname, hvalue]
  · rw [enumMember?_of_ne hkind, enumMember?_of_ne hkind]

theorem accessor?_congr {info : NodeInfo} (h : List.Forall₂ (SamePart source parent) cs ds) :
    accessor? source (.mk info cs) = accessor? source (.mk info ds) := by
  by_cases hkind : info.kind = "accessor_declaration"
  · have haccessor (nodes : List Node) : accessor? source (.mk info nodes) =
        if (accessorKeyword source nodes).isEmpty then none
        else some ⟨accessorKeyword source nodes, modifiers source nodes⟩ :=
      if_pos hkind
    have hkinds : (ofKind? accessorKeywords cs).map Node.kind =
        (ofKind? accessorKeywords ds).map Node.kind :=
      map_congr_rel (ofKind?_part h _) fun _ _ _ hn => hn.kind
    have hkeyword : accessorKeyword source cs = accessorKeyword source ds := by
      simp only [accessorKeyword, textOf_part (labelled?_part h "name"), hkinds]
    rw [haccessor, haccessor, hkeyword, modifiers_congr (faces_of_parts h)]
  · rw [accessor?_of_ne hkind, accessor?_of_ne hkind]

theorem parameterOf_congr {info : NodeInfo} (h : List.Forall₂ (SamePart source parent) cs ds) :
    parameterOf source (.mk info cs) = parameterOf source (.mk info ds) := by
  have hidentifiers := filter_forall₂ h (p := fun n => n.kind == "identifier")
    fun n m hn => by rw [hn.kind]
  have hname := textOf_part (or_rel (labelled?_part h "name") (getLast?_forall₂ hidentifiers))
  simp only [parameterOf, Node.children, hname, textOf_part (labelled?_part h "type")]

theorem baseNode_of_ne {info : NodeInfo} (hkind : info.kind ≠ "primary_constructor_base_type")
    (nodes : List Node) : baseNode (.mk info nodes) = .ok (.mk info nodes) :=
  if_neg hkind

theorem baseNode_congr {info : NodeInfo} (h : List.Forall₂ (SamePart source parent) cs ds) :
    (baseNode (.mk info cs)).map (·.text source) =
      (baseNode (.mk info ds)).map (·.text source) := by
  by_cases hkind : info.kind = "primary_constructor_base_type"
  · -- the type is a child that is found, or there is the error
    have hbase (nodes : List Node) : baseNode (.mk info nodes) =
        (((labelled? "type" nodes).or (nodes.filter (·.named)).head?).map Except.ok).getD
          (.error .missingBase) := by
      refine (if_pos hkind).trans ?_
      rw [Node.children, Node.namedChildren, Node.children]
      cases labelled? "type" nodes with
      | some type => rfl
      | none => cases nodes.filter (·.named) <;> rfl
    have hnamed := filter_forall₂ h (p := (·.named)) fun n m hn => hn.named
    have hfound := or_rel (labelled?_part h "type") (head?_forall₂ hnamed)
    rw [hbase, hbase]
    generalize (labelled? "type" cs).or _ = a, (labelled? "type" ds).or _ = b at hfound
    cases hfound with
    | none => rfl
    | some hn => exact congrArg Except.ok hn.text
  · rw [baseNode_of_ne hkind, baseNode_of_ne hkind]
    rfl

section Members

variable {info : NodeInfo} (h : List.Forall₂ (SamePart source info.kind) cs ds)

include h

theorem constructor?_congr (hform : formOf info.kind = .constructor) :
    constructor? source cs = constructor? source ds := by
  refine bind_part (labelled?_part h "name") fun n m hname => ?_
  rw [hname, modifiers_congr (faces_of_parts h), parameters_congr (by rw [hform]; rfl) h]

theorem method?_congr (hform : formOf info.kind = .method) :
    method? source cs = method? source ds := by
  refine bind_part (labelled?_part h "name") fun n m hname => ?_
  have hreturns := textOf_part (or_rel (labelled?_part h "returns") (labelled?_part h "type"))
  simp only [hname, hreturns, modifiers_congr (faces_of_parts h),
    parameters_congr (by rw [hform]; rfl) h]

theorem field?_congr (hform : formOf info.kind = .field) :
    field? source cs = field? source ds := by
  have hparts := map_ofKind? h (f := fun n : Node =>
    (Node.textOf source ((labelled? "type" n.children).or n.namedChildren.head?),
      n.children.filterMap (declarator? source)))
    fun n m hkind hn => Prod.ext (hn.fieldParts hform hkind).1 (hn.fieldParts hform hkind).2
  have hfield (nodes : List Node) : field? source nodes =
      ((ofKind? ["variable_declaration"] nodes).map fun n : Node =>
        (Node.textOf source ((labelled? "type" n.children).or n.namedChildren.head?),
          n.children.filterMap (declarator? source))).map
        fun parts => .field parts.1 parts.2 (modifiers source nodes) := by
    unfold field?
    cases ofKind? ["variable_declaration"] nodes <;> rfl
  rw [hfield, hfield, hparts, modifiers_congr (faces_of_parts h)]

theorem property?_congr (hform : formOf info.kind = .property) :
    property? source cs = property? source ds := by
  have hkind : info.kind ∈ valueKinds := by
    simp [kind_of_formOf (k := "property_declaration") (by rw [hform]; rfl), valueKinds]
  have hlist := map_labelledOrOfKind? h (f := fun n => n.children.filterMap (accessor? source))
    fun n m hrole hn => hn.accessorList hform hrole
  -- whether there is an accessor list is seen from its reading
  have hvalue (list : Option Node) (value : Option Initializer) : (list.bind fun _ => value) =
      (list.map fun n => n.children.filterMap (accessor? source)).bind fun _ => value := by
    cases list <;> rfl
  refine bind_part (labelled?_part h "name") fun n m hname => ?_
  simp only [hname, hvalue, hlist, textOf_part (labelled?_part h "type"),
    modifiers_congr (faces_of_parts h), initializer?_congr hkind h]

theorem enumeration?_congr (hform : formOf info.kind = .enumeration) :
    enumeration? source cs = enumeration? source ds := by
  have hbody := map_labelledOrOfKind? h (f := fun n => n.children.filterMap (enumMember? source))
    fun n m hrole hn => hn.enumBody hform hrole
  have hmembers (body : Option Node) : enumMembers source body =
      (body.map fun n => n.children.filterMap (enumMember? source)).getD [] := by
    cases body <;> rfl
  refine bind_part (labelled?_part h "name") fun n m hname => ?_
  simp only [hname, hmembers, hbody, modifiers_congr (faces_of_parts h)]

/-- **A node declares the same** when its parts are replaced by ones that are read the same. -/
theorem declaration_congr :
    declaration source (.mk info cs) = declaration source (.mk info ds) := by
  rw [declaration, declaration]
  cases hform : formOf info.kind with
  | namespaceBlock =>
    have hbody : (formOf info.kind).hasBody := by rw [hform]; rfl
    simp only [bodyDeclarations_congr hbody h, namespaceName_congr h]
  | type kind =>
    have hbody : (formOf info.kind).hasBody := by rw [hform]; rfl
    have hparameters := textOf_part
      (labelledOrOfKind?_part h "type_parameters" ["type_parameter_list"])
    -- a head is read off the texts of its parts alone
    have hhead (n m : Node) (hname : n.text source = m.text source) :
        typeHead source n cs = typeHead source m ds := by
      simp only [typeHead, baseTypes_congr hbody (by simp [hform]) h, hname, hparameters,
        modifiers_congr (faces_of_parts h)]
    have hname := labelled?_part h "name"
    generalize labelled? "name" cs = a, labelled? "name" ds = b at hname
    cases hname with
    | none => rfl
    | some hn => simp only [hhead _ _ hn.text, bodyDeclarations_congr hbody h]
  | enumeration => simp only [enumeration?_congr h hform]
  | constructor => simp only [constructor?_congr h hform]
  | field => simp only [field?_congr h hform]
  | property => simp only [property?_congr h hform]
  | method => simp only [method?_congr h hform]
  | skipped | fileNamespace | other => rfl

end Members

/-- **A node is read the same** when its children are replaced by ones that are read the same. -/
theorem sameNode_mk {info : NodeInfo} (h : List.Forall₂ (SameNode source info.kind) cs ds) :
    SameNode source parent (.mk info cs) (.mk info ds) := by
  have hparts : List.Forall₂ (SamePart source info.kind) cs ds := h.imp fun _ _ hn => hn.toSamePart
  have hentries : List.Forall₂ (SameEntry source) cs ds := h.imp fun _ _ hn => hn.toSameEntry
  have hnamed := filter_forall₂ hparts (p := (·.named)) fun n m hn => hn.named
  exact {
    kind := rfl
    named := rfl
    text := rfl
    label := rfl
    listed := fun rest after => by
      by_cases hfile : formOf info.kind = .fileNamespace
      · have hinside := declarations_congr hentries
        rw [declarations_cons_file source (n := .mk info cs) hfile,
          declarations_cons_file source (n := .mk info ds) hfile]
        simp only [Node.children, hinside, namespaceName_congr hparts]
      · rw [declarations_cons source (n := .mk info cs) hfile,
          declarations_cons source (n := .mk info ds) hfile, declaration_congr hparts]
    enumMember := enumMember?_congr hparts
    accessor := accessor?_congr hparts
    parameter := fun _ => parameterOf_congr hparts
    body := fun _ _ after => declarations_congr hentries after
    enumBody := fun _ _ => filterMap_congr_forall₂ hentries fun n m hn => hn.enumMember
    parameterList := fun _ _ => (parametersAfter_congr hentries).1
    accessorList := fun _ _ => filterMap_congr_forall₂ hentries fun n m hn => hn.accessor
    baseList := fun _ _ hkind => by
      have hkind : info.kind = "base_list" := hkind
      rw [hkind] at hparts hnamed
      refine baseTexts_congr (filter_forall₂ hnamed fun n m hn => ?_)
      rw [hn.kind]
    fieldParts := fun _ hkind => by
      have htype := textOf_part (or_rel (labelled?_part hparts "type") (head?_forall₂ hnamed))
      exact ⟨htype, filterMap_congr_forall₂ hparts fun n m hn => hn.declarator hkind⟩
    declarator := fun _ => declarator?_congr hparts
    base := fun _ => baseNode_congr hparts
    clause := fun _ _ => by
      have hfaces := filter_forall₂ (faces_of_parts hparts) (p := (·.named)) fun n m hn => hn.named
      exact find?_forall₂ hfaces fun n m hn => by rw [hn.kind] }

end ClassChart.Syntax
