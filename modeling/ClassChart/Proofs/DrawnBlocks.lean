import ClassChart.Proofs.Brackets

/-!
# Blocks of a drawing

The texts of members have brackets of their own, for two of the modifiers, but none at the end of a
line or alone on it. So a drawing is in the grammar of lines with blocks, and counting its brackets
gives back its depth, its blocks and the lines after them.

## Main definitions

* `Declaration.texts`: the texts that a drawing is made of
* `Declaration.blocks`: the blocks of a drawing, in the order in which they open
* `IsPlain`: texts that neither open nor close a block

## Main results

* `Member.lines_plain`: the lines of a member are plain
* `Declaration.printed_bracketed`: a drawing is in the grammar
* `Declaration.render_bracketed`: the count on a rendering
-/

namespace ClassChart

/-! ## The texts of a drawing -/

/-- Whether a character is neither a bracket of a block nor a line break. -/
def isClean (x : Char) : Bool :=
  x != '\x7b' && x != '\x7d' && !Text.isLineBreak x

theorem Over.unbroken {s : String} (h : Over isClean s) : Over isUnbroken s :=
  h.mono fun x hx => by simp_all [isClean, isUnbroken]

/-- The text of an initial value, if there is one. -/
def initializerTexts (initializer : Option Initializer) : List String :=
  initializer.toList.map (·.text)

/-- The texts that a parameter list is made of. -/
def parameterTexts (parameters : List Parameter) : List String :=
  parameters.flatMap fun p => [p.name, p.type]

/-- The texts that the lines of a member are made of. -/
def Member.texts : Member → List String
  | .constructor name modifiers parameters => name :: (modifiers ++ parameterTexts parameters)
  | .field type declared modifiers =>
    type :: (modifiers ++ declared.flatMap fun v => v.name :: initializerTexts v.initializer)
  | .property name type modifiers accessors initializer =>
    name :: type :: (modifiers ++ ((accessors.getD []).flatMap fun a => a.keyword :: a.modifiers) ++
      initializerTexts initializer)
  | .method name returnType modifiers parameters =>
    name :: returnType :: (modifiers ++ parameterTexts parameters)
  | .enumMember name value => name :: value.toList

mutual

/-- The texts that a drawing is made of. -/
def Declaration.texts : Declaration → List String
  | .type _ head members =>
    head.name :: head.typeParameters ::
      (head.modifiers ++ head.baseTypes ++ Declaration.textsAll members)
  | .enum head members => head.name :: head.keyword :: Declaration.textsAll members
  | .member m => m.texts
  | .scope _ members => Declaration.textsAll members

/-- The texts that the drawings of declarations are made of. -/
def Declaration.textsAll : List Declaration → List String
  | [] => []
  | d :: rest => d.texts ++ Declaration.textsAll rest

end

mutual

/-- The blocks of a drawing, in the order in which they open: one for each type and enumeration. -/
def Declaration.blocks : Declaration → List Block
  | .type kind head members =>
    ⟨head.header kind, head.name, head.baseTypes⟩ :: Declaration.blocksAll members
  | .enum head members => ⟨head.header, head.name, []⟩ :: Declaration.blocksAll members
  | .member _ => []
  | .scope _ members => Declaration.blocksAll members

/-- The blocks of the drawings of declarations. -/
def Declaration.blocksAll : List Declaration → List Block
  | [] => []
  | d :: rest => d.blocks ++ Declaration.blocksAll rest

end

/-- A text that stays on its line and neither opens nor closes a block: from some point on it is
clean, and there is more than blanks from there. -/
def IsPlain (text : String) : Prop :=
  ∃ front back, text = front ++ back ∧ Over isUnbroken front ∧ Over isClean back ∧
    ∃ x ∈ back.toList, Text.isBlank x = false

namespace IsPlain

variable {text : String} (h : IsPlain text)
include h

theorem unbroken : Over isUnbroken text := by
  obtain ⟨front, back, rfl, hfront, hback, -⟩ := h
  exact over_append.mpr ⟨hfront, hback.unbroken⟩

theorem opens_eq (indent : RawText) (depth : Int) : opens (indented indent depth text) = false := by
  obtain ⟨front, back, rfl, -, hback, x, hx, -⟩ := h
  obtain ⟨last, hlast⟩ := Option.isSome_iff_exists.mp
    (List.getLast?_isSome.mpr (List.ne_nil_of_mem hx))
  have hclean : isClean last = true := hback last (List.mem_of_getLast? hlast)
  rw [opens, getLast?_indented (getLast?_append_of_last front hlast)]
  simp_all [isClean]

theorem closes_eq (indent : RawText) (depth : Int) :
    closes (indented indent depth text) = false := by
  obtain ⟨front, back, rfl, -, hback, x, hx, hblank⟩ := h
  refine closes_eq_false (mem_indented ?_) hblank ?_
  · rw [String.toList_append]
    exact List.mem_append_right _ hx
  · have hclean := hback x hx
    simp_all [isClean]

end IsPlain

theorem Bracketed.of_plain {texts : List String} (h : ∀ text ∈ texts, IsPlain text)
    (indent : RawText) (c : Int) : Bracketed indent c (texts.map (indented indent c)) [] := by
  refine Bracketed.plain fun line hline => ?_
  obtain ⟨text, htext, rfl⟩ := List.mem_map.mp hline
  have hplain := h text htext
  exact ⟨hplain.opens_eq indent c, hplain.closes_eq indent c, List.prefix_append _ _⟩

/-! ## Composed texts -/

section Composed

variable {modifiers : List String} (hmodifiers : ∀ m ∈ modifiers, Over isClean m)

theorem stereotype_clean {word : String} (h : Over isClean word) :
    Over isClean (stereotype word) := by
  rw [stereotype, over_append, over_append]
  exact ⟨⟨by decide, h⟩, by decide⟩

theorem spaced_unbroken {words : List String} (h : ∀ w ∈ words, Over isUnbroken w) :
    Over isUnbroken (spaced words) := by
  unfold spaced
  split
  · decide
  · exact over_append.mpr ⟨over_intercalate (by decide) h, by decide⟩

/-- The symbols of two modifiers have brackets, but no symbol has a line break. -/
theorem memberSymbol_unbroken {m : String} (h : Over isClean m) :
    Over isUnbroken (memberSymbol m) := by
  unfold memberSymbol
  split_ifs
  · decide
  · decide
  · decide
  · decide
  · decide
  · exact (stereotype_clean h).unbroken

include hmodifiers in
theorem memberModifiers_unbroken : Over isUnbroken (memberModifiers modifiers) := by
  refine spaced_unbroken fun w hw => ?_
  obtain ⟨m, hm, rfl⟩ := List.mem_map.mp hw
  exact memberSymbol_unbroken (hmodifiers m hm)

include hmodifiers in
theorem typeModifiers_unbroken : Over isUnbroken (typeModifiers modifiers) := by
  refine spaced_unbroken fun w hw => ?_
  obtain ⟨m, hm, rfl⟩ := List.mem_map.mp hw
  exact (stereotype_clean (hmodifiers m (List.mem_of_mem_filter hm))).unbroken

theorem parameterList_clean {parameters : List Parameter}
    (h : ∀ text ∈ parameterTexts parameters, Over isClean text) :
    Over isClean (parameterList parameters) := by
  rw [parameterList, over_append, over_append]
  refine ⟨⟨by decide, over_intercalate (by decide) fun w hw => ?_⟩, by decide⟩
  obtain ⟨p, hp, rfl⟩ := List.mem_map.mp hw
  have hname := h p.name (List.mem_flatMap.mpr ⟨p, hp, by simp⟩)
  have htype := h p.type (List.mem_flatMap.mpr ⟨p, hp, by simp⟩)
  rw [over_append, over_append]
  exact ⟨⟨hname, by decide⟩, htype⟩

theorem initializerText_clean {initializer : Option Initializer}
    (h : ∀ text ∈ initializerTexts initializer, Over isClean text) :
    Over isClean (initializerText initializer) := by
  cases initializer with
  | none => decide
  | some i =>
    rw [initializerText]
    split_ifs
    · exact over_append.mpr ⟨by decide, h i.text (by simp [initializerTexts])⟩
    · decide

theorem accessorList_clean {accessors : List Accessor}
    (h : ∀ text ∈ accessors.flatMap fun a => a.keyword :: a.modifiers, Over isClean text) :
    Over isClean (accessorList accessors) := by
  refine over_intercalate (by decide) fun w hw => ?_
  obtain ⟨a, ha, rfl⟩ := List.mem_map.mp hw
  refine stereotype_clean (over_intercalate (by decide) fun text htext => h text ?_)
  refine List.mem_flatMap.mpr ⟨a, List.mem_of_mem_filter ha, ?_⟩
  simpa [or_comm] using htext

theorem enumValueText_clean {value : Option String} (h : ∀ text ∈ value, Over isClean text) :
    Over isClean (enumValueText value) := by
  cases value with
  | none => decide
  | some text =>
    rw [enumValueText]
    split_ifs
    · decide
    · exact over_append.mpr ⟨by decide, h text rfl⟩

end Composed

/-! ## Lines of declarations -/

/-- The lines of a member are plain. What may have brackets in front of the name is followed by a
parenthesis, a colon or a comma. -/
theorem Member.lines_plain {m : Member} (h : ∀ text ∈ m.texts, Over isClean text) :
    ∀ text ∈ m.lines, IsPlain text := by
  intro text htext
  -- the line is cut behind the name, as from there on it is clean
  cases m with
  | constructor name modifiers parameters =>
    simp only [texts, List.forall_mem_cons, List.forall_mem_append] at h
    obtain ⟨hname, hmodifiers, hparameters⟩ := h
    obtain rfl := List.mem_singleton.mp htext
    refine ⟨_, _, rfl, ?_, parameterList_clean hparameters, '(', ?_, by decide⟩
    · exact over_append.mpr ⟨memberModifiers_unbroken hmodifiers, hname.unbroken⟩
    · simp [parameterList]
  | field type declared modifiers =>
    simp only [texts, List.forall_mem_cons, List.forall_mem_append] at h
    obtain ⟨htype, hmodifiers, hdeclared⟩ := h
    obtain ⟨v, hv, rfl⟩ := List.mem_map.mp htext
    have hname : Over isClean v.name := hdeclared _ (List.mem_flatMap.mpr ⟨v, hv, by simp⟩)
    have hinitializer : Over isClean (initializerText v.initializer) :=
      initializerText_clean fun t ht => hdeclared t (List.mem_flatMap.mpr ⟨v, hv, by simp [ht]⟩)
    refine ⟨memberModifiers modifiers ++ v.name, " : " ++ type ++ initializerText v.initializer,
      by simp only [String.append_assoc], ?_, ?_, ':', by simp, by decide⟩
    · exact over_append.mpr ⟨memberModifiers_unbroken hmodifiers, hname.unbroken⟩
    · exact over_append.mpr ⟨over_append.mpr ⟨by decide, htype⟩, hinitializer⟩
  | property name type modifiers accessors initializer =>
    simp only [texts, List.forall_mem_cons, List.forall_mem_append] at h
    obtain ⟨hname, htype, ⟨hmodifiers, haccessors⟩, hinitializer⟩ := h
    obtain rfl := List.mem_singleton.mp htext
    refine ⟨memberModifiers modifiers ++ name, " : " ++ (type ++ (" " ++
      (accessorList (accessors.getD []) ++ initializerText initializer))),
      by simp only [String.append_assoc], ?_, ?_, ':', by simp, by decide⟩
    · exact over_append.mpr ⟨memberModifiers_unbroken hmodifiers, hname.unbroken⟩
    · simp only [over_append]
      exact ⟨by decide, htype, by decide, accessorList_clean haccessors,
        initializerText_clean hinitializer⟩
  | method name returnType modifiers parameters =>
    simp only [texts, List.forall_mem_cons, List.forall_mem_append] at h
    obtain ⟨hname, htype, hmodifiers, hparameters⟩ := h
    obtain rfl := List.mem_singleton.mp htext
    refine ⟨memberModifiers modifiers ++ name, parameterList parameters ++ (" : " ++ returnType),
      by simp only [String.append_assoc], ?_, ?_, ':', by simp, by decide⟩
    · exact over_append.mpr ⟨memberModifiers_unbroken hmodifiers, hname.unbroken⟩
    · simp only [over_append]
      exact ⟨parameterList_clean hparameters, by decide, htype⟩
  | enumMember name value =>
    simp only [texts, List.forall_mem_cons, Option.mem_toList] at h
    obtain ⟨hname, hvalue⟩ := h
    obtain rfl := List.mem_singleton.mp htext
    refine ⟨"", name ++ enumValueText value ++ ",", by simp, by decide, ?_, ',', by simp, by decide⟩
    simp only [over_append]
    exact ⟨⟨hname, enumValueText_clean hvalue⟩, by decide⟩

theorem TypeHead.edges_plain {head : TypeHead} (hname : Over isClean head.name)
    (hbases : ∀ base ∈ head.baseTypes, Over isClean base) : ∀ text ∈ head.edges, IsPlain text := by
  intro text htext
  obtain ⟨base, hbase, rfl⟩ := List.mem_map.mp htext
  refine ⟨"", head.name ++ " <|-- " ++ base, by simp, by decide, ?_, '<', by simp, by decide⟩
  simp only [over_append]
  exact ⟨⟨hname, by decide⟩, hbases base hbase⟩

theorem TypeHead.header_unbroken (kind : TypeKind) {head : TypeHead}
    (hname : Over isClean head.name) (hparameters : Over isClean head.typeParameters)
    (hmodifiers : ∀ m ∈ head.modifiers, Over isClean m) : Over isUnbroken (head.header kind) := by
  have hkeyword : Over isUnbroken (typeKeyword kind head.modifiers) := by
    unfold typeKeyword
    split
    · decide
    · split_ifs <;> decide
    · decide
  have hmark : Over isUnbroken (kindMark kind) := by cases kind <;> decide
  simp only [header, over_append, and_assoc]
  exact ⟨hkeyword, by decide, hname.unbroken, hparameters.unbroken, by decide, hmark,
    typeModifiers_unbroken hmodifiers, by decide⟩

theorem TypeHead.header_last (kind : TypeKind) (head : TypeHead) :
    (head.header kind).toList.getLast? = some '\x7b' :=
  getLast?_append_of_last _ rfl

theorem EnumHead.header_unbroken {head : EnumHead} (hname : Over isClean head.name)
    (hkeyword : Over isClean head.keyword) : Over isUnbroken head.header := by
  simp only [header, over_append, and_assoc]
  exact ⟨hkeyword.unbroken, by decide, hname.unbroken, by decide⟩

theorem EnumHead.header_last (head : EnumHead) : head.header.toList.getLast? = some '\x7b' :=
  getLast?_append_of_last _ rfl

theorem forall_mem_deeper {p : String → Prop} {ls : List (Nat × String)} :
    (∀ l ∈ deeper ls, p l.2) ↔ ∀ l ∈ ls, p l.2 :=
  List.forall_mem_map

theorem forall_mem_level {p : String → Prop} {texts : List String} :
    (∀ l ∈ level texts, p l.2) ↔ ∀ text ∈ texts, p text :=
  List.forall_mem_map

mutual

/-- No line of a drawing has a line break if no text has one. -/
theorem Declaration.layout_unbroken : ∀ {d : Declaration}, (∀ text ∈ d.texts, Over isClean text) →
    ∀ l ∈ d.layout, Over isUnbroken l.2
  | .type kind head members, h => by
    simp only [texts, List.forall_mem_cons, List.forall_mem_append] at h
    obtain ⟨hname, hparameters, ⟨hmodifiers, hbases⟩, hmembers⟩ := h
    simp only [layout, List.forall_mem_cons, List.forall_mem_append, forall_mem_deeper,
      forall_mem_level]
    refine ⟨TypeHead.header_unbroken kind hname hparameters hmodifiers, layoutAll_unbroken hmembers,
      by decide, ?_⟩
    exact fun text htext => (TypeHead.edges_plain hname hbases text htext).unbroken
  | .enum head members, h => by
    simp only [texts, List.forall_mem_cons] at h
    obtain ⟨hname, hkeyword, hmembers⟩ := h
    simp only [layout, List.forall_mem_cons, List.forall_mem_append, forall_mem_deeper]
    exact ⟨EnumHead.header_unbroken hname hkeyword, layoutAll_unbroken hmembers, by decide, by simp⟩
  | .member m, h =>
    forall_mem_level.mpr fun text htext => (Member.lines_plain h text htext).unbroken
  | .scope _ members, h => layoutAll_unbroken h

theorem Declaration.layoutAll_unbroken : ∀ {ds : List Declaration},
    (∀ text ∈ textsAll ds, Over isClean text) → ∀ l ∈ layoutAll ds, Over isUnbroken l.2
  | [], _ => by simp [layoutAll]
  | d :: rest, h => by
    simp only [textsAll, List.forall_mem_append] at h
    simp only [layoutAll, List.forall_mem_append]
    exact ⟨layout_unbroken h.1, layoutAll_unbroken h.2⟩

end

/-- The lines after the block of a type are those for its base types. -/
theorem TypeHead.edges_eq (head : TypeHead) (header : String) (indent : RawText) (c : Int) :
    Block.edges indent c ⟨header, head.name, head.baseTypes⟩ =
      head.edges.map (indented indent c) := by
  simp [Block.edges, edges]

mutual

/-- **A drawing is in the grammar**, at any depth. -/
theorem Declaration.printed_bracketed (indent : RawText) : ∀ {d : Declaration} (c : Int),
    (∀ text ∈ d.texts, Over isClean text) →
    Bracketed indent c (printed indent c d.layout) d.blocks
  | .type kind head members, c, h => by
    simp only [texts, List.forall_mem_cons, List.forall_mem_append] at h
    obtain ⟨hname, -, ⟨-, hbases⟩, hmembers⟩ := h
    have hinner := printedAll_bracketed indent (c + 1) hmembers
    have hedges := Bracketed.of_plain (TypeHead.edges_plain hname hbases) indent c
    rw [← TypeHead.edges_eq head (head.header kind)] at hedges
    have hblock := Bracketed.block (b := ⟨head.header kind, head.name, head.baseTypes⟩)
      (head.header_last kind) hinner hedges (List.prefix_refl _)
    rw [layout, blocks, printed_cons, printed_append, printed_deeper, printed_cons, printed_level,
      Int.ofNat_zero, Int.add_zero, ← TypeHead.edges_eq head (head.header kind)]
    -- the lines for the base types open no blocks
    rwa [List.append_nil] at hblock
  | .enum head members, c, h => by
    simp only [texts, List.forall_mem_cons] at h
    obtain ⟨-, -, hmembers⟩ := h
    have hinner := printedAll_bracketed indent (c + 1) hmembers
    have hblock := Bracketed.block (b := ⟨head.header, head.name, []⟩) head.header_last hinner .nil
      (List.prefix_refl _)
    rw [layout, blocks, printed_cons, printed_append, printed_deeper, printed_cons, Int.ofNat_zero,
      Int.add_zero]
    rwa [List.append_nil] at hblock
  | .member m, c, h => by
    rw [layout, printed_level]
    exact Bracketed.of_plain (Member.lines_plain h) indent c
  | .scope _ members, c, h => printedAll_bracketed indent c h

theorem Declaration.printedAll_bracketed (indent : RawText) : ∀ {ds : List Declaration} (c : Int),
    (∀ text ∈ textsAll ds, Over isClean text) →
    Bracketed indent c (printed indent c (layoutAll ds)) (blocksAll ds)
  | [], _, _ => .nil
  | d :: rest, c, h => by
    simp only [textsAll, List.forall_mem_append] at h
    rw [layoutAll, blocksAll, printed_append]
    exact (printed_bracketed indent c h.1).append (printedAll_bracketed indent c h.2)

end

/-! ## The count on a rendering -/

/-- **The count on a rendering** without brackets or line breaks in its texts. It is never negative
and zero in the end, and each line is indented by it. It finds one block for each type and
enumeration, and right after the line that closes the block of a type the lines for its base
types. -/
theorem Declaration.render_bracketed {indent : RawText} {d : Declaration}
    (hindent : ∀ symbol ∈ indent, symbol = .char ' ' ∨ symbol = .char '\t')
    (htexts : ∀ text ∈ d.texts, Over isClean text) :
    (∀ p ∈ trace 0 (d.render indent), 0 ≤ p.1 ∧ IsAligned indent p) ∧
      counter 0 (d.render indent) = 0 ∧
      (d.render indent).countP opens = d.blocks.length ∧
      List.Forall₂ (Block.IsFound indent) d.blocks (found 0 (d.render indent)) := by
  have hblank : ∀ symbol ∈ indent, symbol.isBlank = true := by
    intro symbol hsymbol
    rcases hindent symbol hsymbol with rfl | rfl <;> decide
  have hunbroken : indent.IsUnbroken := by
    intro symbol hsymbol
    rcases hindent symbol hsymbol with rfl | rfl <;> decide
  rw [render_eq_printed hunbroken (layout_unbroken htexts)]
  have h := printed_bracketed indent 0 htexts
  exact ⟨h.trace_aligned hblank, h.counter_eq hblank, h.countP_opens hblank, h.found_all hblank⟩

/-- A class with two base types around a structure and an enumeration, in a scope. -/
def nestedShapes : Declaration :=
  .scope (.namespaceOf "Shapes")
    [.type .classType
      { name := "Canvas", modifiers := ["public", "abstract"], baseTypes := ["Base", "IDraw"] }
      [.member (.field "int" [⟨"count", some ⟨"1", "integer_literal"⟩⟩] ["private", "static"]),
        .type .structType { name := "Point", baseTypes := ["IPoint"] }
          [.member (.constructor "Point" [] [⟨"x", "int"⟩])],
        .enum { name := "Mode" } [.member (.enumMember "Fill" (some "2"))],
        .member (.method "Draw" "void" ["public", "abstract"] [])]]

theorem Declaration.render_bracketed_nestedShapes :
    (∀ symbol ∈ RawText.ofString "\t ", symbol = .char ' ' ∨ symbol = .char '\t') ∧
      (∀ text ∈ nestedShapes.texts, Over isClean text) ∧
      (nestedShapes.render "\t ").countP opens = 3 ∧
      List.Forall₂ (Block.IsFound "\t ") nestedShapes.blocks (found 0 (nestedShapes.render "\t ")) ∧
      (∀ p ∈ trace 0 (nestedShapes.render "\t "), 0 ≤ p.1 ∧ IsAligned "\t " p) ∧
      counter 0 (nestedShapes.render "\t ") = 0 := by
  have hindent : ∀ symbol ∈ RawText.ofString "\t ", symbol = .char ' ' ∨ symbol = .char '\t' := by
    decide
  have htexts : ∀ text ∈ nestedShapes.texts, Over isClean text := by decide +kernel
  obtain ⟨haligned, hzero, hcount, hfound⟩ := render_bracketed hindent htexts
  exact ⟨hindent, htexts, hcount, hfound, haligned, hzero⟩

end ClassChart
