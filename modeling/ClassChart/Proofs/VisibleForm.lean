import ClassChart.Proofs.LineLayout

/-!
# The visible form of a declaration

Much of a declaration leaves no trace in its drawing: scopes, the visibility of types, all modifiers
of enumerations, private accessors, initial values that are no literals. The visible form is what
is left without all that. A declaration is drawn like the declarations of its visible form, one after
the other, by every pen. So two declarations with the same visible form cannot be told apart by their
drawings.

## Main definitions

* `TypeHead.visible`, `EnumHead.visible`, `Member.visible`: one declaration without what is hidden
* `Declaration.visible`: the declarations that take the place of one, at every level

## Main results

* `TypeHead.header_visible`, `Member.lines_visible`: hidden parts are on no line
* `Declaration.layoutAll_visible`: the lines of a declaration are those of its visible form
* `Declaration.draw_visible`: so is its drawing, whatever the pen
-/

namespace ClassChart

/-! ## What is hidden in one declaration -/

/-- The modifiers that are hidden on types. -/
def hiddenModifiers : List String :=
  ["public", "private", "protected", "internal", "abstract"]

/-- The modifiers of a type without the hidden ones. A class that is abstract is so in its visible
form, where that is said once and first, wherever it stood. -/
def visibleModifiers (kind : TypeKind) (modifiers : List String) : List String :=
  (if kind = .classType ∧ "abstract" ∈ modifiers then ["abstract"] else []) ++
    modifiers.filter (· ∉ hiddenModifiers)

/-- The head of a type without its hidden modifiers. -/
def TypeHead.visible (kind : TypeKind) (head : TypeHead) : TypeHead :=
  { head with modifiers := visibleModifiers kind head.modifiers }

/-- The head of an enumeration without its modifiers. -/
def EnumHead.visible (head : EnumHead) : EnumHead :=
  { head with modifiers := [] }

/-- An initial value, if it is a literal. -/
def visibleInitializer (initializer : Option Initializer) : Option Initializer :=
  initializer.filter (·.isLiteral)

/-- The accessors that are not private. No list of accessors is an empty one. -/
def visibleAccessors (accessors : Option (List Accessor)) : List Accessor :=
  (accessors.getD []).filter fun a => "private" ∉ a.modifiers

namespace Member

/-- A member without its hidden parts. -/
def visible : Member → Member
  | .field type declared modifiers =>
    .field type (declared.map fun v => ⟨v.name, visibleInitializer v.initializer⟩) modifiers
  | .property name type modifiers accessors initializer =>
    .property name type modifiers (some (visibleAccessors accessors)) (visibleInitializer initializer)
  | .enumMember name value => .enumMember name (value.filter (· ≠ ""))
  | m => m

/-- Whether a member is a field that declares no variable. -/
def isVacant : Member → Bool
  | .field _ declared _ => declared.isEmpty
  | _ => false

end Member

mutual

/-- The declarations that take the place of a declaration in its visible form. -/
def Declaration.visible : Declaration → List Declaration
  | .type kind head members => [.type kind (head.visible kind) (Declaration.visibleAll members)]
  | .enum head members => [.enum head.visible (Declaration.visibleAll members)]
  | .member m => if m.isVacant then [] else [.member m.visible]
  | .scope _ members => Declaration.visibleAll members

/-- The declarations that take the place of declarations, in order. -/
def Declaration.visibleAll : List Declaration → List Declaration
  | [] => []
  | d :: rest => d.visible ++ Declaration.visibleAll rest

end

/-! ## Hidden parts are on no line -/

theorem isHiddenOnTypes_eq (m : String) : isHiddenOnTypes m = decide (m ∈ hiddenModifiers) :=
  List.contains_eq_mem m _

/-- The mark of an abstract class is itself a hidden modifier. -/
theorem typeModifiers_visible (kind : TypeKind) (modifiers : List String) :
    typeModifiers (visibleModifiers kind modifiers) = typeModifiers modifiers := by
  have hmark : (if kind = .classType ∧ "abstract" ∈ modifiers then ["abstract"] else []).filter
      (fun m => !isHiddenOnTypes m) = [] := by
    split <;> rfl
  have hfilter : (modifiers.filter (· ∉ hiddenModifiers)).filter (fun m => !isHiddenOnTypes m) =
      modifiers.filter fun m => !isHiddenOnTypes m := by
    rw [List.filter_filter]
    apply List.filter_congr
    intro m _
    rw [isHiddenOnTypes_eq, decide_not, Bool.and_self]
  rw [typeModifiers, typeModifiers, visibleModifiers, List.filter_append, hmark, hfilter,
    List.nil_append]

/-- Only a class is drawn by another keyword if it is abstract, and that is kept. -/
theorem typeKeyword_visible (kind : TypeKind) (modifiers : List String) :
    typeKeyword kind (visibleModifiers kind modifiers) = typeKeyword kind modifiers := by
  cases kind with
  | interfaceType => rfl
  | structType => rfl
  | classType =>
    have habstract : "abstract" ∈ visibleModifiers .classType modifiers ↔
        "abstract" ∈ modifiers := by
      rw [visibleModifiers, List.mem_append, List.mem_filter]
      constructor
      · -- the mark is only there if the modifier is
        rintro (hmark | ⟨hmem, -⟩)
        · split at hmark
          · rename_i h
            exact h.2
          · cases hmark
        · exact hmem
      · intro h
        rw [if_pos ⟨rfl, h⟩]
        exact .inl List.mem_cons_self
    rw [typeKeyword, typeKeyword, List.contains_eq_mem, List.contains_eq_mem,
      decide_eq_decide.mpr habstract]

theorem TypeHead.header_visible (kind : TypeKind) (head : TypeHead) :
    (head.visible kind).header kind = head.header kind := by
  rw [header, header, visible, typeKeyword_visible, typeModifiers_visible]

theorem initializerText_visible (initializer : Option Initializer) :
    initializerText (visibleInitializer initializer) = initializerText initializer := by
  cases initializer with
  | none => rfl
  | some i =>
    rw [visibleInitializer, Option.filter_some]
    cases h : i.isLiteral with
    | true => rw [if_pos rfl]
    | false =>
      rw [if_neg Bool.false_ne_true, initializerText, initializerText, h, if_neg Bool.false_ne_true]

theorem accessorList_visible (accessors : Option (List Accessor)) :
    accessorList (visibleAccessors accessors) = accessorList (accessors.getD []) := by
  rw [accessorList, accessorList, visibleAccessors, List.filter_filter]
  congr 2
  apply List.filter_congr
  intro a _
  rw [List.contains_eq_mem, decide_not, Bool.and_self]

theorem enumValueText_visible (value : Option String) :
    enumValueText (value.filter (· ≠ "")) = enumValueText value := by
  cases value with
  | none => rfl
  | some v =>
    by_cases h : v = ""
    · subst h
      rfl
    · rw [Option.filter_some, if_pos (decide_eq_true h)]

/-- **The hidden parts of a member are on none of its lines.** -/
theorem Member.lines_visible (m : Member) : m.visible.lines = m.lines := by
  cases m with
  | constructor name modifiers parameters => rfl
  | method name returnType modifiers parameters => rfl
  | enumMember name value => rw [visible, lines, lines, enumValueText_visible]
  | property name type modifiers accessors initializer =>
    rw [visible, lines, lines, Option.getD_some, accessorList_visible, initializerText_visible]
  | field type declared modifiers =>
    rw [visible, lines, lines, List.map_map]
    apply List.map_congr_left
    intro v _
    rw [Function.comp_apply, initializerText_visible]

/-- A field that declares no variable has no lines. -/
theorem Member.lines_of_isVacant {m : Member} (h : m.isVacant = true) : m.lines = [] := by
  cases m with
  | field type declared modifiers => rw [lines, List.isEmpty_iff.mp h, List.map_nil]
  | _ => cases h

/-! ## Drawing the visible form -/

namespace Declaration

theorem layoutAll_append (ds es : List Declaration) :
    layoutAll (ds ++ es) = layoutAll ds ++ layoutAll es := by
  induction ds with
  | nil => rfl
  | cons d ds ih => rw [List.cons_append, layoutAll, layoutAll, ih, List.append_assoc]

theorem layoutAll_singleton (d : Declaration) : layoutAll [d] = d.layout :=
  List.append_nil _

mutual

/-- **The lines of a declaration are those of its visible form.** -/
theorem layoutAll_visible : ∀ d : Declaration, layoutAll d.visible = d.layout
  | .type kind head members => by
    rw [visible, layoutAll_singleton, layout, layout, TypeHead.header_visible,
      layoutAll_visibleAll members]
    rfl
  | .enum head members => by
    rw [visible, layoutAll_singleton, layout, layout, layoutAll_visibleAll members]
    rfl
  | .member m => by
    rw [visible, layout]
    split
    · rename_i hvacant
      rw [Member.lines_of_isVacant hvacant]
      rfl
    · rw [layoutAll_singleton, layout, Member.lines_visible]
  | .scope s members => by rw [visible, layout, layoutAll_visibleAll members]

theorem layoutAll_visibleAll : ∀ ds : List Declaration, layoutAll (visibleAll ds) = layoutAll ds
  | [] => rfl
  | d :: rest => by
    rw [visibleAll, layoutAll_append, layoutAll_visible d, layoutAll_visibleAll rest, layoutAll]

end

/-- **A drawing shows the visible form and nothing else.** Whatever its depth, its indentation and
its limits, a pen draws a declaration as it draws the declarations of the visible form in order. So
it draws declarations with the same visible form alike. -/
theorem draw_visible (d : Declaration) (pen : Pen) :
    d.draw.on pen = (drawAll d.visible).on pen ∧
      ∀ e : Declaration, e.visible = d.visible → e.draw.on pen = d.draw.on pen := by
  have hdraw (e : Declaration) : e.draw = drawAll e.visible := by
    rw [draw_eq_emit, drawAll_eq_emit, layoutAll_visible]
  refine ⟨by rw [hdraw d], ?_⟩
  intro e he
  rw [hdraw e, he, ← hdraw d]

/-- A class in a namespace, with something of everything that is hidden. -/
def veiledClass : Declaration :=
  .scope (.namespaceOf "N")
    [.type .classType ⟨"A", ["public", "static", "abstract", "abstract"], "", ["B"]⟩
      [.member (.field "int" [] []),
        .member (.property "P" "int" [] (some [⟨"get", []⟩, ⟨"set", ["private"]⟩])
          (some ⟨"f()", "invocation_expression"⟩)),
        .scope .other [.enum ⟨"E", ["internal"], "enum"⟩ [.member (.enumMember "X" (some ""))]]]]

/-- The same class without all that. -/
def unveiledClass : Declaration :=
  .type .classType ⟨"A", ["abstract", "static"], "", ["B"]⟩
    [.member (.property "P" "int" [] (some [⟨"get", []⟩]) none),
      .enum ⟨"E", [], "enum"⟩ [.member (.enumMember "X" none)]]

theorem draw_visible_veiledClass :
    veiledClass.visible = [unveiledClass] ∧
      veiledClass.draw.on { depth := -1 } = unveiledClass.draw.on { depth := -1 } :=
  ⟨rfl, (draw_visible unveiledClass _).2 veiledClass rfl⟩

end Declaration

end ClassChart
