import ClassChart.Diagram.Document
import ClassChart.Proofs.DrawnBlocks
import ClassChart.Proofs.ExposedLines
import ClassChart.Proofs.Walk

/-!
# The frame of a document

The texts of a source are drawn as they are, and a text with line breaks in it takes several lines.
The marks that are drawn around it keep its first and its last line from standing alone, but not a
line between two of its breaks. If such a line reads like the end of the frame, a reader takes it
for that. This module says exactly which lines stand alone in a drawing without having been drawn,
and so when the frame of a document can be told.

## Main definitions

* `Run`, `Declaration.runs`: the runs of source text in a drawing, and whether they reach the ends
of their lines

## Main results

* `Declaration.shows_layout`: the lines of a drawing show what its runs expose
* `Declaration.mem_render_iff`: a bare line of a drawing is exposed in a run of source text
* `unbroken_documentLines`: no line of a document has a line break in it
* `document_frame`: either line of the frame occurs once if and only if no run exposes it
-/

namespace ClassChart

/-! ## The runs of source text in a drawing -/

/-- A run of source text in a drawn line. -/
structure Run where
  text : String
  /-- Whether the line starts with it. -/
  opens : Bool := false
  /-- Whether the line ends with it. -/
  closes : Bool := false

/-- **A run exposes a line**: a line of the run stands alone in the drawing. -/
def Run.Exposes (line : RawText) (r : Run) : Prop :=
  Shown line r.opens r.closes r.text

/-- Runs between marks. -/
def innerRuns (texts : List String) : List Run :=
  texts.map fun text => { text }

/-- Whether a modifier of a member is drawn as it is. -/
def isSpelled (modifier : String) : Bool :=
  !(["public", "private", "protected", "abstract", "static"].contains modifier)

/-- The run of an initial value that is drawn. -/
def literalRuns (initializer : Option Initializer) : List Run :=
  (initializer.filter (·.isLiteral)).toList.map fun i => { text := i.text, closes := true }

/-- The texts of the accessors that are drawn. -/
def accessorTexts (accessors : List Accessor) : List String :=
  (accessors.filter fun a => !a.modifiers.contains "private").flatMap fun a =>
    a.modifiers ++ [a.keyword]

/-- The runs in front of what follows the name of a member. Without modifiers the name starts the
line, if that is `flush` with the left edge. -/
def nameRuns (flush : Bool) (modifiers : List String) (name : String) : List Run :=
  innerRuns (modifiers.filter isSpelled) ++ [{ text := name, opens := flush && modifiers.isEmpty }]

/-- The runs in the lines of a member. -/
def Member.runs (flush : Bool) : Member → List Run
  | .constructor name modifiers parameters =>
    nameRuns flush modifiers name ++ innerRuns (parameterTexts parameters)
  | .field type declared modifiers =>
    declared.flatMap fun v => nameRuns flush modifiers v.name ++
      { text := type, closes := (literalRuns v.initializer).isEmpty } :: literalRuns v.initializer
  | .property name type modifiers accessors initializer =>
    nameRuns flush modifiers name ++
      (innerRuns (type :: accessorTexts (accessors.getD [])) ++ literalRuns initializer)
  | .method name returnType modifiers parameters =>
    nameRuns flush modifiers name ++
      (innerRuns (parameterTexts parameters) ++ [{ text := returnType, closes := true }])
  | .enumMember name value => { text := name, opens := flush } :: innerRuns value.toList

/-- The runs in the header of a type. Its type parameters follow its name without a mark. -/
def TypeHead.headerRuns (head : TypeHead) : List Run :=
  innerRuns ((head.name ++ head.typeParameters) ::
    head.modifiers.filter fun m => !isHiddenOnTypes m)

/-- The runs in the lines after the block of a type. -/
def TypeHead.edgeRuns (flush : Bool) (head : TypeHead) : List Run :=
  head.baseTypes.flatMap fun base =>
    [{ text := head.name, opens := flush }, { text := base, closes := true }]

/-- Whether lines at a level are flush with the left edge. -/
def isFlush (indent : RawText) (level : Nat) : Bool :=
  (indent.times level).isEmpty

mutual

/-- The runs of source text in the drawing of a declaration at a level. -/
def Declaration.runs (indent : RawText) : (level : Nat) → Declaration → List Run
  | level, .type _ head members =>
    head.headerRuns ++ (Declaration.runsAll indent (level + 1) members ++
      head.edgeRuns (isFlush indent level))
  | level, .enum head members =>
    { text := head.keyword, opens := isFlush indent level } :: { text := head.name } ::
      Declaration.runsAll indent (level + 1) members
  | level, .member m => m.runs (isFlush indent level)
  | level, .scope _ members => Declaration.runsAll indent level members

/-- The runs of source text in the drawings of declarations. -/
def Declaration.runsAll (indent : RawText) : (level : Nat) → List Declaration → List Run
  | _, [] => []
  | level, d :: rest => d.runs indent level ++ Declaration.runsAll indent level rest

end

/-- One of the runs exposes a line. -/
def AnyExposes (line : RawText) (runs : List Run) : Prop :=
  ∃ r ∈ runs, r.Exposes line

section Runs

variable {line : RawText}

theorem anyExposes_append {rs qs : List Run} :
    AnyExposes line (rs ++ qs) ↔ AnyExposes line rs ∨ AnyExposes line qs := by
  simp only [AnyExposes, List.mem_append, or_and_right, exists_or]

theorem anyExposes_cons {r : Run} {rs : List Run} :
    AnyExposes line (r :: rs) ↔ Shown line r.opens r.closes r.text ∨ AnyExposes line rs := by
  simp only [AnyExposes, List.mem_cons, or_and_right, exists_or, exists_eq_left, Run.Exposes]

theorem anyExposes_nil : ¬AnyExposes line [] := by
  rintro ⟨r, hr, -⟩
  cases hr

theorem anyExposes_flatMap {α : Type} {f : α → List Run} {as : List α} :
    AnyExposes line (as.flatMap f) ↔ ∃ a ∈ as, AnyExposes line (f a) := by
  simp only [AnyExposes, List.mem_flatMap]
  exact ⟨fun ⟨r, ⟨a, ha, hr⟩, h⟩ => ⟨a, ha, r, hr, h⟩, fun ⟨a, ha, r, hr, h⟩ => ⟨r, ⟨a, ha, hr⟩, h⟩⟩

theorem anyExposes_innerRuns {texts : List String} :
    AnyExposes line (innerRuns texts) ↔ ∃ t ∈ texts, Shown line false false t := by
  simp only [AnyExposes, innerRuns, List.mem_map, exists_exists_and_eq_and, Run.Exposes]

end Runs

section Lines

variable {line : RawText} (hline : IsBare line) {opens closes : Bool}

include hline

/-! ### Composed texts -/

theorem IsBare.shown_stereotype (word : String) :
    Shown line opens closes (stereotype word) ↔ Shown line false false word := by
  rw [stereotype, String.append_assoc, hline.shown_cons (by decide), hline.shown_concat (by decide)]

/-- A modifier shows a line only if it is drawn as it is. -/
theorem IsBare.shown_memberSymbol (m : String) :
    Shown line opens false (memberSymbol m) ↔ isSpelled m = true ∧ Shown line false false m := by
  have hsymbol {symbol : String} (hover : Over isUnbroken symbol) (hm : isSpelled m = false) :
      Shown line opens false symbol ↔ isSpelled m = true ∧ Shown line false false m := by
    have hnone : ¬Shown line opens false symbol := not_shown_of_over hover (by simp)
    simp [hm, hnone]
  unfold memberSymbol
  split_ifs with hpublic hprivate hprotected habstract hstatic
  · exact hsymbol (by decide) (by rw [hpublic]; decide)
  · exact hsymbol (by decide) (by rw [hprivate]; decide)
  · exact hsymbol (by decide) (by rw [hprotected]; decide)
  · exact hsymbol (by decide) (by rw [habstract]; decide)
  · exact hsymbol (by decide) (by rw [hstatic]; decide)
  · have hspelled : isSpelled m = true := by
      simp [isSpelled, hpublic, hprivate, hprotected, habstract, hstatic]
    rw [hline.shown_stereotype, hspelled, eq_self, true_and]

/-- Words in front of a text, with one blank after each. -/
theorem IsBare.shown_spaced {α : Type} {f : α → String} {p : α → Prop} {as : List α}
    (hne : ∀ a, f a ≠ "") (h : ∀ a ∈ as, ∀ o, Shown line o false (f a) ↔ p a) (rest : String) :
    Shown line opens closes (spaced (as.map f) ++ rest) ↔
      (∃ a ∈ as, p a) ∨ Shown line (opens && as.isEmpty) closes rest := by
  induction as generalizing opens with
  | nil => simp [spaced]
  | cons a as ih =>
    obtain ⟨ha, has⟩ := List.forall_mem_cons.mp h
    have hwords : ∀ w ∈ (a :: as).map f, w ≠ "" := List.forall_mem_map.mpr fun b _ => hne b
    have hcons : spaced ((a :: as).map f) = f a ++ (" " ++ spaced (as.map f)) := spaced_cons hwords
    rw [hcons, String.append_assoc, String.append_assoc, hline.shown_append (by decide), ha, ih has]
    simp [or_assoc]

theorem IsBare.shown_memberModifiers (modifiers : List String) (rest : String) :
    Shown line opens closes (memberModifiers modifiers ++ rest) ↔
      (∃ m ∈ modifiers.filter isSpelled, Shown line false false m) ∨
        Shown line (opens && modifiers.isEmpty) closes rest := by
  rw [memberModifiers, hline.shown_spaced memberSymbol_ne_empty fun m _ _ => hline.shown_memberSymbol m]
  simp only [List.mem_filter, and_assoc]

theorem IsBare.shown_typeModifiers (modifiers : List String) (rest : String) :
    Shown line false closes (typeModifiers modifiers ++ rest) ↔
      (∃ m ∈ modifiers.filter fun m => !isHiddenOnTypes m, Shown line false false m) ∨
        Shown line false closes rest := by
  rw [typeModifiers, hline.shown_spaced stereotype_ne_empty fun m _ _ => hline.shown_stereotype m,
    Bool.false_and]

theorem IsBare.shown_parameterList (parameters : List Parameter) (s rest : String) :
    Shown line opens closes (s ++ (parameterList parameters ++ rest)) ↔
      Shown line opens false s ∨ (∃ t ∈ parameterTexts parameters, Shown line false false t) ∨
        Shown line false closes rest := by
  have hparameter (p : Parameter) : Shown line false false (p.name ++ ":" ++ p.type) ↔
      Shown line false false p.name ∨ Shown line false false p.type := by
    rw [String.append_assoc, hline.shown_append (by decide)]
  have hlist : Shown line false false
      (", ".intercalate (parameters.map fun p => p.name ++ ":" ++ p.type)) ↔
      ∃ t ∈ parameterTexts parameters, Shown line false false t := by
    rw [hline.shown_words (by decide)]
    simp [parameterTexts, exists_or, and_or_left, or_and_right, hparameter]
  have hparts : s ++ (parameterList parameters ++ rest) = s ++ ("(" ++ (", ".intercalate
      (parameters.map fun p => p.name ++ ":" ++ p.type) ++ (")" ++ rest))) := by
    simp only [parameterList, String.append_assoc]
  rw [hparts, hline.shown_append (by decide), hline.shown_append (by decide), hlist]

/-- An initial value that is drawn ends the line, and else what is before it does. -/
theorem IsBare.shown_initializerText (initializer : Option Initializer) (s : String) :
    Shown line opens true (s ++ initializerText initializer) ↔
      Shown line opens (literalRuns initializer).isEmpty s ∨
        AnyExposes line (literalRuns initializer) := by
  -- a missing value and one that is no literal are drawn alike
  have hnone (h : literalRuns initializer = []) (htext : initializerText initializer = "") :
      Shown line opens true (s ++ initializerText initializer) ↔
        Shown line opens (literalRuns initializer).isEmpty s ∨
          AnyExposes line (literalRuns initializer) := by
    rw [h, htext, String.append_empty, or_iff_left anyExposes_nil]
    rfl
  cases initializer with
  | none => exact hnone rfl rfl
  | some i =>
    by_cases hliteral : i.isLiteral
    · have hruns : literalRuns (some i) = [{ text := i.text, closes := true }] := by
        simp [literalRuns, hliteral]
      rw [hruns, initializerText, if_pos hliteral, hline.shown_append (by decide), anyExposes_cons,
        or_iff_left anyExposes_nil]
      rfl
    · exact hnone (by simp [literalRuns, hliteral]) (if_neg hliteral)

theorem IsBare.shown_accessorList (accessors : List Accessor) :
    Shown line opens closes (accessorList accessors) ↔
      ∃ t ∈ accessorTexts accessors, Shown line false false t := by
  have haccessor (a : Accessor) (o c : Bool) :
      Shown line o c (stereotype (" ".intercalate (a.modifiers ++ [a.keyword]))) ↔
        ∃ t ∈ a.modifiers ++ [a.keyword], Shown line false false t := by
    rw [hline.shown_stereotype, hline.shown_words (by decide)]
  rw [accessorList, hline.shown_intercalate (by decide) fun a _ o c _ _ => haccessor a o c]
  simp only [accessorTexts, List.mem_flatMap]
  exact ⟨fun ⟨a, ha, t, ht, h⟩ => ⟨t, ⟨a, ha, ht⟩, h⟩, fun ⟨t, ⟨a, ha, ht⟩, h⟩ => ⟨a, ha, t, ht, h⟩⟩

theorem IsBare.shown_enumValueText (value : Option String) (s : String) :
    Shown line opens false (s ++ enumValueText value) ↔
      Shown line opens false s ∨ ∃ t ∈ value.toList, Shown line false false t := by
  cases value with
  | none => simp [enumValueText]
  | some text =>
    rw [enumValueText]
    split_ifs with hempty
    · have hnone : ¬Shown line false false text := by
        rw [String.isEmpty_iff.mp hempty]
        exact hline.not_shown_empty
      simp [hnone]
    · rw [hline.shown_append (by decide)]
      simp

/-! ### Drawn lines -/

/-- What comes before the rest of a member's line. -/
theorem IsBare.shown_name (modifiers : List String) (name : String) :
    Shown line opens false (memberModifiers modifiers ++ name) ↔
      AnyExposes line (nameRuns opens modifiers name) := by
  rw [hline.shown_memberModifiers, nameRuns, anyExposes_append, anyExposes_innerRuns,
    anyExposes_cons, or_iff_left anyExposes_nil]

/-- **The lines of a member show what its runs expose.** -/
theorem IsBare.shown_member (flush : Bool) (m : Member) :
    (∃ text ∈ m.lines, Shown line flush true text) ↔ AnyExposes line (m.runs flush) := by
  -- each line is cut at its separators; only its first and last parts can reach the ends
  cases m with
  | constructor name modifiers parameters =>
    have hparts : memberModifiers modifiers ++ name ++ parameterList parameters =
        (memberModifiers modifiers ++ name) ++ (parameterList parameters ++ "") := by
      rw [String.append_empty]
    simp only [Member.lines, Member.runs, List.mem_singleton, exists_eq_left]
    rw [hparts, hline.shown_parameterList, hline.shown_name, anyExposes_append,
      anyExposes_innerRuns, or_iff_left hline.not_shown_empty]
  | field type declared modifiers =>
    simp only [Member.lines, Member.runs, List.mem_map, exists_exists_and_eq_and,
      anyExposes_flatMap]
    refine exists_congr fun v => and_congr_right fun _ => ?_
    have hparts :
        memberModifiers modifiers ++ v.name ++ " : " ++ type ++ initializerText v.initializer =
          (memberModifiers modifiers ++ v.name) ++
            (" : " ++ (type ++ initializerText v.initializer)) := by
      simp only [String.append_assoc]
    rw [hparts, hline.shown_append (by decide), hline.shown_name, hline.shown_initializerText,
      anyExposes_append, anyExposes_cons]
  | property name type modifiers accessors initializer =>
    have hparts : memberModifiers modifiers ++ name ++ " : " ++ type ++ " " ++
        accessorList (accessors.getD []) ++ initializerText initializer =
        (memberModifiers modifiers ++ name) ++ (" : " ++ (type ++ (" " ++
          (accessorList (accessors.getD []) ++ initializerText initializer)))) := by
      simp only [String.append_assoc]
    simp only [Member.lines, Member.runs, List.mem_singleton, exists_eq_left]
    rw [hparts, hline.shown_append (by decide), hline.shown_name, hline.shown_append (by decide),
      hline.shown_initializerText, hline.shown_accessorList, anyExposes_append, anyExposes_append,
      anyExposes_innerRuns]
    simp [or_assoc]
  | method name returnType modifiers parameters =>
    have hparts : memberModifiers modifiers ++ name ++ parameterList parameters ++ " : " ++
        returnType = (memberModifiers modifiers ++ name) ++
          (parameterList parameters ++ (" : " ++ returnType)) := by
      simp only [String.append_assoc]
    simp only [Member.lines, Member.runs, List.mem_singleton, exists_eq_left]
    rw [hparts, hline.shown_parameterList, hline.shown_name, hline.shown_cons (by decide),
      anyExposes_append, anyExposes_append, anyExposes_innerRuns, anyExposes_cons,
      or_iff_left anyExposes_nil]
  | enumMember name value =>
    simp only [Member.lines, Member.runs, List.mem_singleton, exists_eq_left]
    rw [hline.shown_concat (by decide), hline.shown_enumValueText, anyExposes_cons,
      anyExposes_innerRuns]

theorem IsBare.shown_header (kind : TypeKind) (head : TypeHead) :
    Shown line opens true (head.header kind) ↔ AnyExposes line head.headerRuns := by
  have hparts : head.header kind = typeKeyword kind head.modifiers ++ (" " ++
      ((head.name ++ head.typeParameters) ++ (" " ++ (kindMark kind ++
        (typeModifiers head.modifiers ++ "\x7b"))))) := by
    simp only [TypeHead.header, String.append_assoc]
  -- the keyword has no line break and does not reach the end of its line
  have hkeyword : ¬Shown line opens false (typeKeyword kind head.modifiers) := by
    refine not_shown_of_over ?_ (by simp)
    unfold typeKeyword
    split
    · decide
    · split_ifs <;> decide
    · decide
  have hmark (rest : String) :
      Shown line false true (kindMark kind ++ rest) ↔ Shown line false true rest := by
    cases kind with
    | structType =>
      rw [kindMark, String.append_assoc, hline.shown_append (by decide), hline.shown_stereotype]
      exact or_iff_right (not_shown_of_over (by decide) (by simp))
    | interfaceType | classType => simp [kindMark]
  rw [hparts, hline.shown_append (by decide), or_iff_right hkeyword, hline.shown_append (by decide),
    hmark, hline.shown_typeModifiers, or_iff_left (hline.not_shown_separator (by decide)),
    TypeHead.headerRuns, anyExposes_innerRuns]
  simp

theorem IsBare.shown_edges (flush : Bool) (head : TypeHead) :
    (∃ text ∈ head.edges, Shown line flush true text) ↔ AnyExposes line (head.edgeRuns flush) := by
  have hedge (base : String) : Shown line flush true (head.name ++ " <|-- " ++ base) ↔
      Shown line flush false head.name ∨ Shown line false true base := by
    rw [String.append_assoc, hline.shown_append (by decide)]
  simp [TypeHead.edges, TypeHead.edgeRuns, anyExposes_flatMap, anyExposes_cons, anyExposes_nil,
    hedge]

theorem IsBare.shown_enumHeader (head : EnumHead) :
    Shown line opens true head.header ↔
      Shown line opens false head.keyword ∨ Shown line false false head.name := by
  rw [EnumHead.header, String.append_assoc, String.append_assoc, hline.shown_append (by decide),
    hline.shown_concat (by decide)]

end Lines

/-! ### Whole drawings -/

/-- A layout at a level shows a line. -/
def Shows (line indent : RawText) (n : Nat) (ls : List (Nat × String)) : Prop :=
  ∃ l ∈ ls, Shown line (isFlush indent (n + l.1)) true l.2

section Layouts

variable {line : RawText} (indent : RawText) (n : Nat)

theorem shows_cons (text : String) (ls : List (Nat × String)) :
    Shows line indent n ((0, text) :: ls) ↔
      Shown line (isFlush indent n) true text ∨ Shows line indent n ls := by
  simp [Shows]

theorem shows_append (ls ms : List (Nat × String)) :
    Shows line indent n (ls ++ ms) ↔ Shows line indent n ls ∨ Shows line indent n ms := by
  simp only [Shows, List.mem_append, or_and_right, exists_or]

theorem shows_deeper (ls : List (Nat × String)) :
    Shows line indent n (deeper ls) ↔ Shows line indent (n + 1) ls := by
  simp only [Shows, deeper, List.mem_map, exists_exists_and_eq_and]
  refine exists_congr fun l => and_congr_right fun _ => ?_
  rw [Nat.add_comm l.1 1, Nat.add_assoc]

theorem shows_level (texts : List String) :
    Shows line indent n (level texts) ↔
      ∃ text ∈ texts, Shown line (isFlush indent n) true text := by
  simp [Shows, level]

mutual

/-- **The lines of a drawing show what its runs expose**, at any level. -/
theorem Declaration.shows_layout (hline : IsBare line) : ∀ (n : Nat) (d : Declaration),
    Shows line indent n d.layout ↔ AnyExposes line (d.runs indent n)
  | n, .type kind head members => by
    have hfooter : ¬Shown line (isFlush indent n) true footer :=
      hline.not_shown_separator (by decide)
    rw [layout, runs, shows_cons, shows_append, shows_deeper, shows_cons, shows_level,
      shows_layoutAll hline (n + 1) members, hline.shown_header, hline.shown_edges,
      or_iff_right hfooter, anyExposes_append, anyExposes_append]
  | n, .enum head members => by
    have hfooter : ¬Shows line indent n [(0, footer)] := by
      rw [shows_cons]
      rintro (h | ⟨l, hl, -⟩)
      · exact hline.not_shown_separator (by decide) h
      · cases hl
    rw [layout, runs, shows_cons, shows_append, shows_deeper, shows_layoutAll hline (n + 1) members,
      hline.shown_enumHeader, or_iff_left hfooter, anyExposes_cons, anyExposes_cons, or_assoc]
  | n, .member m => by rw [layout, runs, shows_level, hline.shown_member]
  | n, .scope _ members => by rw [layout, runs, shows_layoutAll hline n members]

theorem Declaration.shows_layoutAll (hline : IsBare line) : ∀ (n : Nat) (ds : List Declaration),
    Shows line indent n (layoutAll ds) ↔ AnyExposes line (runsAll indent n ds)
  | _, [] => by simp [layoutAll, runsAll, Shows, AnyExposes]
  | n, d :: rest => by
    rw [layoutAll, runsAll, shows_append, anyExposes_append, shows_layout hline n d,
      shows_layoutAll hline n rest]

end

end Layouts

/-- A line behind a margin starts at the left edge if the margin is empty. -/
theorem IsBare.exposed_indented {line indent : RawText} (hline : IsBare line)
    (hindent : ∀ symbol ∈ indent, symbol = .char ' ' ∨ symbol = .char '\t') (n : Nat)
    (text : String) :
    Exposed line true true (indented indent n text) ↔
      Shown line (isFlush indent n) true text := by
  unfold indented Shown isFlush
  have hmargin : ∀ symbol ∈ indent.times n, ∃ c, symbol = .char c ∧ isMark c = true := by
    intro symbol hsymbol
    rcases hindent symbol (RawText.mem_of_mem_times hsymbol) with rfl | rfl
    · exact ⟨' ', rfl, by decide⟩
    · exact ⟨'\t', rfl, by decide⟩
  -- by the last symbol of the margin, which is a mark
  rcases List.eq_nil_or_concat (indent.times n) with hnil | ⟨front, last, hconcat⟩
  · rw [hnil]
    rfl
  · rw [List.concat_eq_append] at hconcat
    obtain ⟨c, rfl, hc⟩ := hmargin last (by simp [hconcat])
    have hfront : RawText.IsUnbroken front := by
      intro symbol hsymbol
      obtain ⟨d, rfl, hd⟩ := hmargin symbol (by simp [hconcat, hsymbol])
      exact isBreak_of_isMark hd
    have hnone : ¬Exposed line true false front := by
      rw [exposed_of_isUnbroken hfront]
      simp
    have hmargin : (front ++ [Symbol.char c]).isEmpty = false := by simp
    rw [hconcat, hmargin, List.append_assoc, List.singleton_append, hline.exposed_mark hc,
      or_iff_right hnone]

/-- Of lines with a line feed after each, one exposes the line. -/
theorem IsBare.exposed_flatMap {line : RawText} (hline : IsBare line) (ls : List RawText) :
    Exposed line true true (ls.flatMap (· ++ [.char '\n'])) ↔
      ∃ l ∈ ls, Exposed line true true l := by
  have hfeed : Symbol.char '\n' ∉ line := fun h => absurd (hline.unbroken _ h) (by decide)
  have hbreak : (Symbol.char '\n').isBreak = true := by decide
  induction ls with
  | nil => simpa using not_exposed_nil hline.ne_nil
  | cons l ls ih =>
    rw [List.flatMap_cons, List.append_assoc, List.singleton_append,
      exposed_append_cons hline.ne_nil hfeed, hbreak]
    simp [ih]

/-- **A bare line of a drawing is exposed in a run of source text**, as all that is drawn has a
mark. -/
theorem Declaration.mem_render_iff {line indent : RawText} (hline : IsBare line)
    (hindent : ∀ symbol ∈ indent, symbol = .char ' ' ∨ symbol = .char '\t') (d : Declaration) :
    line ∈ d.render indent ↔ ∃ r ∈ d.runs indent 0, r.Exposes line := by
  rw [render, Text.mem_lines_iff hline.ne_nil hline.unbroken, writes_eq, ← List.flatMap_def,
    hline.exposed_flatMap]
  refine Iff.trans ?_ (shows_layout indent hline 0 d)
  simp only [printed, Shows, List.mem_map, exists_exists_and_eq_and]
  refine exists_congr fun l => and_congr_right fun _ => ?_
  rw [Int.zero_add, Nat.zero_add]
  exact hline.exposed_indented hindent l.1 l.2

/-! ## The lines of a document -/

theorem Text.isBlank_of_isLineBreak {c : Char} (h : isLineBreak c = true) : isBlank c = true := by
  simp only [isLineBreak, Bool.or_eq_true, beq_iff_eq] at h
  simp only [or_assoc] at h
  rcases h with rfl | rfl | rfl | rfl | rfl | rfl | rfl | rfl | rfl | rfl <;> decide

/-- Line breaks are blank, so the words of a title have none. -/
theorem isUnbroken_titleLine (title : RawText) : (titleLine title).IsUnbroken := by
  intro symbol hsymbol
  rcases mem_titleLine hsymbol with hkeyword | ⟨w, hw, hsymbol⟩
  · exact RawText.isUnbroken_ofString (s := "title ") (by decide) symbol hkeyword
  · obtain ⟨-, hletter⟩ := Text.mem_of_mem_words hw hsymbol
    cases symbol with
    -- a lone half is neither a break nor a blank
    | half index => rfl
    | char c =>
      cases hbreak : Text.isLineBreak c with
      | true =>
        have hblank := Text.isBlank_of_isLineBreak hbreak
        rw [Symbol.isCharWith, hblank] at hletter
        cases hletter
      | false => exact hbreak

/-- Lines with a line feed after each are split again, and nothing is left. -/
theorem splitOn_flatMap {ls : List RawText} (h : ∀ l ∈ ls, .char '\n' ∉ l) :
    (ls.flatMap (· ++ [.char '\n'])).splitOn (.char '\n') = ls ++ [[]] := by
  have hjoin : [Symbol.char '\n'].intercalate (ls ++ [[]]) = ls.flatMap (· ++ [.char '\n']) := by
    induction ls with
    | nil => rfl
    | cons l ls ih =>
      obtain ⟨next, more, hmore⟩ : ∃ next more, ls ++ [[]] = next :: more :=
        List.exists_cons_of_ne_nil (by simp)
      rw [List.cons_append, hmore, List.intercalate_cons_cons, ← hmore,
        ih (List.forall_mem_cons.mp h).2, List.flatMap_cons]
  rw [← hjoin, List.splitOn_intercalate _ ?_ (by simp)]
  exact List.forall_mem_append.mpr ⟨h, by simp⟩

theorem isBare_frameStart : IsBare frameStart :=
  isBare_ofString (by decide) (by decide) (by decide)

theorem isBare_frameEnd : IsBare frameEnd :=
  isBare_ofString (by decide) (by decide) (by decide)

/-- A title line has a blank in it, so it is not bare. -/
theorem IsBare.notMem_titleLines {line : RawText} (hline : IsBare line) (title : Option RawText) :
    line ∉ titleLines title := by
  intro h
  obtain ⟨t, -, rfl⟩ := exists_of_mem_titleLines h
  have hblank : .char ' ' ∈ titleLine t := List.mem_append_left _ (by decide)
  exact absurd (hline.unmarked ' ' hblank) (by decide)

/-- No line of a document has a line break in it. -/
theorem unbroken_documentLines (d : Declaration) (indent : RawText) (title : Option RawText)
    (framed : Bool) : ∀ l ∈ documentLines (d.render indent) title framed, l.IsUnbroken := by
  intro l hl
  rcases mem_documentLines hl with hl | hl | rfl | rfl
  · exact Text.isUnbroken_of_mem_lines hl
  · obtain ⟨t, -, rfl⟩ := exists_of_mem_titleLines hl
    exact isUnbroken_titleLine t
  · exact isBare_frameStart.unbroken
  · exact isBare_frameEnd.unbroken

/-- The lines of a framed document, up to the text behind its last line feed, which is empty. -/
theorem splitOn_document (d : Declaration) (indent : RawText) (title : Option RawText) :
    (document (d.render indent) title true).splitOn (.char '\n') =
      frameStart :: (titleLines title ++ d.render indent) ++ [frameEnd, []] := by
  rw [document, splitOn_flatMap]
  · simp [documentLines]
  · intro l hl hfeed
    exact absurd (unbroken_documentLines d indent title true l hl _ hfeed) (by decide)

/-- **When the frame of a document can be told.** Its first line opens the frame and its last one
closes it. Either line occurs just this once if and only if no run of source text exposes it. -/
theorem document_frame {indent : RawText}
    (hindent : ∀ symbol ∈ indent, symbol = .char ' ' ∨ symbol = .char '\t') (unit : Declaration)
    (title : Option RawText) :
    let ls := (document (unit.render indent) title true).splitOn (.char '\n')
    ls.head? = some frameStart ∧ ls.dropLast.getLast? = some frameEnd ∧ ls.getLast? = some [] ∧
      (ls.count frameStart = 1 ↔ ∀ r ∈ unit.runs indent 0, ¬r.Exposes frameStart) ∧
      (ls.count frameEnd = 1 ↔ ∀ r ∈ unit.runs indent 0, ¬r.Exposes frameEnd) := by
  intro ls
  have hls : ls = frameStart :: (titleLines title ++ unit.render indent) ++ [frameEnd, []] :=
    splitOn_document unit indent title
  -- one argument for both lines of the frame: each is in it once, and no title line is bare
  have hcount {line : RawText} (hline : IsBare line)
      (hframe : (frameStart :: [frameEnd, []]).count line = 1) :
      ls.count line = 1 ↔ ∀ r ∈ unit.runs indent 0, ¬r.Exposes line := by
    have hbetween : ls.count line = 1 + (unit.render indent).count line := by
      rw [← hframe, hls]
      have htitle := List.count_eq_zero.mpr (hline.notMem_titleLines title)
      simp only [List.cons_append, List.count_cons, List.count_append, htitle]
      omega
    rw [hbetween, Nat.add_eq_left, List.count_eq_zero,
      Declaration.mem_render_iff hline hindent]
    exact ⟨fun h r hr hshown => h ⟨r, hr, hshown⟩, fun h ⟨r, hr, hshown⟩ => h r hr hshown⟩
  refine ⟨by rw [hls]; rfl, ?_, ?_, hcount isBare_frameStart (by decide),
    hcount isBare_frameEnd (by decide)⟩
  · rw [hls, List.dropLast_append_of_ne_nil (by simp), List.getLast?_append]
    rfl
  · rw [hls, List.getLast?_append]
    rfl

/-- A class with a method that has one parameter. -/
def singleMethod (type : String) : Declaration :=
  .type .classType { name := "C" } [.member (.method "M" "void" [] [⟨"p", type⟩])]

/-- The first line of a type reads like the end of the frame, but a colon stands before it. -/
theorem document_frame_singleMethod :
    let unit := singleMethod "@enduml\n<int>"
    let ls := (document (unit.render "\t") (some "a\n@enduml") true).splitOn (.char '\n')
    (∀ symbol ∈ RawText.ofString "\t", symbol = .char ' ' ∨ symbol = .char '\t') ∧
      ls = ["@startuml", "title a @enduml", "class C \x7b", "\tM(p:@enduml", "<int>) : void",
        "\x7d", "@enduml", ""].map RawText.ofString ∧
      ls.count frameEnd = 1 ∧ ∀ r ∈ unit.runs "\t" 0, ¬r.Exposes frameEnd := by
  intro unit ls
  have hindent : ∀ symbol ∈ RawText.ofString "\t", symbol = .char ' ' ∨ symbol = .char '\t' := by
    decide
  have hcount : ls.count frameEnd = 1 := by decide +kernel
  obtain ⟨-, -, -, -, hiff⟩ := document_frame hindent unit (some "a\n@enduml")
  exact ⟨hindent, by decide +kernel, hcount, hiff.mp hcount⟩

namespace Syntax

/-- A class with a field whose initial value is a literal of three lines. -/
def framedLiteral : SyntaxTree where
  root := letterNode "compilation_unit" none 0 [
    letterNode "class_declaration" none 0 [
      letterNode "identifier" (some "name") 0 [],
      letterNode "declaration_list" (some "body") 1 [
        letterNode "field_declaration" none 1 [
          letterNode "variable_declaration" none 1 [
            letterNode "predefined_type" (some "type") 1 [],
            letterNode "variable_declarator" none 2 [
              letterNode "identifier" (some "name") 2 [],
              letterNode "=" none 3 [],
              .mk ⟨"verbatim_string_literal", true, none, 4, 16, 0⟩ []]]]]]]

/-- **A literal can close the frame.** Its second line reads like the end of the frame and stands
alone in the drawing. -/
theorem document_framedLiteral :
    let unit : Declaration := .scope (.compilationUnit "") [.type .classType { name := "C" }
      [.member (.field "T" [⟨"v", some ⟨"@\"\n@enduml\n\"", "verbatim_string_literal"⟩⟩] [])]]
    let ls := (document (unit.render "  ") none true).splitOn (.char '\n')
    (outline (Text.Utf8.encode "CTv=@\"\n@enduml\n\"") framedLiteral "").outcome = .ok unit ∧
      ls = ["@startuml", "class C \x7b", "  v : T = @\"", "@enduml", "\"", "\x7d", "@enduml",
        ""].map RawText.ofString ∧
      ls.count frameEnd = 2 := by
  intro unit ls
  refine ⟨by decide +kernel, by decide +kernel, by decide +kernel⟩

end Syntax

end ClassChart
