import ClassChart.Syntax.Member
import Mathlib.Data.List.Basic

/-!
# Parameter lists

A parameter has a node of its own, or it is an array whose keyword, type and name stand in the list
one after the other. Between them and around them there may be comments, attributes and punctuation.
The reader of a list goes through it once and only knows how much it has seen of an array. This
module says what it makes of each node, and so what it makes of a list: each parameter is read once,
in order and from its own nodes, however many arrays there are. An array that gets a node of its own
is read in another way, by labels, and then its type is lost if it has none.

## Main definitions

* `isWrapped`, `isNoise`, `isPart`: what a node is to the reader of a list
* `OpenArray.next`, `openAfter`: what is open after a node, and after a list of nodes
* `LooseArray`, `ParameterItem`: an array without a node of its own; a parameter as it is written
* `Spread`: a list of nodes that is made of parameters, with noise between them
* `OpenArray.Lapses`: nothing comes of what is open
* `LooseArray.wrap`: an array with a node of its own

## Main results

* `parametersAfter_append`: a list is read part by part
* `parametersAfter_loose`: an array is read from its own type and name, whatever was open before it
* `parameters_of_spread`: a list gives one parameter for each that is written in it, in order
* `parametersAfter_eq_closed_iff`: when it makes no difference what is open
* `parameters_wrap`: when an array can get a node of its own, and what is lost otherwise
-/

namespace ClassChart.Syntax

open Text (Bytes)

/-! ## One node at a time -/

/-- The kinds of nodes that are parameters. -/
def parameterKinds : List String := ["parameter", "parameter_array"]

/-- The kinds of named nodes that say nothing about parameters. -/
def asideKinds : List String := ["comment", "attribute_list"]

/-- Whether a node is a parameter. -/
def isWrapped (n : Node) : Bool :=
  parameterKinds.contains n.kind

/-- Whether a node is passed over: a comment, attributes, or a token that is neither a parameter nor
the keyword of an array. -/
def isNoise (n : Node) : Bool :=
  asideKinds.contains n.kind || (!n.named && !("params" :: parameterKinds).contains n.kind)

/-- Whether a node can be the type or the name of an array. -/
def isPart (n : Node) : Bool :=
  n.named && !(asideKinds ++ "params" :: parameterKinds).contains n.kind

namespace OpenArray

/-- What is open after a part, which is the type of an array or the name that ends it. -/
def afterPart (n : Node) : OpenArray → OpenArray
  | .keyword => .typed n
  | _ => .closed

/-- The parameter that a part is the name of. -/
def namedBy (source : Bytes) (n : Node) : OpenArray → List Parameter
  | .typed type => [⟨n.text source, type.text source⟩]
  | _ => []

/-- What is open after a node. -/
def next (array : OpenArray) (n : Node) : OpenArray :=
  if n.kind = "params" then .keyword else if isPart n then array.afterPart n else array

end OpenArray

section Node

variable {source : Bytes} {array : OpenArray} {n : Node} {rest : List Node}

theorem isWrapped_iff : isWrapped n = true ↔ n.kind = "parameter" ∨ n.kind = "parameter_array" := by
  simp [isWrapped, parameterKinds]

theorem isNoise_iff :
    isNoise n = true ↔ n.kind = "comment" ∨ n.kind = "attribute_list" ∨ n.named = false ∧
      n.kind ≠ "params" ∧ n.kind ≠ "parameter" ∧ n.kind ≠ "parameter_array" := by
  simp [isNoise, asideKinds, parameterKinds, or_assoc]

theorem isPart_iff :
    isPart n = true ↔ n.named = true ∧ n.kind ≠ "comment" ∧ n.kind ≠ "attribute_list" ∧
      n.kind ≠ "params" ∧ n.kind ≠ "parameter" ∧ n.kind ≠ "parameter_array" := by
  simp [isPart, asideKinds, parameterKinds]

/-- A node is one of four things to the reader of a list. -/
theorem role_cases (n : Node) :
    isWrapped n = true ∨ n.kind = "params" ∨ isPart n = true ∨ isNoise n = true := by
  rw [isWrapped_iff, isPart_iff, isNoise_iff]
  cases n.named <;> tauto

theorem parametersAfter_wrapped (h : isWrapped n = true) :
    parametersAfter source array (n :: rest) =
      parameterOf source n :: parametersAfter source array rest := by
  cases array <;> rw [parametersAfter, if_pos (isWrapped_iff.mp h)]

theorem parametersAfter_keyword (h : n.kind = "params") :
    parametersAfter source array (n :: rest) = parametersAfter source .keyword rest := by
  cases array <;> simp [parametersAfter, h]

theorem parametersAfter_part (h : isPart n = true) :
    parametersAfter source array (n :: rest) =
      array.namedBy source n ++ parametersAfter source (array.afterPart n) rest := by
  rw [isPart_iff] at h
  cases array <;> simp [parametersAfter, h, OpenArray.namedBy, OpenArray.afterPart]

theorem parametersAfter_noise (h : isNoise n = true) :
    parametersAfter source array (n :: rest) = parametersAfter source array rest := by
  rcases isNoise_iff.mp h with h | h | h <;> cases array <;> simp [parametersAfter, h]

namespace OpenArray

theorem next_of_isWrapped (h : isWrapped n = true) : array.next n = array := by
  rcases isWrapped_iff.mp h with h | h <;> simp [next, isPart_iff, h]

theorem next_of_keyword (h : n.kind = "params") : array.next n = .keyword := by
  rw [next, if_pos h]

theorem next_of_isPart (h : isPart n = true) : array.next n = array.afterPart n := by
  rw [next, if_neg (isPart_iff.mp h).2.2.2.1, if_pos h]

theorem next_of_isNoise (h : isNoise n = true) : array.next n = array := by
  rcases isNoise_iff.mp h with h | h | h <;> simp [next, isPart_iff, h]

end OpenArray

end Node

/-! ## One list after another -/

/-- What is open after a list of nodes. -/
def openAfter (array : OpenArray) (nodes : List Node) : OpenArray :=
  nodes.foldl OpenArray.next array

theorem openAfter_cons (array : OpenArray) (n : Node) (nodes : List Node) :
    openAfter array (n :: nodes) = openAfter (array.next n) nodes := rfl

theorem openAfter_append (array : OpenArray) (before after : List Node) :
    openAfter array (before ++ after) = openAfter (openAfter array before) after :=
  List.foldl_append

/-- **A list is read part by part**: its second part from what the first one leaves open. -/
theorem parametersAfter_append (source : Bytes) (array : OpenArray) (before after : List Node) :
    parametersAfter source array (before ++ after) =
      parametersAfter source array before ++
        parametersAfter source (openAfter array before) after := by
  induction before generalizing array with
  | nil => cases array <;> rfl
  | cons n before ih =>
    rw [List.cons_append, openAfter_cons]
    -- each role has its own step, and the step of the reader is that of what is open
    rcases role_cases n with h | h | h | h
    · rw [parametersAfter_wrapped h, parametersAfter_wrapped h, OpenArray.next_of_isWrapped h, ih,
        List.cons_append]
    · rw [parametersAfter_keyword h, parametersAfter_keyword h, OpenArray.next_of_keyword h, ih]
    · rw [parametersAfter_part h, parametersAfter_part h, OpenArray.next_of_isPart h, ih,
        List.append_assoc]
    · rw [parametersAfter_noise h, parametersAfter_noise h, OpenArray.next_of_isNoise h, ih]

section Noise

variable {nodes : List Node} (h : ∀ n ∈ nodes, isNoise n = true)
include h

theorem parametersAfter_allNoise (source : Bytes) (array : OpenArray) (rest : List Node) :
    parametersAfter source array (nodes ++ rest) = parametersAfter source array rest := by
  induction nodes with
  | nil => rfl
  | cons n nodes ih =>
    obtain ⟨hn, hnodes⟩ := List.forall_mem_cons.mp h
    rw [List.cons_append, parametersAfter_noise hn, ih hnodes]

theorem openAfter_allNoise (array : OpenArray) (rest : List Node) :
    openAfter array (nodes ++ rest) = openAfter array rest := by
  induction nodes with
  | nil => rfl
  | cons n nodes ih =>
    obtain ⟨hn, hnodes⟩ := List.forall_mem_cons.mp h
    rw [List.cons_append, openAfter_cons, OpenArray.next_of_isNoise hn, ih hnodes]

end Noise

/-! ## Parameters as they are written -/

/-- An array that has no node of its own: its keyword, its type and its name, with noise between
them. -/
structure LooseArray where
  keyword : Node
  gap : List Node
  type : Node
  gap' : List Node
  name : Node
  keyword_kind : keyword.kind = "params"
  gap_isNoise : ∀ n ∈ gap, isNoise n = true
  type_isPart : isPart type = true
  gap'_isNoise : ∀ n ∈ gap', isNoise n = true
  name_isPart : isPart name = true

namespace LooseArray

/-- The nodes of an array in a list. -/
def nodes (a : LooseArray) : List Node :=
  a.keyword :: (a.gap ++ a.type :: (a.gap' ++ [a.name]))

/-- The parameter that an array is. -/
def parameter (source : Bytes) (a : LooseArray) : Parameter :=
  ⟨a.name.text source, a.type.text source⟩

end LooseArray

/-- **An array is read from its own type and name**, whatever was open before it, and nothing is
open after it. -/
theorem parametersAfter_loose (source : Bytes) (array : OpenArray) (a : LooseArray) :
    parametersAfter source array a.nodes = [a.parameter source] ∧
      openAfter array a.nodes = .closed := by
  constructor
  · rw [LooseArray.nodes, parametersAfter_keyword a.keyword_kind,
      parametersAfter_allNoise a.gap_isNoise, parametersAfter_part a.type_isPart,
      parametersAfter_allNoise a.gap'_isNoise, parametersAfter_part a.name_isPart]
    rfl
  · rw [LooseArray.nodes, openAfter_cons, OpenArray.next_of_keyword a.keyword_kind,
      openAfter_allNoise a.gap_isNoise, openAfter_cons, OpenArray.next_of_isPart a.type_isPart,
      openAfter_allNoise a.gap'_isNoise, openAfter_cons, OpenArray.next_of_isPart a.name_isPart]
    rfl

/-- A parameter as it is written in a list. -/
inductive ParameterItem where
  | wrapped (n : Node) (h : isWrapped n = true)
  | loose (a : LooseArray)

namespace ParameterItem

/-- The nodes of a parameter in a list. -/
def nodes : ParameterItem → List Node
  | .wrapped n _ => [n]
  | .loose a => a.nodes

/-- The parameter that is written. -/
def parameter (source : Bytes) : ParameterItem → Parameter
  | .wrapped n _ => parameterOf source n
  | .loose a => a.parameter source

end ParameterItem

/-- A list of nodes is made of parameters, with noise before, between and after them. -/
inductive Spread : List ParameterItem → List Node → Prop
  | nil : Spread [] []
  | noise {items : List ParameterItem} {n : Node} {nodes : List Node} (hn : isNoise n = true)
    (h : Spread items nodes) : Spread items (n :: nodes)
  | item {items : List ParameterItem} {nodes : List Node} (i : ParameterItem)
    (h : Spread items nodes) : Spread (i :: items) (i.nodes ++ nodes)

/-- **A list that is made of parameters gives these parameters**, and leaves nothing open. -/
theorem parametersAfter_spread (source : Bytes) {items : List ParameterItem} {nodes : List Node}
    (h : Spread items nodes) :
    parametersAfter source .closed nodes = items.map (·.parameter source) ∧
      openAfter .closed nodes = .closed := by
  induction h with
  | nil => exact ⟨rfl, rfl⟩
  | noise hn _ ih =>
    rw [parametersAfter_noise hn, openAfter_cons, OpenArray.next_of_isNoise hn]
    exact ih
  | item i _ ih =>
    have hitem : parametersAfter source .closed i.nodes = [i.parameter source] ∧
        openAfter .closed i.nodes = .closed := by
      cases i with
      | wrapped n hn => exact ⟨parametersAfter_wrapped hn, OpenArray.next_of_isWrapped hn⟩
      | loose a => exact parametersAfter_loose source .closed a
    rw [parametersAfter_append, openAfter_append, hitem.1, hitem.2, ih.1]
    exact ⟨rfl, ih.2⟩

/-- **Every parameter of a list is read once, in order**, through whatever comments, attributes and
punctuation there are: the parameters with nodes of their own by these nodes, and each array without
one by its own name and its own type. -/
theorem parameters_of_spread (source : Bytes) {list : Node} {items : List ParameterItem}
    (h : Spread items list.children) :
    parameters source (some list) = items.map (·.parameter source) :=
  (parametersAfter_spread source h).1

/-- A node without children. -/
def leafAt (kind : String) (named : Bool) (label : Option String) (start stop : Nat) : Node :=
  .mk ⟨kind, named, label, start, stop, 0⟩ []

/-- A parameter with a node of its own. -/
def plainParameter : Node :=
  .mk ⟨"parameter", true, none, 1, 6, 0⟩
    [leafAt "predefined_type" true (some "type") 1 4, leafAt "identifier" true (some "name") 5 6]

/-- An array with a comment in it, whose type may be labelled. -/
def remarkedArray (label : Option String) : LooseArray where
  keyword := leafAt "params" false none 8 14
  gap := [leafAt "comment" true none 15 20]
  type := leafAt "array_type" true label 21 24
  gap' := []
  name := leafAt "identifier" true none 25 27
  keyword_kind := rfl
  gap_isNoise := by decide
  type_isPart := rfl
  gap'_isNoise := by decide
  name_isPart := rfl

/-- An array whose type is an identifier like its name. -/
def shortArray : LooseArray where
  keyword := leafAt "params" false none 29 35
  gap := []
  type := leafAt "identifier" true (some "type") 36 37
  gap' := []
  name := leafAt "identifier" true (some "name") 38 40
  keyword_kind := rfl
  gap_isNoise := by decide
  type_isPart := rfl
  gap'_isNoise := by decide
  name_isPart := rfl

/-- Two arrays in one list do not come into each other's way. -/
theorem parameters_of_spread_twoArrays :
    let items : List ParameterItem :=
      [.wrapped plainParameter rfl, .loose (remarkedArray none), .loose shortArray]
    let list : Node := .mk ⟨"parameter_list", true, none, 0, 41, 0⟩
      (leafAt "(" false none 0 1 :: plainParameter :: leafAt "," false none 6 7 ::
        ((remarkedArray none).nodes ++ leafAt "," false none 27 28 ::
          (shortArray.nodes ++ [leafAt ")" false none 40 41])))
    Spread items list.children ∧
      parameters (Text.Utf8.encode "(int a, params /*c*/ T[] xs, params U ys)") (some list) =
        [⟨"a", "int"⟩, ⟨"xs", "T[]"⟩, ⟨"ys", "U"⟩] := by
  intro items list
  have hspread : Spread items list.children :=
    .noise rfl (.item (.wrapped plainParameter rfl) (.noise rfl
      (.item (.loose (remarkedArray none)) (.noise rfl
        (.item (.loose shortArray) (.noise rfl .nil))))))
  exact ⟨hspread, (parameters_of_spread _ hspread).trans (by decide +kernel)⟩

/-! ## Arrays that stay open -/

/-- The nodes that can be parts of an array, up to the next keyword. -/
def nextParts (nodes : List Node) : List Node :=
  (nodes.takeWhile (·.kind != "params")).filter isPart

/-- **Nothing comes of what is open**: the nodes up to the next keyword are too few to complete
it. -/
def OpenArray.Lapses (nodes : List Node) : OpenArray → Prop
  | .closed => True
  | .keyword => (nextParts nodes).length < 2
  | .typed _ => (nextParts nodes).length < 1

section Lapses

variable {n : Node} {nodes : List Node}

theorem nextParts_keyword (h : n.kind = "params") : nextParts (n :: nodes) = [] := by
  simp [nextParts, h]

theorem nextParts_part (h : isPart n = true) : nextParts (n :: nodes) = n :: nextParts nodes := by
  simp [nextParts, (isPart_iff.mp h).2.2.2.1, h]

theorem nextParts_other (hkind : n.kind ≠ "params") (h : ¬ isPart n = true) :
    nextParts (n :: nodes) = nextParts nodes := by
  simp [nextParts, hkind, h]

theorem nextParts_wrapped (h : isWrapped n = true) : nextParts (n :: nodes) = nextParts nodes := by
  rcases isWrapped_iff.mp h with h | h <;>
    exact nextParts_other (by simp [h]) (by simp [isPart_iff, h])

theorem nextParts_noise (h : isNoise n = true) : nextParts (n :: nodes) = nextParts nodes := by
  rcases isNoise_iff.mp h with h | h | h <;>
    exact nextParts_other (by simp [h]) (by simp [isPart_iff, h])

theorem OpenArray.lapses_congr {others : List Node} (h : nextParts nodes = nextParts others)
    (array : OpenArray) : array.Lapses nodes ↔ array.Lapses others := by
  cases array <;> simp only [Lapses, h]

/-- **It makes no difference what is open** exactly if nothing comes of it. -/
theorem parametersAfter_eq_closed_iff (source : Bytes) (array : OpenArray) (nodes : List Node) :
    parametersAfter source array nodes = parametersAfter source .closed nodes ↔
      array.Lapses nodes := by
  induction nodes generalizing array with
  | nil => cases array <;> simp [parametersAfter, OpenArray.Lapses, nextParts]
  | cons n nodes ih =>
    rcases role_cases n with h | h | h | h
    · rw [parametersAfter_wrapped h, parametersAfter_wrapped h, List.cons_inj_right, ih,
        OpenArray.lapses_congr (nextParts_wrapped h)]
    · rw [parametersAfter_keyword h, parametersAfter_keyword h]
      cases array <;> simp [OpenArray.Lapses, nextParts_keyword h]
    · rw [parametersAfter_part h, parametersAfter_part h]
      cases array with
      | closed => exact iff_of_true rfl trivial
      | keyword =>
        -- the part becomes the type, and one part more completes the array
        have hrest := ih (.typed n)
        rw [OpenArray.Lapses] at hrest
        rw [OpenArray.Lapses, nextParts_part h, List.length_cons, Nat.add_lt_add_iff_right]
        exact hrest
      | typed type =>
        have hlonger : ¬ (nextParts (n :: nodes)).length < 1 := by simp [nextParts_part h]
        refine iff_of_false (fun heq => ?_) hlonger
        exact absurd (congrArg List.length heq) (by simp [OpenArray.namedBy, OpenArray.afterPart])
    · rw [parametersAfter_noise h, parametersAfter_noise h, ih,
        OpenArray.lapses_congr (nextParts_noise h)]

end Lapses

/-! ## Arrays that get a node of their own -/

namespace LooseArray

/-- The array as one node. -/
def wrap (info : NodeInfo) (a : LooseArray) : Node :=
  .mk info a.nodes

/-- The name of an array is an identifier, and no node of it has the label of another. -/
structure IsPlain (a : LooseArray) : Prop where
  name_kind : a.name.kind = "identifier"
  type_label : ∀ n ∈ a.nodes, n.label = some "type" → n = a.type
  name_label : ∀ n ∈ a.nodes, n.label = some "name" → n = a.name

variable {a : LooseArray}

theorem labelled?_nodes {part : Node} (hpart : part ∈ a.nodes) {label : String}
    (h : ∀ n ∈ a.nodes, n.label = some label → n = part) :
    labelled? label a.nodes = if part.label = some label then some part else none := by
  cases hfound : labelled? label a.nodes with
  | some found =>
    have hlabel : found.label = some label := by simpa using List.find?_some hfound
    rw [← h found (List.mem_of_find?_eq_some hfound) hlabel, if_pos hlabel]
  | none =>
    have hlabel : ¬ part.label = some label := fun hlabel =>
      List.find?_eq_none.mp hfound part hpart (beq_iff_eq.mpr hlabel)
    rw [if_neg hlabel]

/-- **What is read of an array with a node of its own**: its name, labelled or not, and its type
only if it is labelled. -/
theorem IsPlain.parameterOf_wrap (ha : a.IsPlain) (source : Bytes) (info : NodeInfo) :
    parameterOf source (a.wrap info) =
      ⟨a.name.text source, if a.type.label = some "type" then a.type.text source else ""⟩ := by
  have hlast : (a.nodes.filter (·.kind == "identifier")).getLast? = some a.name := by
    have hfront : a.nodes = (a.keyword :: (a.gap ++ a.type :: a.gap')) ++ [a.name] := by
      simp [nodes]
    rw [hfront, List.filter_append, List.filter_singleton]
    simp [ha.name_kind]
  have hname : (labelled? "name" a.nodes).or
      (a.nodes.filter (·.kind == "identifier")).getLast? = some a.name := by
    rw [labelled?_nodes (by simp [nodes]) ha.name_label, hlast]
    split <;> rfl
  have htype : labelled? "type" a.nodes =
      if a.type.label = some "type" then some a.type else none :=
    labelled?_nodes (by simp [nodes]) ha.type_label
  rw [parameterOf, wrap, Node.children, hname, htype]
  split <;> rfl

end LooseArray

/-- **When an array can get a node of its own.** The parameters of a list stay the same if and only
if the type of the array is labelled or has no text, and nothing comes of what is open before it.
Where the list before it is made of parameters, nothing is open there, and the text of an unlabelled
type is all that is lost. -/
theorem parameters_wrap (source : Bytes) {a : LooseArray} (ha : a.IsPlain) {info : NodeInfo}
    (hinfo : info.kind = "parameter_array") (outer : NodeInfo) (before after : List Node) :
    (parameters source (some (.mk outer (before ++ a.wrap info :: after))) =
        parameters source (some (.mk outer (before ++ a.nodes ++ after))) ↔
      (a.type.label = some "type" ∨ a.type.text source = "") ∧
        (openAfter .closed before).Lapses after) ∧
    ∀ items, Spread items before → ∃ others,
      parameters source (some (.mk outer (before ++ a.nodes ++ after))) =
        items.map (·.parameter source) ++
          ⟨a.name.text source, a.type.text source⟩ :: others ∧
      parameters source (some (.mk outer (before ++ a.wrap info :: after))) =
        items.map (·.parameter source) ++
          ⟨a.name.text source, if a.type.label = some "type" then a.type.text source else ""⟩ ::
            others := by
  have hwrapped : isWrapped (a.wrap info) = true := isWrapped_iff.mpr (.inr hinfo)
  have hwrap : parameters source (some (.mk outer (before ++ a.wrap info :: after))) =
      parametersAfter source .closed before ++
        ⟨a.name.text source, if a.type.label = some "type" then a.type.text source else ""⟩ ::
          parametersAfter source (openAfter .closed before) after := by
    rw [parameters, Node.children, parametersAfter_append, parametersAfter_wrapped hwrapped,
      ha.parameterOf_wrap]
  have hloose : parameters source (some (.mk outer (before ++ a.nodes ++ after))) =
      parametersAfter source .closed before ++
        ⟨a.name.text source, a.type.text source⟩ :: parametersAfter source .closed after := by
    obtain ⟨hread, hclosed⟩ := parametersAfter_loose source (openAfter .closed before) a
    rw [parameters, Node.children, List.append_assoc, parametersAfter_append,
      parametersAfter_append, hread, hclosed]
    rfl
  -- the same front, two heads that differ in the type at most, and two ways to read the rest
  rw [hwrap, hloose]
  constructor
  · rw [List.append_cancel_left_eq, List.cons.injEq, parametersAfter_eq_closed_iff,
      Parameter.mk.injEq]
    refine and_congr_left fun _ => ?_
    by_cases hlabel : a.type.label = some "type"
    · simp [hlabel]
    · rw [if_neg hlabel, or_iff_right hlabel, eq_comm (a := "")]
      exact and_iff_right rfl
  · intro items hitems
    obtain ⟨hread, hclosed⟩ := parametersAfter_spread source hitems
    rw [hread, hclosed]
    exact ⟨_, rfl, rfl⟩

theorem isPlain_remarkedArray {label : Option String} (h : label ≠ some "name") :
    (remarkedArray label).IsPlain where
  name_kind := rfl
  type_label := by simp [LooseArray.nodes, remarkedArray, leafAt, Node.label, Node.info]
  name_label := by simp [LooseArray.nodes, remarkedArray, leafAt, Node.label, Node.info, h]

/-- An array with a node of its own keeps its type if it is labelled, and loses it otherwise. -/
theorem parameters_wrap_remarkedArray :
    let source := Text.Utf8.encode "(int a, params /*c*/ T[] xs)"
    let info : NodeInfo := ⟨"parameter_array", true, none, 8, 27, 0⟩
    let outer : NodeInfo := ⟨"parameter_list", true, none, 0, 28, 0⟩
    let list (nodes : List Node) : Node := .mk outer (plainParameter :: nodes)
    parameters source (some (list [(remarkedArray (some "type")).wrap info])) =
        parameters source (some (list (remarkedArray (some "type")).nodes)) ∧
      parameters source (some (list [(remarkedArray none).wrap info])) ≠
        parameters source (some (list (remarkedArray none).nodes)) := by
  intro source info outer list
  have hbefore : openAfter .closed [plainParameter] = .closed := rfl
  have hwrap (label : Option String) (hlabel : label ≠ some "name") :=
    (parameters_wrap source (isPlain_remarkedArray hlabel) (rfl : info.kind = "parameter_array")
      outer [plainParameter] []).1
  simp only [hbefore, List.append_nil] at hwrap
  constructor
  · exact (hwrap (some "type") (by decide)).mpr ⟨.inl rfl, trivial⟩
  · intro heq
    rcases ((hwrap none (by decide)).mp heq).1 with hlabel | htext
    · cases hlabel
    · exact absurd htext (by decide +kernel)

end ClassChart.Syntax
