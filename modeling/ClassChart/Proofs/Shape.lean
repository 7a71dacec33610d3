import ClassChart.Proofs.Utf8
import Mathlib.Data.List.Forall2

/-!
# Laying out syntax trees

A shape is a syntax node with texts in place of offsets. Laying a shape out gives a node for each of
its parts and a source that is the texts in order. A node spells a shape if it is of the same kind,
reads the same text and has children that spell the parts. What a reader finds among nodes that
spell shapes, it finds among the shapes.

## Main definitions

* `Shape`: a node with its text
* `Shape.place`: the node of a shape at an offset
* `Spells source n s`: the node `n` reads as the shape `s`

## Main results

* `place_spells`: a shape is spelled where it is laid out
* `find?_spells`: what is found among nodes spells what is found among shapes
-/

namespace ClassChart

open Text (Bytes)
open Text.Utf8 (encode)

/-- A node with its text: what stands before its first part, and the parts. -/
inductive Shape where
  | mk (kind : String) (named : Bool) (label : Option String) (own : String) (parts : List Shape)

namespace Shape

/-- The kind of a shape. -/
def kind : Shape → String
  | .mk kind .. => kind

/-- Whether a shape is named. -/
def named : Shape → Bool
  | .mk _ named .. => named

/-- Which part of its parent a shape is. -/
def label : Shape → Option String
  | .mk _ _ label .. => label

/-- The parts of a shape. -/
def parts : Shape → List Shape
  | .mk _ _ _ _ parts => parts

mutual

/-- The text of a shape, with its parts. -/
def text : Shape → String
  | .mk _ _ _ own parts => own ++ textAll parts

/-- The texts of shapes in order. -/
def textAll : List Shape → String
  | [] => ""
  | s :: rest => s.text ++ textAll rest

end

mutual

/-- The node of a shape whose text starts at an offset. -/
def place (start : Nat) : Shape → Node
  | .mk kind named label own parts =>
    .mk ⟨kind, named, label, start, start + (encode (own ++ textAll parts)).length, 0⟩
      (placeAll (start + (encode own).length) parts)

/-- The nodes of shapes whose texts follow each other from an offset on. -/
def placeAll (start : Nat) : List Shape → List Node
  | [] => []
  | s :: rest => s.place start :: placeAll (start + (encode s.text).length) rest

end

end Shape

/-- The node reads as the shape: it is of the same kind and has the same text, and so have its
children. -/
inductive Spells (source : Bytes) : Node → Shape → Prop where
  | mk {n : Node} {s : Shape} (kind : n.kind = s.kind) (named : n.named = s.named)
      (label : n.label = s.label) (text : n.text source = s.text)
      (parts : List.Forall₂ (Spells source) n.children s.parts) : Spells source n s

namespace Spells

variable {source : Bytes} {n : Node} {s : Shape}

theorem kind_eq : Spells source n s → n.kind = s.kind
  | .mk h .. => h

theorem named_eq : Spells source n s → n.named = s.named
  | .mk _ h .. => h

theorem label_eq : Spells source n s → n.label = s.label
  | .mk _ _ h .. => h

theorem text_eq : Spells source n s → n.text source = s.text
  | .mk _ _ _ h _ => h

theorem parts_spelled : Spells source n s → List.Forall₂ (Spells source) n.children s.parts
  | .mk _ _ _ _ h => h

end Spells

/-! ## A shape is spelled where it is laid out -/

mutual

theorem Shape.place_spells : ∀ (s : Shape) (before after : Bytes),
    Spells (before ++ encode s.text ++ after) (s.place before.length) s
  | .mk kind named label own parts, before, after => by
    refine .mk rfl rfl rfl ?_ ?_
    · exact Node.text_span rfl rfl
    · -- the text of the node itself is before its parts
      have hparts := Shape.placeAll_spells parts (before ++ encode own) after
      simpa [Shape.text, Shape.place, Shape.parts, Node.children, Text.Utf8.encode_append]
        using hparts

theorem Shape.placeAll_spells : ∀ (ss : List Shape) (before after : Bytes),
    List.Forall₂ (Spells (before ++ encode (Shape.textAll ss) ++ after))
      (Shape.placeAll before.length ss) ss
  | [], _, _ => .nil
  | s :: rest, before, after => by
    have hhead := Shape.place_spells s before (encode (Shape.textAll rest) ++ after)
    have hrest := Shape.placeAll_spells rest (before ++ encode s.text) after
    refine .cons ?_ ?_
    · simpa [Shape.textAll, Text.Utf8.encode_append] using hhead
    · simpa [Shape.textAll, Text.Utf8.encode_append] using hrest

end

/-! ## Looking for a part -/

namespace Shape

/-- The first shape with a label. -/
def labelled? (label : String) (shapes : List Shape) : Option Shape :=
  shapes.find? fun s => s.label == some label

/-- The first shape of one of the given kinds. -/
def ofKind? (kinds : List String) (shapes : List Shape) : Option Shape :=
  shapes.find? fun s => kinds.contains s.kind

/-- The first shape with a label or else the first of one of the given kinds. -/
def labelledOrOfKind? (label : String) (kinds : List String) (shapes : List Shape) : Option Shape :=
  (labelled? label shapes).or (ofKind? kinds shapes)

end Shape

section Lookup

variable {source : Bytes} {ns : List Node} {ss : List Shape}

/-- **What is found among nodes spells what is found among shapes**, for tests that agree. -/
theorem find?_spells (h : List.Forall₂ (Spells source) ns ss) {p : Node → Bool} {q : Shape → Bool}
    (hpq : ∀ n s, Spells source n s → p n = q s) :
    Option.Rel (Spells source) (ns.find? p) (ss.find? q) := by
  induction h with
  | nil => exact .none
  | @cons n s ns ss hn _ ih =>
    rw [List.find?_cons, List.find?_cons, hpq n s hn]
    cases q s with
    | true => exact .some hn
    | false => exact ih

theorem labelled?_spells (h : List.Forall₂ (Spells source) ns ss) (label : String) :
    Option.Rel (Spells source) (labelled? label ns) (Shape.labelled? label ss) :=
  find?_spells h fun _ _ hn => by rw [hn.label_eq]

theorem ofKind?_spells (h : List.Forall₂ (Spells source) ns ss) (kinds : List String) :
    Option.Rel (Spells source) (ofKind? kinds ns) (Shape.ofKind? kinds ss) :=
  find?_spells h fun _ _ hn => by rw [hn.kind_eq]

theorem labelledOrOfKind?_spells (h : List.Forall₂ (Spells source) ns ss) (label : String)
    (kinds : List String) :
    Option.Rel (Spells source) (labelledOrOfKind? label kinds ns)
      (Shape.labelledOrOfKind? label kinds ss) := by
  unfold labelledOrOfKind? Shape.labelledOrOfKind?
  have hlabelled := labelled?_spells h label
  revert hlabelled
  generalize labelled? label ns = found, Shape.labelled? label ss = shape
  rintro (hn | -)
  · exact .some hn
  · exact ofKind?_spells h kinds

theorem exists_spelled_of_mem (h : List.Forall₂ (Spells source) ns ss) {n : Node} (hn : n ∈ ns) :
    ∃ s ∈ ss, Spells source n s := by
  induction h with
  | nil => simp at hn
  | @cons m s ns ss hm _ ih =>
    rcases List.mem_cons.mp hn with rfl | hn
    · exact ⟨s, by simp, hm⟩
    · obtain ⟨t, ht, hspells⟩ := ih hn
      exact ⟨t, by simp [ht], hspells⟩

theorem exists_of_rel_some {found : Option Node} {s : Shape}
    (h : Option.Rel (Spells source) found (some s)) : ∃ n, found = some n ∧ Spells source n s := by
  cases h with
  | some hn => exact ⟨_, rfl, hn⟩

theorem eq_none_of_rel_none {found : Option Node} (h : Option.Rel (Spells source) found none) :
    found = none := by
  cases h
  rfl

/-- A shape with a label that is found has a node with the label that spells it. -/
theorem exists_labelled? {s : Shape} (label : String) (h : List.Forall₂ (Spells source) ns ss)
    (hs : Shape.labelled? label ss = some s) :
    ∃ n, labelled? label ns = some n ∧ Spells source n s :=
  exists_of_rel_some (hs ▸ labelled?_spells h label)

/-- A shape of some kind that is found has a node of the kind that spells it. -/
theorem exists_ofKind? {s : Shape} (kinds : List String) (h : List.Forall₂ (Spells source) ns ss)
    (hs : Shape.ofKind? kinds ss = some s) :
    ∃ n, ofKind? kinds ns = some n ∧ Spells source n s :=
  exists_of_rel_some (hs ▸ ofKind?_spells h kinds)

theorem textOf_spells {n : Option Node} {s : Option Shape} (h : Option.Rel (Spells source) n s) :
    Node.textOf source n = (s.map Shape.text).getD "" := by
  rcases h with hn | -
  · exact hn.text_eq
  · rfl

end Lookup

end ClassChart
