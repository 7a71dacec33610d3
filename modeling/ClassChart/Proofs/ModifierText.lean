import ClassChart.Modifier
import Mathlib.Data.List.Basic

/-!
# The text of modifiers

Modifiers are drawn one after the other, each with a blank behind it. So the text of a list is put
together from the texts of its parts, and a blank can be found where each modifier ends. As long as
no modifier has a blank in it, the modifiers can be read back from the text, as no symbol is the
stereotype of a word.

## Main definitions

* `modifierOf`: the modifier that a symbol or a stereotype stands for
* `pieces`: the parts of a text that end at a blank
* `readModifiers`: the modifiers that a text shows

## Main results

* `spaced_append`: the text of two lists of words
* `readModifiers_memberModifiers`, `readModifiers_typeModifiers`: reading modifiers back
* `modifiers_lossless`: the text of modifiers follows their lists and tells them apart
-/

namespace ClassChart

/-! ## Words with blanks behind them -/

/-- The blank behind the last word of one list is the one before the first word of the next. -/
theorem spaced_append {words more : List String} (hwords : ∀ w ∈ words, w ≠ "")
    (hmore : ∀ w ∈ more, w ≠ "") : spaced (words ++ more) = spaced words ++ spaced more := by
  induction words with
  | nil => simp [spaced]
  | cons w words ih =>
    have hall : ∀ v ∈ w :: (words ++ more), v ≠ "" :=
      List.forall_mem_append.mpr ⟨hwords, hmore⟩
    rw [List.cons_append, spaced_cons hall, spaced_cons hwords, ih (List.forall_mem_cons.mp hwords).2]
    simp only [String.append_assoc]

/-- The parts of a text that end at a blank. What stands behind the last blank is a part as well. -/
def pieces : List Char → List (List Char)
  | [] => []
  | c :: rest =>
    if c = ' ' then [] :: pieces rest
    else
      match pieces rest with
      | [] => [[c]]
      | p :: ps => (c :: p) :: ps

theorem pieces_append {w : List Char} (hw : ' ' ∉ w) (rest : List Char) :
    pieces (w ++ ' ' :: rest) = w :: pieces rest := by
  induction w with
  | nil => simp [pieces]
  | cons c w ih =>
    rw [List.mem_cons, not_or] at hw
    rw [List.cons_append, pieces, if_neg (Ne.symm hw.1), ih hw.2]

/-- Words without blanks are the pieces of their text. -/
theorem pieces_spaced {words : List String} (hne : ∀ w ∈ words, w ≠ "")
    (h : ∀ w ∈ words, ' ' ∉ w.toList) : pieces (spaced words).toList = words.map String.toList := by
  induction words with
  | nil => rfl
  | cons w words ih =>
    obtain ⟨hw, hwords⟩ := List.forall_mem_cons.mp h
    have htext : (spaced (w :: words)).toList = w.toList ++ ' ' :: (spaced words).toList := by
      simp [spaced_cons hne]
    rw [htext, pieces_append hw, ih (List.forall_mem_cons.mp hne).2 hwords, List.map_cons]

/-! ## Reading modifiers back -/

/-- The modifier that a symbol or a stereotype stands for. -/
def modifierOf (symbol : String) : String :=
  if symbol = "+" then "public"
  else if symbol = "-" then "private"
  else if symbol = "#" then "protected"
  else if symbol = "\x7babstract\x7d" then "abstract"
  else if symbol = "\x7bstatic\x7d" then "static"
  else String.ofList (symbol.toList.drop 2).dropLast.dropLast

/-- The modifiers that a text shows. -/
def readModifiers (text : String) : List String :=
  (pieces text.toList).map fun piece => modifierOf (String.ofList piece)

theorem toList_stereotype (word : String) :
    (stereotype word).toList = '<' :: '<' :: (word.toList ++ ['>', '>']) := by
  simp [stereotype]

/-- A stereotype is none of the symbols, which start with another character. -/
theorem stereotype_ne {word symbol : String} (h : symbol.toList.head? ≠ some '<') :
    stereotype word ≠ symbol := by
  rintro rfl
  simp [toList_stereotype] at h

theorem modifierOf_stereotype (word : String) : modifierOf (stereotype word) = word := by
  have hword : ((stereotype word).toList.drop 2).dropLast.dropLast = word.toList := by
    have hends : word.toList ++ ['>', '>'] = (word.toList ++ ['>']) ++ ['>'] := by simp
    rw [toList_stereotype, List.drop_succ_cons, List.drop_succ_cons, List.drop_zero, hends,
      List.dropLast_concat, List.dropLast_concat]
  rw [modifierOf, if_neg (stereotype_ne (by decide)), if_neg (stereotype_ne (by decide)),
    if_neg (stereotype_ne (by decide)), if_neg (stereotype_ne (by decide)),
    if_neg (stereotype_ne (by decide)), hword, String.ofList_toList]

/-- No two modifiers have the same symbol, as each can be had back from its own. -/
theorem modifierOf_memberSymbol (modifier : String) :
    modifierOf (memberSymbol modifier) = modifier := by
  unfold memberSymbol
  split_ifs with h h h h h
  · exact h ▸ rfl
  · exact h ▸ rfl
  · exact h ▸ rfl
  · exact h ▸ rfl
  · exact h ▸ rfl
  · exact modifierOf_stereotype modifier

theorem blank_notMem_stereotype {word : String} (h : ' ' ∉ word.toList) :
    ' ' ∉ (stereotype word).toList := by
  simpa [toList_stereotype] using h

theorem blank_notMem_memberSymbol {modifier : String} (h : ' ' ∉ modifier.toList) :
    ' ' ∉ (memberSymbol modifier).toList := by
  unfold memberSymbol
  split_ifs
  · decide
  · decide
  · decide
  · decide
  · decide
  · exact blank_notMem_stereotype h

/-- What is drawn without blanks and can be had back is read back from the text of a list. -/
theorem readModifiers_spaced {draw : String → String}
    (hdraw : ∀ modifier, modifierOf (draw modifier) = modifier)
    (hne : ∀ modifier, draw modifier ≠ "") {modifiers : List String}
    (h : ∀ modifier ∈ modifiers, ' ' ∉ (draw modifier).toList) :
    readModifiers (spaced (modifiers.map draw)) = modifiers := by
  have hwords : ∀ w ∈ modifiers.map draw, ' ' ∉ w.toList := List.forall_mem_map.mpr h
  rw [readModifiers, pieces_spaced (List.forall_mem_map.mpr fun m _ => hne m) hwords, List.map_map,
    List.map_map]
  calc
    _ = modifiers.map id := by
      apply List.map_congr_left
      intro modifier _
      simp [hdraw]
    _ = modifiers := List.map_id modifiers

/-- **The modifiers of a member are read back** as they were. -/
theorem readModifiers_memberModifiers {modifiers : List String}
    (h : ∀ modifier ∈ modifiers, ' ' ∉ modifier.toList) :
    readModifiers (memberModifiers modifiers) = modifiers :=
  readModifiers_spaced modifierOf_memberSymbol memberSymbol_ne_empty fun modifier hmem =>
    blank_notMem_memberSymbol (h modifier hmem)

/-- **The modifiers of a type are read back**, save for those that are left out. -/
theorem readModifiers_typeModifiers {modifiers : List String}
    (h : ∀ modifier ∈ modifiers, ' ' ∉ modifier.toList) :
    readModifiers (typeModifiers modifiers) = modifiers.filter fun m => !isHiddenOnTypes m :=
  readModifiers_spaced modifierOf_stereotype stereotype_ne_empty fun modifier hmem =>
    blank_notMem_stereotype (h modifier (List.mem_of_mem_filter hmem))

/-! ## The text of lists of modifiers -/

theorem memberModifiers_append (a b : List String) :
    memberModifiers (a ++ b) = memberModifiers a ++ memberModifiers b := by
  rw [memberModifiers, List.map_append]
  exact spaced_append (List.forall_mem_map.mpr fun m _ => memberSymbol_ne_empty m)
    (List.forall_mem_map.mpr fun m _ => memberSymbol_ne_empty m)

theorem typeModifiers_append (a b : List String) :
    typeModifiers (a ++ b) = typeModifiers a ++ typeModifiers b := by
  rw [typeModifiers, List.filter_append, List.map_append]
  exact spaced_append (List.forall_mem_map.mpr fun m _ => stereotype_ne_empty m)
    (List.forall_mem_map.mpr fun m _ => stereotype_ne_empty m)

/-- **The text of modifiers follows their lists and tells them apart.** The text of two lists, one
after the other, is that of both together. Where no modifier has a blank in it, members have the
same text only if they have the same modifiers, and types exactly if their modifiers are the same
without those of visibility and `abstract`. -/
theorem modifiers_lossless :
    (∀ a b, memberModifiers (a ++ b) = memberModifiers a ++ memberModifiers b ∧
      typeModifiers (a ++ b) = typeModifiers a ++ typeModifiers b) ∧
    ∀ a b, (∀ modifier ∈ a, ' ' ∉ modifier.toList) → (∀ modifier ∈ b, ' ' ∉ modifier.toList) →
      (memberModifiers a = memberModifiers b → a = b) ∧
      (typeModifiers a = typeModifiers b ↔
        a.filter (· ∉ ["public", "private", "protected", "internal", "abstract"]) =
          b.filter (· ∉ ["public", "private", "protected", "internal", "abstract"])) := by
  refine ⟨fun a b => ⟨memberModifiers_append a b, typeModifiers_append a b⟩, ?_⟩
  intro a b ha hb
  have hshown (modifiers : List String) :
      (modifiers.filter fun m => !isHiddenOnTypes m) =
        modifiers.filter (· ∉ ["public", "private", "protected", "internal", "abstract"]) := by
    apply List.filter_congr
    intro m _
    simp [isHiddenOnTypes]
  refine ⟨?_, ?_, ?_⟩
  · intro h
    rw [← readModifiers_memberModifiers ha, ← readModifiers_memberModifiers hb, h]
  · intro h
    rw [← hshown, ← hshown, ← readModifiers_typeModifiers ha, ← readModifiers_typeModifiers hb, h]
  · intro h
    rw [typeModifiers, typeModifiers, hshown, hshown, h]

/-- With blanks in them, two modifiers can look like one. -/
example : memberModifiers ["sealed>> <<new"] = memberModifiers ["sealed", "new"] := by decide

/-- A word that is written like a symbol is not taken for it, and the order of modifiers counts. -/
theorem modifiers_lossless_similarWords :
    memberModifiers ["public", "+", "static"] ≠ memberModifiers ["public", "public", "static"] ∧
    memberModifiers ["static", ""] ≠ memberModifiers ["", "static"] ∧
    typeModifiers ["internal", "static", "new"] = typeModifiers ["static", "abstract", "new"] ∧
    typeModifiers ["static", "+"] ≠ typeModifiers ["static", "public"] := by
  obtain ⟨-, htell⟩ := modifiers_lossless
  refine ⟨?_, ?_, ?_, ?_⟩
  · exact mt (htell _ _ (by decide) (by decide)).1 (by decide)
  · exact mt (htell _ _ (by decide) (by decide)).1 (by decide)
  · exact (htell _ _ (by decide) (by decide)).2.mpr (by decide)
  · exact mt (htell _ _ (by decide) (by decide)).2.mp (by decide)

end ClassChart
