/-!
# Modifiers

A diagram shows the modifiers of a type as stereotypes, except those that it shows in another way
or not at all. For members, visibility and the two classifiers of the diagram language have symbols
of their own.

## Main definitions

* `stereotype`: a word in guillemets.
* `memberSymbol`: the symbol of a member's modifier.
* `typeModifiers`, `memberModifiers`: the text in front of a name, ending in a blank if not empty.
-/

namespace ClassChart

/-- A word as a stereotype. -/
def stereotype (word : String) : String :=
  "<<" ++ word ++ ">>"

/-- Whether a modifier of a type is left out: its visibility, and `abstract`, which the keyword of
the type shows. -/
def isHiddenOnTypes (modifier : String) : Bool :=
  ["public", "private", "protected", "internal", "abstract"].contains modifier

/-- The symbol of a member's modifier. -/
def memberSymbol (modifier : String) : String :=
  if modifier = "public" then "+"
  else if modifier = "private" then "-"
  else if modifier = "protected" then "#"
  else if modifier = "abstract" then "\x7babstract\x7d"
  else if modifier = "static" then "\x7bstatic\x7d"
  else stereotype modifier

theorem stereotype_ne_empty (word : String) : stereotype word ≠ "" := by
  simp [stereotype]

theorem memberSymbol_ne_empty (modifier : String) : memberSymbol modifier ≠ "" := by
  unfold memberSymbol
  split
  · decide
  split
  · decide
  split
  · decide
  split
  · decide
  split
  · decide
  · exact stereotype_ne_empty modifier

/-- Words with one blank between them and, unless that is the empty text, one after the last. -/
def spaced (words : List String) : String :=
  if (" ".intercalate words).isEmpty then "" else " ".intercalate words ++ " "

/-- Where no word is empty, each has a blank behind it. -/
theorem spaced_cons {w : String} {words : List String} (h : ∀ v ∈ w :: words, v ≠ "") :
    spaced (w :: words) = w ++ (" " ++ spaced words) := by
  obtain ⟨hw, hwords⟩ := List.forall_mem_cons.mp h
  cases words with
  | nil => simp [spaced, hw]
  | cons v words =>
    have hv : " ".intercalate (v :: words) ≠ "" := by
      cases words with
      | nil => simpa using hwords
      | cons u words => simp [String.intercalate_cons_cons]
    simp [spaced, String.intercalate_cons_cons, hv, String.append_assoc]

/-- The modifiers of a type, as they stand in its header. -/
def typeModifiers (modifiers : List String) : String :=
  spaced ((modifiers.filter fun m => !isHiddenOnTypes m).map stereotype)

/-- The modifiers of a member, as they stand in front of its name. -/
def memberModifiers (modifiers : List String) : String :=
  spaced (modifiers.map memberSymbol)

end ClassChart
