import ClassChart.Proofs.Rendering
import ClassChart.Text.Blank
import Mathlib.Data.List.Forall2
import Mathlib.Data.List.TakeWhile

/-!
# Counting brackets

A reader who only sees lines can count brackets: a line that ends in an opening bracket opens a
block, and a line with nothing but a closing bracket closes one. `Bracketed` is the grammar of lines
with blocks in them, each indented by its depth. On lines of the grammar the count is the depth, and
it finds the blocks.

## Main definitions

* `opens`, `closes`: the lines at which the count changes
* `counter`, `trace`, `found`: the count after lines, the count at each line, the blocks it finds
* `Bracketed`: lines with blocks in them

## Main results

* `Bracketed.counter_eq`: the count comes back to where it was
* `Bracketed.trace_aligned`: each line stands where the count puts it
* `Bracketed.found_append`: the count finds the blocks, whatever lines follow
-/

namespace ClassChart

/-! ## Counting -/

/-- Whether a symbol is a blank character. -/
def Symbol.isBlank (symbol : Symbol) : Bool :=
  symbol.isCharWith Text.isBlank

/-- A raw text without the blanks it starts and ends with. -/
def RawText.strip (t : RawText) : RawText :=
  ((t.dropWhile (·.isBlank)).reverse.dropWhile (·.isBlank)).reverse

/-- Whether a line opens a block. -/
def opens (line : RawText) : Bool :=
  line.getLast? == some (.char '\x7b')

/-- Whether a line closes a block. -/
def closes (line : RawText) : Bool :=
  line.strip == [.char '\x7d']

/-- The count at a line: a closing line is outside of the block that it closes. -/
def countAt (c : Int) (line : RawText) : Int :=
  if closes line then c - 1 else c

/-- The count after a line. -/
def countAfter (c : Int) (line : RawText) : Int :=
  if opens line then countAt c line + 1 else countAt c line

/-- The count after lines. -/
def counter (c : Int) (lines : List RawText) : Int :=
  lines.foldl countAfter c

/-- The lines with the count at each of them. -/
def trace (c : Int) : List RawText → List (Int × RawText)
  | [] => []
  | line :: rest => (countAt c line, line) :: trace (countAfter c line) rest

/-- What follows the first closing line at which the count is back at `depth`. -/
def afterBlock (depth c : Int) : List RawText → Option (List RawText)
  | [] => none
  | line :: rest =>
    if closes line ∧ countAt c line = depth then some rest
    else afterBlock depth (countAfter c line) rest

/-- A block as the count finds it. -/
structure Found where
  /-- The count at the line that opens the block. -/
  depth : Int
  line : RawText
  /-- What follows the line that closes it, if there is one. -/
  after? : Option (List RawText)
  deriving DecidableEq

/-- The blocks that the count finds, in the order in which they open. -/
def found (c : Int) : List RawText → List Found
  | [] => []
  | line :: rest =>
    if opens line then
      ⟨countAt c line, line, afterBlock (countAt c line) (countAfter c line) rest⟩ ::
        found (countAfter c line) rest
    else found (countAfter c line) rest

theorem counter_cons (c : Int) (line : RawText) (ls : List RawText) :
    counter c (line :: ls) = counter (countAfter c line) ls := rfl

theorem counter_append (c : Int) (ls ms : List RawText) :
    counter c (ls ++ ms) = counter (counter c ls) ms :=
  List.foldl_append

theorem trace_append (c : Int) (ls ms : List RawText) :
    trace c (ls ++ ms) = trace c ls ++ trace (counter c ls) ms := by
  induction ls generalizing c with
  | nil => rfl
  | cons line ls ih => rw [List.cons_append, trace, ih]; rfl

/-! ## Kinds of lines -/

theorem Symbol.mem_strip {t : RawText} {symbol : Symbol} (h : symbol ∈ t)
    (hblank : symbol.isBlank = false) : symbol ∈ t.strip := by
  have hdrop : ∀ s : RawText, symbol ∈ s → symbol ∈ s.dropWhile (·.isBlank) := by
    intro s hs
    rw [← List.takeWhile_append_dropWhile (p := (·.isBlank)) (l := s), List.mem_append] at hs
    refine hs.resolve_left fun htake => ?_
    rw [List.mem_takeWhile_imp htake] at hblank
    contradiction
  exact List.mem_reverse.mpr (hdrop _ (List.mem_reverse.mpr (hdrop t h)))

/-- A line with more in it than blanks and closing brackets closes nothing. -/
theorem closes_eq_false {line : RawText} {c : Char} (h : .char c ∈ line)
    (hblank : Text.isBlank c = false) (hbrace : c ≠ '\x7d') : closes line = false := by
  rw [closes, beq_eq_false_iff_ne]
  intro hstrip
  have hmem : Symbol.char c ∈ line.strip := Symbol.mem_strip h hblank
  rw [hstrip, List.mem_singleton] at hmem
  exact hbrace (Symbol.char.inj hmem)

section Lines

variable {indent : RawText} {depth c : Int} {line : RawText} {text : String}

theorem getLast?_append_of_last (front : String) {last : Char}
    (h : text.toList.getLast? = some last) :
    (front ++ text).toList.getLast? = some last := by
  rw [String.toList_append, List.getLast?_append, h, Option.some_or]

/-- The last character of a line is the last one of its text. -/
theorem getLast?_indented {last : Char} (h : text.toList.getLast? = some last) :
    (indented indent depth text).getLast? = some (.char last) := by
  simp [indented, RawText.ofString, List.getLast?_append, h]

theorem mem_indented {x : Char} (h : x ∈ text.toList) : .char x ∈ indented indent depth text :=
  List.mem_append_right _ (List.mem_map_of_mem h)

/-- A text that ends in an opening bracket closes nothing, also if it is all there is. -/
theorem opens_indented (indent : RawText) (depth : Int) (h : text.toList.getLast? = some '\x7b') :
    opens (indented indent depth text) = true ∧ closes (indented indent depth text) = false := by
  refine ⟨by simp [opens, getLast?_indented h], ?_⟩
  exact closes_eq_false (mem_indented (List.mem_of_getLast? h)) (by decide) (by decide)

/-- A closing bracket behind blanks closes a block and opens none. -/
theorem closes_indented (hindent : ∀ symbol ∈ indent, symbol.isBlank = true) (depth : Int) :
    closes (indented indent depth footer) = true ∧
      opens (indented indent depth footer) = false := by
  have hmargin : ∀ symbol ∈ indent.times depth, symbol.isBlank = true :=
    fun symbol h => hindent symbol (RawText.mem_of_mem_times h)
  have hfooter : RawText.ofString footer = [.char '\x7d'] := rfl
  have hbrace : Symbol.isBlank (.char '\x7d') = false := by decide
  constructor
  · rw [closes, RawText.strip, indented, List.dropWhile_append,
      List.dropWhile_eq_nil_iff.mpr hmargin, hfooter]
    simp [hbrace]
  · simp [opens, indented, hfooter]

theorem countAt_of_not_closes (hcloses : closes line = false) : countAt c line = c := by
  simp [countAt, hcloses]

theorem afterBlock_cons_of_not_closes (hcloses : closes line = false) (rest : List RawText) :
    afterBlock depth c (line :: rest) = afterBlock depth (countAfter c line) rest := by
  simp [afterBlock, hcloses]

theorem countAfter_of_plain (hopens : opens line = false) (hcloses : closes line = false) :
    countAfter c line = c := by
  simp [countAfter, countAt, hopens, hcloses]

theorem countAfter_of_opens (hopens : opens line = true) (hcloses : closes line = false) :
    countAfter c line = c + 1 := by
  simp [countAfter, countAt, hopens, hcloses]

theorem countAt_of_closes (hcloses : closes line = true) : countAt (c + 1) line = c := by
  simp [countAt, hcloses]

theorem countAfter_of_closes (hopens : opens line = false) (hcloses : closes line = true) :
    countAfter (c + 1) line = c := by
  simp [countAfter, countAt, hopens, hcloses]

end Lines

/-! ## Lines with blocks in them -/

/-- A block of a drawing: the line that opens it, and the name and base types for the lines that
follow it. -/
structure Block where
  header : String
  name : String
  baseTypes : List String := []
  deriving DecidableEq

/-- The lines for the base types of a block. -/
def Block.edges (indent : RawText) (depth : Int) (b : Block) : List RawText :=
  b.baseTypes.map fun base => indented indent depth (b.name ++ " <|-- " ++ base)

/-- **Lines at a depth with blocks in them**, in the order in which the blocks open. The lines for
the base types of a block follow it at once. -/
inductive Bracketed (indent : RawText) : Int → List RawText → List Block → Prop
  | nil {c} : Bracketed indent c [] []
  | line {c line rest blocks} : opens line = false → closes line = false → indent.times c <+: line →
      Bracketed indent c rest blocks → Bracketed indent c (line :: rest) blocks
  | block {c b inner within rest blocks} : b.header.toList.getLast? = some '\x7b' →
      Bracketed indent (c + 1) inner within → Bracketed indent c rest blocks →
      b.edges indent c <+: rest →
      Bracketed indent c (indented indent c b.header :: (inner ++ indented indent c footer :: rest))
        (b :: (within ++ blocks))

/-- A line stands where the count puts it: a closing line is nothing but indentation and the
bracket, and any other line has at least that indentation. -/
def IsAligned (indent : RawText) (p : Int × RawText) : Prop :=
  if closes p.2 then p.2 = indented indent p.1 "\x7d" else indent.times p.1 <+: p.2

theorem isAligned_of_not_closes {indent line : RawText} {c : Int} (hcloses : closes line = false)
    (hmargin : indent.times c <+: line) : IsAligned indent (c, line) := by
  simpa [IsAligned, hcloses] using hmargin

/-- A block is found by the count: where it opens, that it is closed, and what follows it. -/
def Block.IsFound (indent : RawText) (b : Block) (f : Found) : Prop :=
  f.line = indented indent f.depth b.header ∧
    ∃ after, f.after? = some after ∧ b.edges indent f.depth <+: after

namespace Bracketed

variable {indent : RawText} {c : Int} {ls ms : List RawText} {bs cs : List Block}

theorem append (h : Bracketed indent c ls bs) (k : Bracketed indent c ms cs) :
    Bracketed indent c (ls ++ ms) (bs ++ cs) := by
  induction h with
  | nil => exact k
  | line hopens hcloses hmargin _ ih => exact .line hopens hcloses hmargin (ih k)
  | block hheader hinner _ hedges _ ih =>
    simp only [List.cons_append, List.append_assoc]
    exact .block hheader hinner (ih k) (hedges.trans (List.prefix_append _ _))

/-- Lines that neither open nor close a block. -/
theorem plain {lines : List RawText} (h : ∀ l ∈ lines,
    opens l = false ∧ closes l = false ∧ indent.times c <+: l) : Bracketed indent c lines [] := by
  induction lines with
  | nil => exact .nil
  | cons l lines ih =>
    obtain ⟨hopens, hcloses, hmargin⟩ := h l List.mem_cons_self
    exact .line hopens hcloses hmargin (ih fun m hm => h m (List.mem_cons_of_mem l hm))

variable (hindent : ∀ symbol ∈ indent, symbol.isBlank = true)
include hindent

/-- The count comes back to where it was. -/
theorem counter_eq (h : Bracketed indent c ls bs) : counter c ls = c := by
  induction h with
  | nil => rfl
  | line hopens hcloses _ _ ih =>
    rw [counter_cons, countAfter_of_plain hopens hcloses, ih]
  | @block c b inner within rest blocks hheader _ _ _ ihinner ihrest =>
    obtain ⟨hopens, hcloses⟩ := opens_indented indent c hheader
    obtain ⟨hcloses', hopens'⟩ := closes_indented hindent c
    -- one up at the header, nothing inside, one down at the footer
    rw [counter_cons, countAfter_of_opens hopens hcloses, counter_append, ihinner, counter_cons,
      countAfter_of_closes hopens' hcloses', ihrest]

/-- The count is never below where it was, and each line stands where the count puts it. -/
theorem trace_aligned (h : Bracketed indent c ls bs) :
    ∀ p ∈ trace c ls, c ≤ p.1 ∧ IsAligned indent p := by
  induction h with
  | nil => simp [trace]
  | @line c line rest blocks hopens hcloses hmargin _ ih =>
    rw [trace, countAt_of_not_closes hcloses, countAfter_of_plain hopens hcloses]
    exact List.forall_mem_cons.mpr ⟨⟨Int.le_refl c, isAligned_of_not_closes hcloses hmargin⟩, ih⟩
  | @block c b inner within rest blocks hheader hinner _ _ ihinner ihrest =>
    obtain ⟨hopens, hcloses⟩ := opens_indented indent c hheader
    -- the block is left at the count it was entered with, so the footer stands at the count of
    -- the header
    obtain ⟨hcloses', hopens'⟩ := closes_indented hindent c
    rw [trace, countAt_of_not_closes hcloses, countAfter_of_opens hopens hcloses, trace_append,
      hinner.counter_eq hindent, trace, countAt_of_closes hcloses',
      countAfter_of_closes hopens' hcloses']
    refine List.forall_mem_cons.mpr ⟨⟨Int.le_refl c, ?_⟩, List.forall_mem_append.mpr ⟨?_, ?_⟩⟩
    · exact isAligned_of_not_closes hcloses (List.prefix_append _ _)
    · intro p hp
      exact ⟨by have := (ihinner p hp).1; omega, (ihinner p hp).2⟩
    · refine List.forall_mem_cons.mpr ⟨⟨Int.le_refl c, ?_⟩, ihrest⟩
      rw [IsAligned, if_pos hcloses']
      rfl

/-- The lines that open a block are as many as there are blocks. -/
theorem countP_opens (h : Bracketed indent c ls bs) : ls.countP opens = bs.length := by
  induction h with
  | nil => rfl
  | line hopens _ _ _ ih => rw [List.countP_cons_of_neg (by simp [hopens]), ih]
  | @block c b inner within rest blocks hheader _ _ _ ihinner ihrest =>
    have hopens := (opens_indented indent c hheader).1
    have hopens' := (closes_indented hindent c).2
    rw [List.countP_cons_of_pos hopens, List.countP_append,
      List.countP_cons_of_neg (by simp [hopens']), ihinner, ihrest, List.length_cons,
      List.length_append]

/-- No line closes a block that was open before. -/
theorem afterBlock_append (h : Bracketed indent c ls bs) {depth : Int} (hdepth : depth < c)
    (more : List RawText) : afterBlock depth c (ls ++ more) = afterBlock depth c more := by
  induction h generalizing more with
  | nil => rfl
  | line hopens hcloses _ _ ih =>
    rw [List.cons_append, afterBlock_cons_of_not_closes hcloses, countAfter_of_plain hopens hcloses,
      ih hdepth]
  | @block c b inner within rest blocks hheader _ _ _ ihinner ihrest =>
    obtain ⟨hopens, hcloses⟩ := opens_indented indent c hheader
    obtain ⟨hcloses', hopens'⟩ := closes_indented hindent c
    -- inside the block the count is greater still, and the footer brings it back to `c`, not to
    -- `depth`
    rw [List.cons_append, List.append_assoc, List.cons_append,
      afterBlock_cons_of_not_closes hcloses, countAfter_of_opens hopens hcloses,
      ihinner (by omega), afterBlock, countAt_of_closes hcloses',
      countAfter_of_closes hopens' hcloses', if_neg (by omega), ihrest hdepth]

/-- **The count finds the blocks**, whatever lines follow. -/
theorem found_append (h : Bracketed indent c ls bs) (more : List RawText) :
    ∃ fs, found c (ls ++ more) = fs ++ found c more ∧
      List.Forall₂ (Block.IsFound indent) bs fs := by
  induction h generalizing more with
  | nil => exact ⟨[], rfl, .nil⟩
  | line hopens hcloses _ _ ih =>
    rw [List.cons_append, found, if_neg (by simp [hopens]), countAfter_of_plain hopens hcloses]
    exact ih more
  | @block c b inner within rest blocks hheader hinner _ hedges ihinner ihrest =>
    obtain ⟨hopens, hcloses⟩ := opens_indented indent c hheader
    obtain ⟨hcloses', hopens'⟩ := closes_indented hindent c
    -- The inner blocks are closed by lines of their own, so the first line that closes this one is
    -- the footer.
    have hafter : afterBlock c (c + 1) (inner ++ indented indent c footer :: (rest ++ more)) =
        some (rest ++ more) := by
      rw [hinner.afterBlock_append hindent (by omega), afterBlock, countAt_of_closes hcloses',
        if_pos ⟨hcloses', rfl⟩]
    obtain ⟨fs, hfs, hwithin⟩ := ihinner (indented indent c footer :: (rest ++ more))
    obtain ⟨gs, hgs, hblocks⟩ := ihrest more
    rw [found, if_neg (by simp [hopens']), countAfter_of_closes hopens' hcloses', hgs] at hfs
    refine ⟨⟨c, indented indent c b.header, some (rest ++ more)⟩ :: (fs ++ gs), ?_, ?_⟩
    · rw [List.cons_append, List.append_assoc, List.cons_append, found, if_pos hopens,
        countAt_of_not_closes hcloses, countAfter_of_opens hopens hcloses, hafter, hfs]
      simp
    · refine .cons ⟨rfl, rest ++ more, rfl, ?_⟩ (List.rel_append hwithin hblocks)
      exact hedges.trans (List.prefix_append rest more)

theorem found_all (h : Bracketed indent c ls bs) :
    List.Forall₂ (Block.IsFound indent) bs (found c ls) := by
  obtain ⟨fs, hfs, hbs⟩ := h.found_append hindent []
  rw [List.append_nil, found, List.append_nil] at hfs
  rwa [hfs]

end Bracketed

end ClassChart
