import ClassChart.Proofs.Rendering
import Mathlib.Data.List.Basic
import Mathlib.Data.List.TakeWhile

/-!
# One layout for each declaration

The layout of a declaration is the only list of lines with levels from which every pen writes as it
does: each line behind the margin of its level, up to the first one that is too deep for the pen. How
many lines there are can be counted on the declaration. A rendering gives back the lines of the
layout exactly if none of them has a line break in it, the margin included.

## Main definitions

* `Pen.reaches`: whether a pen can write at a level
* `Declaration.IsLayout`: what pens write for a declaration is a list of lines with levels
* `Declaration.lineCount`: the number of lines, declaration by declaration

## Main results

* `Pen.output_eq`: what a pen writes for lines with levels
* `Declaration.isLayout_layout`, `Declaration.IsLayout.eq`: the layout is one, and the only one
* `Declaration.length_layout`: the length of the layout
* `Declaration.render_eq_printed_iff`: when the lines of a rendering are those of the layout
* `Declaration.exists_one_layout`: all of it
-/

namespace ClassChart

/-! ## What a pen writes -/

namespace Pen

/-- Whether a pen can write a line so many levels deeper. -/
def reaches (pen : Pen) (level : Nat) : Bool :=
  (pen.shift level).refusal?.isNone

/-- A pen without limits can write at every level. -/
theorem reaches_of_unlimited {pen : Pen} (h : pen.limits = none) (level : Nat) :
    pen.reaches level = true := by
  rw [reaches, refusal?, shift, h]
  rfl

theorem lineText_shift (pen : Pen) (level : Nat) (text : String) :
    (pen.shift level).lineText text =
      indented pen.indent (pen.depth + level) text ++ [.char '\n'] := by
  rw [lineText, margin_eq_times, indented, List.append_assoc, RawText.ofString,
    String.toList_append, List.map_append]
  rfl

/-- **What a pen writes for lines with levels**: all of them up to the first that is too deep. -/
theorem output_eq (pen : Pen) (ls : List (Nat × String)) :
    (pen.output ls).1 =
      (printed pen.indent pen.depth (ls.takeWhile fun l => pen.reaches l.1)).map
        (· ++ [.char '\n']) := by
  induction ls with
  | nil => rfl
  | cons l ls ih =>
    obtain ⟨level, text⟩ := l
    cases hrefusal : (pen.shift level).refusal? with
    -- the first line that is too deep ends both sides
    | some refusal =>
      have hreaches : pen.reaches level = false := by
        rw [reaches, hrefusal]
        rfl
      rw [List.takeWhile_cons_of_neg (by simp [hreaches]), output, hrefusal]
      rfl
    | none =>
      have hreaches : pen.reaches level = true := by
        rw [reaches, hrefusal]
        rfl
      rw [List.takeWhile_cons_of_pos (by exact hreaches), output, hrefusal, printed_cons,
        List.map_cons, ← ih, lineText_shift]

/-- A pen writes all lines if none is too deep. -/
theorem output_eq_ok_iff (pen : Pen) (ls : List (Nat × String)) :
    (pen.output ls).2 = .ok () ↔ ∀ l ∈ ls, pen.reaches l.1 = true := by
  induction ls with
  | nil => simp [output]
  | cons l ls ih =>
    rw [List.forall_mem_cons, ← ih, output, reaches]
    cases (pen.shift l.1).refusal? with
    | some refusal => simp
    | none => simp

end Pen

/-! ## The only layout -/

/-- What pens write for a declaration on a sink that takes everything is a list of lines with levels:
those lines in order, each behind its margin, up to the first that is too deep. -/
def Declaration.IsLayout (d : Declaration) (ls : List (Nat × String)) : Prop :=
  ∀ pen : Pen, pen.sink.room = none →
    (d.draw.on pen).2.sink.writes = pen.sink.writes ++
        (printed pen.indent pen.depth (ls.takeWhile fun l => pen.reaches l.1)).map
          (· ++ [.char '\n']) ∧
      ((d.draw.on pen).1 = .ok () ↔ ∀ l ∈ ls, pen.reaches l.1 = true)

theorem times_nil (n : Int) : RawText.times [] n = [] := by
  rw [RawText.times, List.flatten_replicate_nil]

theorem ofString_injective : Function.Injective RawText.ofString := by
  intro s t h
  have hchars : s.toList = t.toList := List.map_injective_iff.mpr (fun _ _ => Symbol.char.inj) h
  rw [← String.ofList_toList (s := s), hchars, String.ofList_toList]

/-- A line at a level is known from the way it looks without indentation and with blanks. -/
theorem eq_of_indented_eq {level level' : Nat} {text text' : String}
    (h : ∀ indent, indented indent (0 + level) text = indented indent (0 + level') text') :
    (level, text) = (level', text') := by
  -- no indentation shows the text, and then one blank for each level shows the level
  have htext : text = text' := by
    have hbare := h []
    rw [indented, indented, times_nil, times_nil] at hbare
    exact ofString_injective hbare
  subst htext
  have hlevel : level = level' := by
    have hlength := congrArg List.length (h [.char ' '])
    simpa [indented, RawText.times] using hlength
  rw [hlevel]

/-- Lines with levels are known from the way they look in every indentation. -/
theorem eq_of_printed_eq {ls ms : List (Nat × String)}
    (h : ∀ indent, printed indent 0 ls = printed indent 0 ms) : ls = ms := by
  induction ls generalizing ms with
  | nil =>
    have hnil := h []
    exact (List.map_eq_nil_iff.mp hnil.symm).symm
  | cons l ls ih =>
    cases ms with
    | nil => exact absurd (h []) (List.cons_ne_nil _ _)
    | cons m ms =>
      have hhead : l = m := eq_of_indented_eq fun indent => (List.cons.inj (h indent)).1
      have htail : ls = ms := ih fun indent => (List.cons.inj (h indent)).2
      rw [hhead, htail]

namespace Declaration

/-- **The layout of a declaration is what pens write for it.** -/
theorem isLayout_layout (d : Declaration) : d.IsLayout d.layout := by
  intro pen hroom
  rw [draw_eq_emit, Draw.emit_unlimited d.layout pen hroom, Pen.output_eq_ok_iff, Pen.wrote,
    Pen.output_eq]
  exact ⟨rfl, Iff.rfl⟩

/-- What a list of lines with levels looks like can be read off the writes of a pen without limits. -/
theorem IsLayout.writes_eq {d : Declaration} {ls : List (Nat × String)} (h : d.IsLayout ls)
    (indent : RawText) :
    (d.draw.on { indent }).2.sink.writes = (printed indent 0 ls).map (· ++ [.char '\n']) := by
  have hreaches : ls.takeWhile (fun l => Pen.reaches { indent } l.1) = ls := by
    apply List.takeWhile_eq_self_iff.mpr
    intro l _
    exact Pen.reaches_of_unlimited rfl l.1
  rw [(h { indent } rfl).1, hreaches, List.nil_append]

/-- **No other list is what pens write for a declaration.** -/
theorem IsLayout.eq {d : Declaration} {ls ms : List (Nat × String)} (hls : d.IsLayout ls)
    (hms : d.IsLayout ms) : ls = ms := by
  apply eq_of_printed_eq
  intro indent
  have hwrites := (hls.writes_eq indent).symm.trans (hms.writes_eq indent)
  exact List.map_injective_iff.mpr (fun _ _ h => List.append_cancel_right h) hwrites

end Declaration

/-! ## The number of lines -/

/-- The number of lines of a member: one for each variable of a field, and one for any other. -/
def Member.lineCount : Member → Nat
  | .field _ declared _ => declared.length
  | _ => 1

mutual

/-- The number of lines of a drawing, as a sum over the declarations in it. -/
def Declaration.lineCount : Declaration → Nat
  | .type _ head members => 2 + head.baseTypes.length + Declaration.lineCountAll members
  | .enum _ members => 2 + Declaration.lineCountAll members
  | .member m => m.lineCount
  | .scope _ members => Declaration.lineCountAll members

/-- The number of lines of declarations. -/
def Declaration.lineCountAll : List Declaration → Nat
  | [] => 0
  | d :: rest => d.lineCount + Declaration.lineCountAll rest

end

theorem length_deeper (ls : List (Nat × String)) : (deeper ls).length = ls.length :=
  List.length_map _

theorem length_level (texts : List String) : (level texts).length = texts.length :=
  List.length_map _

theorem Member.length_lines (m : Member) : m.lines.length = m.lineCount := by
  cases m with
  | field type declared modifiers => exact List.length_map _
  | _ => rfl

namespace Declaration

mutual

/-- **The length of a layout.** -/
theorem length_layout : ∀ d : Declaration, d.layout.length = d.lineCount
  | .type kind head members => by
    have hedges : head.edges.length = head.baseTypes.length := List.length_map _
    rw [layout, lineCount, List.length_cons, List.length_append, List.length_cons, length_deeper,
      length_level, hedges, length_layoutAll members]
    omega
  | .enum head members => by
    rw [layout, lineCount, List.length_cons, List.length_append, List.length_singleton,
      length_deeper, length_layoutAll members]
    omega
  | .member m => by rw [layout, lineCount, length_level, Member.length_lines]
  | .scope s members => by rw [layout, lineCount, length_layoutAll members]

theorem length_layoutAll : ∀ ds : List Declaration, (layoutAll ds).length = lineCountAll ds
  | [] => rfl
  | d :: rest => by
    rw [layoutAll, lineCountAll, List.length_append, length_layout d, length_layoutAll rest]

end

/-! ## When lines are lines -/

/-- **The lines of a rendering are those of the layout** exactly if none of them has a line break. -/
theorem render_eq_printed_iff (d : Declaration) (indent : RawText) :
    d.render indent = printed indent 0 d.layout ↔
      ∀ line ∈ printed indent 0 d.layout, line.IsUnbroken := by
  rw [render, writes_eq, ← List.flatMap_def]
  constructor
  · -- splitting leaves no line break, whatever it splits
    intro h line hline
    rw [← h] at hline
    exact Text.isUnbroken_of_mem_lines hline
  · exact Text.lines_flatMap

/-- **One layout for each declaration, and when its lines are lines.** There is exactly one list of
lines with levels that every pen writes for a declaration, at whatever depth and in whatever
indentation, up to the first line that is too deep for it. The declaration tells its length. A
rendering is this list, each line behind its margin, if and only if there is no line break in it. -/
theorem exists_one_layout (d : Declaration) :
    ∃ ls : List (Nat × String),
      d.IsLayout ls ∧ (∀ ms, d.IsLayout ms → ms = ls) ∧ ls.length = d.lineCount ∧
        ∀ indent : RawText, d.render indent = printed indent 0 ls ↔
          ∀ line ∈ printed indent 0 ls, line.IsUnbroken := by
  refine ⟨d.layout, isLayout_layout d, ?_, length_layout d, render_eq_printed_iff d⟩
  intro ms hms
  exact hms.eq (isLayout_layout d)

/-- A line that is too deep for a machine is not written, even where there is nothing before it: below
the least depth no list of lines is what the pen writes. -/
theorem draw_belowReach :
    ¬ ∃ ls : List (Nat × String), ∀ (indent : RawText) (depth : Int),
      ((Declaration.member (.enumMember "A" none)).draw.on
          { indent, depth, limits := some machineLimits }).2.sink.writes =
        (printed indent depth ls).map (· ++ [.char '\n']) := by
  rintro ⟨ls, h⟩
  -- the list would have a line because of depth zero, and none because of a depth too low
  have hone : ls.length = 1 := by
    have hwrites := congrArg List.length (h [] 0)
    rw [List.length_map, printed, List.length_map] at hwrites
    rw [← hwrites]
    decide +kernel
  have hnone : ls.length = 0 := by
    have hwrites := congrArg List.length (h [] (-0x8000000000000001))
    rw [List.length_map, printed, List.length_map] at hwrites
    rw [← hwrites]
    decide +kernel
  omega

end Declaration

end ClassChart
