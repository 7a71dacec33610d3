import ClassChart.Proofs.LineLayout

/-!
# Drawing sessions

A session is a sequence of steps on one pen, each performed whether or not the one before it was
refused. No drawing moves the pen for good: its depth is the one assigned last. A sink that takes
only some more writes gets a prefix of what it would get without the limit.

## Main definitions

* `Pen.after`: the pen after a session
* `assignedDepth`: the depth assigned last in a session
* `Pen.withRoom`: the pen on a sink with so much room

## Main results

* `Step.perform_depth`: a step leaves the depth or assigns it
* `Pen.after_depth`: so the depth after a session is the one assigned last
* `draw_withRoom`: a drawing on a limited sink, by what it writes without a limit
* `session_depth_and_prefix`: both, after every session
-/

namespace ClassChart

/-- The pen after a session. -/
def Pen.after (pen : Pen) (steps : List Step) : Pen :=
  steps.foldl (fun pen step => (step.perform.on pen).2) pen

/-- The depth that a step assigns, if it assigns one. -/
def Step.depth? : Step → Option Int
  | .setDepth depth => some depth
  | _ => none

/-- The depth assigned last, which is zero if none was. -/
def assignedDepth (steps : List Step) : Int :=
  (steps.filterMap Step.depth?).getLast?.getD 0

/-- The pen on a sink with room for so many more writes, or without a limit. -/
def Pen.withRoom (pen : Pen) (room : Option Nat) : Pen :=
  { pen with sink := { pen.sink with room } }

/-! ## The depth after a session -/

/-- Lines leave a pen as it was but for its sink. -/
theorem Draw.emit_depth (lines : List (Nat × String)) (pen : Pen) :
    ((emit lines).on pen).2.depth = pen.depth := by
  cases hroom : pen.sink.room with
  | none => rw [emit_unlimited lines pen hroom]; rfl
  | some k => rw [emit_limited lines pen k hroom]; rfl

/-- **A step leaves the depth or assigns it**, also if it is refused. -/
theorem Step.perform_depth (step : Step) (pen : Pen) :
    (step.perform.on pen).2.depth = step.depth?.getD pen.depth := by
  cases step with
  | draw d => rw [perform, Declaration.draw_eq_emit]; exact Draw.emit_depth d.layout pen
  | line text =>
    have hline : Draw.line text = Draw.emit [(0, text)] := by simp [Draw.emit, Draw.lineAt]
    rw [perform, hline]
    exact Draw.emit_depth [(0, text)] pen
  | setDepth depth => rfl
  | setIndent indent => rfl
  | setRoom room => rfl

/-- **The depth after a session** is the one assigned last, or the one before the session. -/
theorem Pen.after_depth (steps : List Step) (pen : Pen) :
    (pen.after steps).depth = (steps.filterMap Step.depth?).getLast?.getD pen.depth := by
  induction steps generalizing pen with
  | nil => rfl
  | cons step steps ih =>
    have hnext : (pen.after (step :: steps)).depth =
        (steps.filterMap Step.depth?).getLast?.getD (step.depth?.getD pen.depth) := by
      rw [← Step.perform_depth step pen]
      exact ih (step.perform.on pen).2
    rw [hnext]
    cases hdepth : step.depth? with
    | none => rw [List.filterMap_cons_none hdepth, Option.getD_none]
    | some depth =>
      rw [List.filterMap_cons_some hdepth, List.getLast?_cons, Option.getD_some, Option.getD_some]

/-! ## Drawings on a limited sink -/

/-- No refusal of a pen is one of its sink. -/
theorem Pen.refusal?_ne_full (pen : Pen) : pen.refusal? ≠ some .full := by
  unfold refusal?
  cases pen.limits with
  | none => simp
  | some limits =>
    simp only [Option.bind_some, Limits.refusal?]
    split
    · simp
    · split <;> simp

theorem Pen.output_ne_full (pen : Pen) (lines : List (Nat × String)) :
    (pen.output lines).2 ≠ .error .full := by
  induction lines with
  | nil => simp [output]
  | cons l ls ih =>
    have hpen := refusal?_ne_full (pen.shift l.1)
    rw [output]
    cases hrefusal : (pen.shift l.1).refusal? with
    | none => exact ih
    | some refusal =>
      rw [hrefusal] at hpen
      simpa using hpen

/-- What a drawing writes on an unlimited sink that holds nothing yet. -/
theorem draw_fresh (d : Declaration) (pen : Pen) :
    d.draw.on { pen with sink := {} } =
      ((pen.output d.layout).2, { pen with sink := ⟨(pen.output d.layout).1, none⟩ }) := by
  rw [Declaration.draw_eq_emit, Draw.emit_unlimited _ _ rfl, Pen.output_sink]
  rfl

/-- What a drawing writes on a sink with room for `k` writes. -/
theorem draw_withRoom (d : Declaration) (pen : Pen) (k : Nat) :
    d.draw.on (pen.withRoom (some k)) =
      (if k < (pen.output d.layout).1.length then .error .full else (pen.output d.layout).2,
        pen.wrote ((pen.output d.layout).1.take k)
          (some (k - (pen.output d.layout).1.length))) := by
  rw [Declaration.draw_eq_emit, Draw.emit_limited _ _ k rfl, Pen.withRoom, Pen.output_sink]
  rfl

/-- **After every session the depth is the one assigned last, and limited drawings are prefixes.**
If a drawing makes some writes on an unlimited sink, then on a sink with room for `k` it makes the
first `k` of them, is refused by the sink exactly if there are more, and leaves the rest of the
room. -/
theorem session_depth_and_prefix (indent : RawText) (limits : Option Limits) (steps : List Step) :
    (Pen.after { indent, limits } steps).depth = assignedDepth steps ∧
      ∀ (d : Declaration) (k : Nat),
        let pen := Pen.after { indent, limits } steps
        let writes := (d.draw.on { pen with sink := {} }).2.sink.writes
        let drawn := d.draw.on (pen.withRoom (some k))
        drawn.2.sink.writes = pen.sink.writes ++ writes.take (min k writes.length) ∧
          (drawn.1 = .error .full ↔ k < writes.length) ∧
          drawn.2.sink.room = some (k - min k writes.length) := by
  refine ⟨Pen.after_depth steps _, fun d k => ?_⟩
  intro pen writes drawn
  have hwrites : writes = (pen.output d.layout).1 := by
    rw [show writes = (d.draw.on { pen with sink := {} }).2.sink.writes from rfl, draw_fresh]
  have hdrawn : drawn = (if k < writes.length then .error .full else (pen.output d.layout).2,
      pen.wrote (writes.take k) (some (k - writes.length))) := by
    rw [hwrites]
    exact draw_withRoom d pen k
  -- subtraction stops at zero, so the smaller number may be taken off as well
  have hroom : k - writes.length = k - min k writes.length := by omega
  refine ⟨?_, ?_, ?_⟩
  · rw [hdrawn, List.take_eq_take_min]
    rfl
  · rw [hdrawn]
    by_cases hlt : k < writes.length
    · simp [hlt]
    · -- all is written, and what may still refuse a line is the pen and not the sink
      simpa [hlt] using Pen.output_ne_full pen d.layout
  · rw [hdrawn, ← hroom]
    rfl

end ClassChart
