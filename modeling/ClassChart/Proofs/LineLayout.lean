import ClassChart.Diagram.Drawing

/-!
# The lines of a drawing

Drawing a declaration writes a list of lines, each some levels deeper than the pen. The list hangs
on the declaration alone: drawing a level deeper is writing all lines a level deeper, and the pen
comes back as it was, but for the sink.

## Main definitions

* `Draw.on`: what an action does to a pen
* `Declaration.layout`: the lines of a declaration with their levels
* `Draw.emit`: writes lines at their levels
* `Pen.output`: what a pen writes for lines, if the sink takes all of it

## Main results

* `Draw.nested_bind`: drawing a level deeper distributes over sequences
* `Declaration.draw_eq_emit`: drawing a declaration writes its layout
* `Draw.emit_unlimited`, `Draw.emit_limited`: what lines do to a pen, without and with a limit
-/

namespace ClassChart

/-! ## Pens -/

namespace Pen

@[simp] theorem shift_zero (pen : Pen) : pen.shift 0 = pen := by
  simp [shift]

@[simp] theorem shift_shift (pen : Pen) (i j : Int) :
    (pen.shift i).shift j = pen.shift (i + j) := by
  simp [shift, Int.add_assoc]

end Pen

/-! ## Actions on a pen -/

namespace Draw

/-- The outcome of an action and the pen after it. -/
def on (action : Draw Unit) (pen : Pen) : Except Refusal Unit × Pen :=
  action.run.run pen

theorem ext {a b : Draw Unit} (h : ∀ pen, a.on pen = b.on pen) : a = b :=
  funext h

@[simp] theorem pure_on (pen : Pen) : (pure () : Draw Unit).on pen = (.ok (), pen) := rfl

/-- A sequence goes on with the pen of its first part. -/
theorem bind_on_ok {a b : Draw Unit} {pen next : Pen} (h : a.on pen = (.ok (), next)) :
    (a >>= fun _ => b).on pen = b.on next := by
  change (match a.on pen with | (outcome, after) => ExceptT.bindCont (fun _ => b) outcome after) = _
  rw [h]
  rfl

/-- A sequence ends where its first part is refused. -/
theorem bind_on_error {a b : Draw Unit} {pen next : Pen} {refusal : Refusal}
    (h : a.on pen = (.error refusal, next)) :
    (a >>= fun _ => b).on pen = (.error refusal, next) := by
  change (match a.on pen with | (outcome, after) => ExceptT.bindCont (fun _ => b) outcome after) = _
  rw [h]
  rfl

theorem nested_on (body : Draw Unit) (pen : Pen) :
    (nested body).on pen = ((body.on (pen.shift 1)).1, (body.on (pen.shift 1)).2.shift (-1)) := rfl

@[simp] theorem nested_pure : nested (pure ()) = pure () := by
  refine ext fun pen => ?_
  rw [nested_on, pure_on, pure_on, Pen.shift_shift]
  simp

/-- **Drawing a level deeper distributes over sequences**: the pen that comes back from the first
part is the one that the second part starts with. -/
theorem nested_bind (a b : Draw Unit) :
    nested (a >>= fun _ => b) = nested a >>= fun _ => nested b := by
  refine ext fun pen => ?_
  rcases h : a.on (pen.shift 1) with ⟨outcome, next⟩
  have hnested : (nested a).on pen = (outcome, next.shift (-1)) := by rw [nested_on, h]
  cases outcome with
  | ok u =>
    rw [bind_on_ok hnested, nested_on, nested_on, bind_on_ok h, Pen.shift_shift]
    simp
  | error refusal => rw [bind_on_error hnested, nested_on, bind_on_error h]

/-! ## Lines at levels -/

/-- Writes a line some levels deeper. -/
def lineAt : (level : Nat) → (text : String) → Draw Unit
  | 0, text => line text
  | level + 1, text => nested (lineAt level text)

/-- Writes lines at their levels. -/
def emit : List (Nat × String) → Draw Unit
  | [] => pure ()
  | (level, text) :: rest => do
    lineAt level text
    emit rest

theorem emit_append (ls ms : List (Nat × String)) :
    emit (ls ++ ms) = emit ls >>= fun _ => emit ms := by
  induction ls with
  | nil => simp [emit]
  | cons l ls ih => simp [emit, ih]

end Draw

/-- Lines a level deeper. -/
def deeper (lines : List (Nat × String)) : List (Nat × String) :=
  lines.map fun (level, text) => (level + 1, text)

theorem Draw.nested_emit (lines : List (Nat × String)) :
    nested (emit lines) = emit (deeper lines) := by
  induction lines with
  | nil => exact nested_pure
  | cons l ls ih => rw [emit, nested_bind, ih]; rfl

/-- Lines at the level of the pen. -/
def level (texts : List String) : List (Nat × String) :=
  texts.map fun text => (0, text)

theorem Draw.lines_eq_emit (texts : List String) : lines texts = emit (level texts) := by
  induction texts with
  | nil => rfl
  | cons text texts ih => rw [lines, ih]; rfl

mutual

/-- The lines of a declaration with their levels. -/
def Declaration.layout : Declaration → List (Nat × String)
  | .type kind head members =>
    (0, head.header kind) ::
      (deeper (Declaration.layoutAll members) ++ (0, footer) :: level head.edges)
  | .enum head members =>
    (0, head.header) :: (deeper (Declaration.layoutAll members) ++ [(0, footer)])
  | .member m => level m.lines
  | .scope _ members => Declaration.layoutAll members

/-- The lines of declarations with their levels. -/
def Declaration.layoutAll : List Declaration → List (Nat × String)
  | [] => []
  | d :: rest => d.layout ++ Declaration.layoutAll rest

end

mutual

/-- **Drawing a declaration writes its layout.** -/
theorem Declaration.draw_eq_emit : ∀ d : Declaration, d.draw = Draw.emit d.layout
  | .type kind head members => by
    rw [draw, layout, drawAll_eq_emit members, Draw.nested_emit, Draw.lines_eq_emit, Draw.emit,
      Draw.emit_append, Draw.emit]
    rfl
  | .enum head members => by
    rw [draw, layout, drawAll_eq_emit members, Draw.nested_emit, Draw.emit, Draw.emit_append,
      Draw.emit, Draw.emit]
    simp [Draw.lineAt]
  | .member m => by rw [draw, layout, Draw.lines_eq_emit]
  | .scope s members => by rw [draw, layout, drawAll_eq_emit members]

theorem Declaration.drawAll_eq_emit : ∀ ds : List Declaration, drawAll ds = Draw.emit (layoutAll ds)
  | [] => rfl
  | d :: rest => by
    rw [drawAll, layoutAll, Draw.emit_append, draw_eq_emit d, drawAll_eq_emit rest]

end

/-! ## What lines do to a pen -/

/-- A line some levels deeper is the line that the pen writes there, and leaves the pen where it
was. -/
theorem Draw.lineAt_on (level : Nat) (text : String) (pen : Pen) :
    (lineAt level text).on pen =
      match (pen.shift level).refusal? with
      | some refusal => (.error refusal, pen)
      | none =>
        match pen.sink.write ((pen.shift level).lineText text) with
        | some sink => (.ok (), { pen with sink })
        | none => (.error .full, pen) := by
  induction level generalizing pen with
  | zero =>
    rw [lineAt, Int.ofNat_zero, Pen.shift_zero]
    change Draw.on (match pen.refusal? with
      | some refusal => throw refusal
      | none =>
        match pen.sink.write (pen.lineText text) with
        | some sink => set { pen with sink }
        | none => throw .full) pen = _
    cases pen.refusal? with
    | some refusal => rfl
    | none => cases pen.sink.write (pen.lineText text) <;> rfl
  | succ level ih =>
    -- one level now and the others later are as many levels at once
    have hshift : (pen.shift 1).shift level = pen.shift (level + 1 : Nat) := by
      rw [Pen.shift_shift, Int.add_comm]
      rfl
    have hsink : (pen.shift 1).sink = pen.sink := rfl
    rw [lineAt, nested_on, ih, hshift, hsink]
    cases (pen.shift (level + 1 : Nat)).refusal? with
    | some refusal => simp
    | none =>
      cases pen.sink.write ((pen.shift (level + 1 : Nat)).lineText text) with
      | some sink =>
        have hback : (({ pen with sink } : Pen).shift 1).shift (-1) = { pen with sink } := by
          rw [Pen.shift_shift]
          exact Pen.shift_zero _
        exact congrArg (Prod.mk (Except.ok ())) hback
      | none => simp

/-- What a pen writes for lines if the sink takes all of it, and how that ends. -/
def Pen.output (pen : Pen) : List (Nat × String) → List RawText × Except Refusal Unit
  | [] => ([], .ok ())
  | (level, text) :: rest =>
    match (pen.shift level).refusal? with
    | some refusal => ([], .error refusal)
    | none => ((pen.shift level).lineText text :: (pen.output rest).1, (pen.output rest).2)

/-- The output of a pen does not hang on its sink. -/
theorem Pen.output_sink (pen : Pen) (sink : Sink) (lines : List (Nat × String)) :
    Pen.output { pen with sink } lines = pen.output lines := by
  induction lines with
  | nil => rfl
  | cons l ls ih => simp only [output, ih]; rfl

/-- The pen after more writes that leave the given room. -/
def Pen.wrote (pen : Pen) (texts : List RawText) (room : Option Nat) : Pen :=
  { pen with sink := ⟨pen.sink.writes ++ texts, room⟩ }

theorem Pen.wrote_nil {pen : Pen} {room : Option Nat} (hroom : pen.sink.room = room) :
    pen.wrote [] room = pen := by
  simp [wrote, ← hroom]

namespace Draw

theorem lineAt_refused {level : Nat} {pen : Pen} {refusal : Refusal}
    (h : (pen.shift level).refusal? = some refusal) (text : String) :
    (lineAt level text).on pen = (.error refusal, pen) := by
  rw [lineAt_on, h]

theorem lineAt_unlimited {level : Nat} {pen : Pen} (h : (pen.shift level).refusal? = none)
    (hroom : pen.sink.room = none) (text : String) :
    (lineAt level text).on pen = (.ok (), pen.wrote [(pen.shift level).lineText text] none) := by
  rw [lineAt_on, h, Sink.write, hroom]
  simp [Pen.wrote]

theorem lineAt_full {level : Nat} {pen : Pen} (h : (pen.shift level).refusal? = none)
    (hroom : pen.sink.room = some 0) (text : String) :
    (lineAt level text).on pen = (.error .full, pen) := by
  rw [lineAt_on, h, Sink.write, hroom]

theorem lineAt_limited {level : Nat} {pen : Pen} {k : Nat} (h : (pen.shift level).refusal? = none)
    (hroom : pen.sink.room = some (k + 1)) (text : String) :
    (lineAt level text).on pen =
      (.ok (), pen.wrote [(pen.shift level).lineText text] (some k)) := by
  rw [lineAt_on, h, Sink.write, hroom]
  rfl

/-- **Lines on a sink without a limit**: all of the output is written. -/
theorem emit_unlimited (lines : List (Nat × String)) (pen : Pen) (hroom : pen.sink.room = none) :
    (emit lines).on pen = ((pen.output lines).2, pen.wrote (pen.output lines).1 none) := by
  induction lines generalizing pen with
  | nil => rw [emit, pure_on, Pen.output, Pen.wrote_nil hroom]
  | cons l ls ih =>
    obtain ⟨level, text⟩ := l
    cases hrefusal : (pen.shift level).refusal? with
    | some refusal =>
      rw [emit, bind_on_error (lineAt_refused hrefusal text), Pen.output, hrefusal,
        Pen.wrote_nil hroom]
    | none =>
      have hnext := ih (pen.wrote [(pen.shift level).lineText text] none) rfl
      rw [emit, bind_on_ok (lineAt_unlimited hrefusal hroom text), hnext, Pen.output, hrefusal]
      simp [Pen.wrote, Pen.output_sink]

/-- **Lines on a sink with a limit**: as much of the output is written as there is room for. The
sink refuses exactly if that is not all. -/
theorem emit_limited (lines : List (Nat × String)) (pen : Pen) (k : Nat)
    (hroom : pen.sink.room = some k) :
    (emit lines).on pen =
      (if k < (pen.output lines).1.length then .error .full else (pen.output lines).2,
        pen.wrote ((pen.output lines).1.take k) (some (k - (pen.output lines).1.length))) := by
  induction lines generalizing pen k with
  | nil => simp [emit, Pen.output, Pen.wrote_nil hroom]
  | cons l ls ih =>
    obtain ⟨level, text⟩ := l
    cases hrefusal : (pen.shift level).refusal? with
    | some refusal =>
      rw [emit, bind_on_error (lineAt_refused hrefusal text), Pen.output, hrefusal]
      simp [Pen.wrote_nil hroom]
    | none =>
      cases k with
      -- without room the next line is refused, and nothing of it is written
      | zero =>
        rw [emit, bind_on_error (lineAt_full hrefusal hroom text), Pen.output, hrefusal]
        simp [Pen.wrote_nil hroom]
      | succ k =>
        -- a line is written and takes one from the room
        have hnext := ih (pen.wrote [(pen.shift level).lineText text] (some k)) k rfl
        rw [emit, bind_on_ok (lineAt_limited hrefusal hroom text), hnext, Pen.output, hrefusal]
        simp [Pen.wrote, Pen.output_sink]

end Draw

end ClassChart
