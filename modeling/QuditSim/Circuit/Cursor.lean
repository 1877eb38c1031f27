import QuditSim.Circuit.Build

/-!
# Cursors

A cursor walks over the steps of a circuit. It keeps the place of the current step in the
circuit, its places in the lists of gates and of measurements, and the sort of the current
step. Steps that are appended later lie ahead of every cursor: one that stood past the last
step learns the sort of the step that took that place when it is next asked.

A cursor may be attached to no circuit; then it can be copied and compared, but neither moved
nor read.
-/

namespace QuditSim

/-- A place in a circuit. -/
structure Cursor where
  /-- The sort of the current step as far as it was learned. -/
  kind : StepKind
  /-- The number of steps before the current one. -/
  ip : Nat
  /-- The number of gates before the current step. -/
  gateCursor : Nat
  /-- The number of measurements before the current step. -/
  measureCursor : Nat
deriving DecidableEq, Repr

namespace Circuit

variable {S : Type}

/-- The sort of the step at a place, and none past the last one. -/
def kindAt (c : Circuit S) (ip : Nat) : StepKind := c.order.getD ip .none

/-- The record that stands at the given places of the lists, for a sort of step. -/
def recordAt? (c : Circuit S) (kind : StepKind) (gateCursor measureCursor : Nat) : Option Step :=
  match kind with
  | .none => none
  | .gate => c.gates[gateCursor]?.map .gate
  | .measurement => c.measurements[measureCursor]?.map .measure

end Circuit

namespace Cursor

variable {S : Type}

/-- A cursor that is attached to no circuit. -/
def unattached : Cursor := ⟨.none, 0, 0, 0⟩

/-- The cursor on the first step. -/
def start (c : Circuit S) : Cursor := ⟨c.kindAt 0, 0, 0, 0⟩

/-- The cursor past the last step. -/
def finish (c : Circuit S) : Cursor :=
  ⟨.none, c.stepCount, c.gates.length, c.measurements.length⟩

/-- Whether a cursor stands past the last step. -/
def atEnd (c : Option (Circuit S)) (cursor : Cursor) : Bool :=
  match c with
  | none => true
  | some c => decide (c.stepCount ≤ cursor.ip)

/-- The cursor after it learned the sort of a step that was appended at its place. -/
def refresh (c : Option (Circuit S)) (cursor : Cursor) : Cursor :=
  match c with
  | none => cursor
  | some c =>
    if cursor.kind = .none ∧ cursor.ip < c.stepCount then
      { cursor with kind := c.kindAt cursor.ip }
    else cursor

/-- The cursor on the next step. -/
def advance (c : Option (Circuit S)) (cursor : Cursor) : Except Failure Cursor :=
  match c with
  | none => .error (.inOperation "advance" (.noAdvance .unattached))
  | some c =>
    if c.stepCount = 0 then .error (.inOperation "advance" (.noAdvance .emptyCircuit))
    else if c.stepCount ≤ cursor.ip then
      .error (.atStep "advance" cursor.ip (.noAdvance .pastEnd))
    else
      -- the step may have been appended after the cursor got here, when it had no sort yet
      let cursor := cursor.refresh (some c)
      .ok ⟨c.kindAt (cursor.ip + 1), cursor.ip + 1,
        if cursor.kind = .gate then cursor.gateCursor + 1 else cursor.gateCursor,
        if cursor.kind = .measurement then cursor.measureCursor + 1 else cursor.measureCursor⟩

/-- The current step, with the cursor after it learned the sort of that step. -/
def deref (c : Option (Circuit S)) (cursor : Cursor) : Except Failure (StepView × Cursor) :=
  match c with
  | none => .error (.inOperation "deref" (.noDeref .unattached))
  | some c =>
    if c.stepCount ≤ cursor.ip then .error (.atStep "deref" cursor.ip (.noDeref .pastEnd))
    else
      let cursor := cursor.refresh (some c)
      match c.recordAt? cursor.kind cursor.gateCursor cursor.measureCursor with
      | some step => .ok (⟨c.serial, cursor.kind, cursor.ip, step⟩, cursor)
      | none => .error (.atStep "deref" cursor.ip (.noDeref .pastEnd))

/-- The current step and the cursor on the next one, unless the cursor is past the last. -/
def next? (c : Circuit S) (cursor : Cursor) : Option (StepView × Cursor) :=
  if c.stepCount ≤ cursor.ip then none
  else
    match cursor.deref (some c) with
    | .error _ => none
    -- the cursor goes on from the place that it learned by reading
    | .ok (view, cursor) => (cursor.advance (some c)).toOption.map fun cursor => (view, cursor)

/-- At most `fuel` steps from the current one on, and the cursor behind them. -/
def drainFor (c : Circuit S) : Nat → Cursor → List StepView × Cursor
  | 0, cursor => ([], cursor)
  | fuel + 1, cursor =>
    match cursor.next? c with
    | none => ([], cursor)
    | some (view, cursor) =>
      let (views, cursor) := drainFor c fuel cursor
      (view :: views, cursor)

/-- The steps from the current one to the last, and the cursor behind them. -/
def drain (c : Circuit S) (cursor : Cursor) : List StepView × Cursor :=
  cursor.drainFor c (c.stepCount - cursor.ip)

/-- Whether two cursors, each over its circuit, stand at the same place. -/
def sameAs (ca cb : Option (Circuit S)) (a b : Cursor) : Bool := a.refresh ca == b.refresh cb

/-- The text that shows the cursor as far as it has learned. -/
def shown (cursor : Cursor) : String :=
  "StepIterator(kind=" ++ cursor.kind.name ++ ", ip=" ++ toString cursor.ip ++ ", gate_cursor=" ++
    toString cursor.gateCursor ++ ", measure_cursor=" ++ toString cursor.measureCursor ++ ")"

end Cursor

/-- All steps of a circuit in order. -/
def Circuit.views {S : Type} (c : Circuit S) : List StepView := ((Cursor.start c).drain c).1

end QuditSim
