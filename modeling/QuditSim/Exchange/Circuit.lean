import QuditSim.Circuit.Summary
import QuditSim.Exchange.Display
import QuditSim.Exchange.Step
import QuditSim.Report.Circuit

/-!
# Circuits and cursors on display

How circuits, their steps and the cursors over them appear in the exchange format, beside the
reports that circuits can be rebuilt from. `Circuit.summary` counts what a circuit holds.
-/

namespace QuditSim

/-- Counts by name on display. -/
def Tally.display (tally : Tally) : Json := .object (tally.map fun (name, n) => (name, .nat n))

/-- The members of a gate on display. -/
def GateStep.members (step : GateStep) : List (String × Json) :=
  [("kind", .string step.kind.name), ("controls", .integers step.controls),
    ("targets", .integers step.targets), ("name", .string step.name)]

/-- The members of a measurement on display. -/
def MeasureStep.members (step : MeasureStep) : List (String × Json) :=
  [("kind", .string step.kind.name), ("targets", .integers step.targets), ("dit", .int step.dit),
    ("name", .string step.name)]

/-- A recorded step on display. -/
def Step.display : Step → Json
  | gate step => .object step.members
  | measure step => .object (step.members ++ [("operands", .nat step.keys.length)])

/-- A view on display. -/
def StepView.display (view : StepView) : Json :=
  .object [("ip", .int view.ip), ("view", .string view.kind.name),
    ("is_gate", .bool (view.kind == .gate)), ("is_measurement", .bool (view.kind == .measurement)),
    ("step", view.step.display)]

namespace Circuit

variable {S : Type}

/-- The place of a key in the table on display. -/
def displayPlace (c : Circuit S) (key : Int) : Json := .natOrNull (c.operandPlace? key)

/-- All gates on display, with the places of their operators. -/
def displayGates (c : Circuit S) : Json :=
  .array (c.gates.map fun step =>
    .object (step.members ++ [("operand", c.displayPlace step.key)]))

/-- All measurements on display, with the places of their bases. -/
def displayMeasurements (c : Circuit S) : Json :=
  .array (c.measurements.map fun step =>
    .object (step.members ++ [("operands", .array (step.keys.map c.displayPlace))]))

/-- What a circuit holds, counted. -/
def counts (c : Circuit S) : Json :=
  .object [("steps", .nat c.stepCount), ("gates", .nat c.gateCounts.total),
    ("measurements", .nat c.measureCounts.total), ("measured", .naturals c.measuredQudits),
    ("operands", .nat c.operands.size)]

/-- The extents of a circuit and what it holds, counted by name as well. -/
def summary (c : Circuit S) : Json :=
  .object [("n_qudits", .nat c.qudits), ("n_dits", .nat c.dits), ("dim", .nat c.dim),
    ("n_steps", .nat c.stepCount), ("n_operands", .nat c.operands.size),
    ("gate_count", .nat c.gateCounts.total), ("measurement_count", .nat c.measureCounts.total),
    ("gate_counts", c.gateCounts.display), ("measurement_counts", c.measureCounts.display)]

/-- The line of the last step, without blanks in front. -/
def lastLine (c : Circuit S) : Json :=
  match c.views.getLast? with
  | some view => .string (view.line 0)
  | none => .null

end Circuit

/-- A cursor on display, with the sort that it learns when it is asked. -/
def Cursor.display {S : Type} (c : Option (Circuit S)) (cursor : Cursor) : Json :=
  .object [("repr", .string cursor.shown), ("at_end", .bool (cursor.atEnd c)),
    ("kind", .string (cursor.refresh c).kind.name), ("ip", .nat cursor.ip),
    ("cursors", .naturals [cursor.gateCursor, cursor.measureCursor])]

end QuditSim
