import QuditSim.Circuit.Cursor
import QuditSim.Engine.Basic
import QuditSim.Report.Matrix
import QuditSim.Report.Validation

/-!
# Reports of circuits and engines

`Circuit.report` describes a circuit as a value of the exchange format in the layout of
`Report.validate`, with its operators if they are asked for. `Engine.report` describes the
classical results of an engine.
-/

namespace QuditSim

/-- The key of an operator as reports write it: at least sixteen hexadecimal digits. -/
def operandId (key : Int) : String := Text.signedHexadecimal key 16

/-- The description of a step. -/
def StepView.entry (includeOperands : Bool) (view : StepView) : Json :=
  let start := [("step", Json.int view.ip), ("type", .string view.step.kindName)]
  let operand (key : Option Int) : List (String × Json) :=
    if includeOperands then key.toList.map fun key => ("operand", .string (operandId key)) else []
  match view.step with
  | .gate step =>
    .object (start ++
      (if step.controls = [] then [] else [("controls", Json.integers step.controls)]) ++
      [("targets", Json.integers step.targets)] ++ operand (some step.key) ++
      [("name", .string step.name)])
  | .measure step =>
    .object (start ++ [("targets", Json.integers step.targets), ("dit", Json.int step.dit)] ++
      operand step.keys.head? ++ [("name", .string step.name)])

/-- The operators of a table under their keys. -/
def OperandTable.encoded (table : OperandTable Float) : Json :=
  .object (table.entries.map fun (key, op) => (operandId key, op.encoded))

/-- The description of a circuit. The metadata, if there is any, stands in it as given. -/
def Circuit.report (c : Circuit Float) (metadata : List (String × Json)) (includeOperands : Bool) :
    Json :=
  .object (
    [("version", .string Report.version), ("n_qudits", .nat c.qudits), ("n_dits", .nat c.dits),
      ("dim", .nat c.dim), ("name", .string c.name),
      ("steps", .array (c.views.map (·.entry includeOperands))),
      ("gate_count", .nat c.gateCounts.total), ("measurement_count", .nat c.measureCounts.total),
      ("measured", .naturals c.measuredQudits), ("non_measured", .naturals c.liveQudits)] ++
    (if includeOperands then [("operands", c.operands.encoded)] else []) ++
    (if metadata.isEmpty then [] else [("metadata", .object metadata)]) ++
    [("endian", .string "little")])

/-- The description of the classical results of an engine: the measured qudits, the dits and
their probabilities, and the branches of noise where there is any. -/
def Engine.report {S R : Type} [Scalar S] (engine : Engine S R) : Json :=
  .object (
    [("measured", .naturals engine.measured), ("dits", .naturals engine.dits),
      ("probs", .array (engine.probs.map fun p => .float (Scalar.toFloat p)))] ++
    match engine.noiseBranches? with
    | some branches => [("noise_results", .array (branches.map Json.naturals))]
    | none => [])

end QuditSim
