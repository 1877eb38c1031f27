import QuditSim.Workbench.Basic

/-!
# Circuits on a workbench

Circuits are made, appended to, and taken through their reports: `Workbench.copyCircuit` makes a
second circuit of the report of a first, and `Workbench.reload` does so by way of the text of a
file.
-/

namespace QuditSim

/-- Whether two circuits have the same report without operators. -/
def Circuit.sameReport (a b : Circuit Float) : Bool :=
  (a.report [] false).printLine == (b.report [] false).printLine

namespace Workbench

variable [Capacity]

/-- The extents and the name of a circuit with its sources of names and keys. -/
structure CircuitPlan where
  /-- The number of qudits. -/
  qudits : Argument
  /-- The number of dits. -/
  dits : Argument
  /-- The dimension of the qudits. -/
  dim : Argument
  /-- The name in reports. -/
  title : String
  /-- The source of the names of operators, for a dimension. -/
  namer : Nat → Except ExtentFault (Operator Float → String)
  /-- The function that computes keys. -/
  keyOf : Operator Float → Int

/-- Makes a circuit and gives it a name. -/
def createCircuit (name : String) (plan : CircuitPlan) : Bench (Circuit Float) := do
  let c ← lift .circuit (Circuit.create? (← nextSerial) plan.qudits plan.dits plan.dim plan.title
    plan.namer plan.keyOf)
  putCircuit name c
  return c

/-- Appends the step that a call asks for. -/
def append (name : String) (call : Call Float) : Bench (Circuit Float) := do
  let c ← circuit name
  tell (c.events call)
  let c ← lift .circuit (c.append call)
  replaceCircuit c
  return c

/-- Makes a circuit from the report of another and gives it a name. -/
def copyCircuit (name copyName : String) : Bench (Circuit Float × Circuit Float) := do
  let c ← circuit name
  let serial ← nextSerial
  let report := c.report [] true
  tell (Report.rebuildEvents serial report)
  let copy ← lift .rebuild (Report.rebuild serial report)
  putCircuit copyName copy
  return (c, copy)

/-- A circuit and the one that is read from its file. -/
def reload (name path : String) : Bench (Circuit Float × Circuit Float) := do
  let c ← circuit name
  if Text.hasLoneHalf c.document then throw .unwritable
  let serial ← nextSerial
  tell (Report.rebuildEvents serial (c.report [] true))
  return (c, ← lift .load (Report.load serial path (some c.document)))

end Workbench

end QuditSim
