import QuditSim.Circuit.Build
import QuditSim.Report.Matrix
import QuditSim.Report.Validation

/-!
# Circuits from reports

`Report.rebuild` makes the circuit that a report with operators describes. Every step becomes
a `Call` (`Report.callOf`), and the calls are made one after the other, so that the circuit is
checked like one that is built by hand. Names that are empty are chosen anew.
-/

namespace QuditSim

/-- Why no circuit comes from a report. -/
inductive RebuildFault where
  /-- The report does not follow the layout. -/
  | report (fault : ReportFault)
  /-- The report has no operators. -/
  | noOperands
  /-- An operator cannot be read. -/
  | matrix (fault : MatrixFault)
  /-- A step is of a kind that there is not. -/
  | unknownKind
  /-- A step lacks an index that its kind needs. -/
  | noIndex
  /-- A step names no operator of the report. -/
  | unknownOperand (step : String)
  /-- A gate of a kind that cannot be asked for. -/
  | gateKind (step : String) (kind : GateKind)
  /-- A measurement of a kind that cannot be asked for. -/
  | measureKind (step : String) (kind : MeasureKind)
  /-- A call was refused. -/
  | circuit (fault : CircuitFault)

/-- The text of a fault, for those that have one. -/
def RebuildFault.message? : RebuildFault → Option String
  | report fault => some fault.message
  | noOperands => some "report has no 'operands'; export with include_operands=True"
  | matrix _ | unknownKind | noIndex => none
  | unknownOperand step => some ("Step " ++ step ++ ": missing or unknown operand")
  | gateKind step kind => some ("Step " ++ step ++ ": cannot rebuild gate " ++ kind.name)
  | measureKind step kind =>
    some ("Step " ++ step ++ ": cannot rebuild measurement " ++ kind.name)
  | circuit fault => fault.message?

namespace Report

variable [Capacity]

/-- The operators of a report under their keys. -/
abbrev Operands : Type := List (String × Operator Float)

/-- The operators that the members of an object hold. -/
def readOperands (members : List (String × Json)) : Except RebuildFault Operands :=
  members.mapM fun (key, value) =>
    match Operator.decode value with
    | .ok op => .ok (key, op)
    | .error fault => .error (.matrix fault)

/-- The number of a step as messages show it. -/
def stepText (entry : Json) : String := ((entry.get? "step").getD .null).plain

/-- The operator that a step names. A step that names none is given the one under the empty
key. -/
def operandOf (operands : Operands) (entry : Json) : Except RebuildFault (OperatorArg Float) :=
  match operands.lookup (textOf ((entry.get? "operand").getD .null)) with
  | some op => .ok (.operator op)
  | none => .error (.unknownOperand (stepText entry))

/-- The items of a list. -/
def itemsOf : Option Json → List Json
  | some (.array items) => items
  | _ => []

/-- The first of the indices of a step. -/
def firstIndex (items : List Json) : Except RebuildFault Json :=
  match items with
  | [] => .error .noIndex
  | item :: _ => .ok item

/-- The argument for indices of a step: the first one by itself, or all of them. -/
def indexArg (extent : Extent) (items : List Json) : Except RebuildFault IndexArg :=
  match extent with
  | .single => (firstIndex items).map IndexArg.ofJson
  | .multiple => .ok (.ofJson (.array items))

/-- The call for a measurement. -/
def measurementOf (operands : Operands) (entry dit : Json) : Except RebuildFault (Call Float) := do
  let name := textOf ((entry.get? "name").getD .null)
  let targets := itemsOf (entry.get? "targets")
  match MeasureKind.ofName? (textOf ((entry.get? "type").getD .null)) with
  | none => throw .unknownKind
  | some .none => throw (.measureKind (stepText entry) .none)
  | some .standard => return .measureZ (.ofJson (← firstIndex targets)) (.ofJson dit) name
  | some .basis =>
    let basis ← operandOf operands entry
    return .measureV basis (← indexArg .single targets) (.ofJson dit) name
  | some .jointBasis =>
    let basis ← operandOf operands entry
    return .measureV basis (← indexArg .multiple targets) (.ofJson dit) name

/-- The call for a gate. -/
def gateOf (operands : Operands) (entry : Json) : Except RebuildFault (Call Float) := do
  let name := textOf ((entry.get? "name").getD .null)
  let targets := itemsOf (entry.get? "targets")
  let controls := itemsOf (entry.get? "controls")
  match GateKind.ofName? (textOf ((entry.get? "type").getD .null)) with
  | none => throw .unknownKind
  | some kind =>
    let op ← operandOf operands entry
    match kind with
    -- the operator is looked up even for kinds that cannot be replayed
    | .none | .fourier | .inverseFourier => throw (.gateKind (stepText entry) kind)
    | .single | .two | .three => return .gate op (targets.map IndexItem.ofJson) name
    | .custom => return .gateCustom op (.ofJson (.array targets)) name
    | .fan => return .gateFan op (some (.ofJson (.array targets))) name
    | .controlled .quantum one other =>
      return .ctrl op (← indexArg one controls) (← indexArg other targets) name
    | .controlled .classical one other =>
      return .cctrl op (← indexArg one controls) (← indexArg other targets) name
    | .controlledCustom .quantum =>
      return .ctrlCustom op (.ofJson (.array controls)) (.ofJson (.array targets)) name
    | .controlledCustom .classical =>
      return .cctrlCustom op (.ofJson (.array controls)) (.ofJson (.array targets)) name

/-- The call for a step: a measurement if it has a dit, and a gate otherwise. -/
def callOf (operands : Operands) (entry : Json) : Except RebuildFault (Call Float) :=
  match entry.get? "dit" with
  | some dit => measurementOf operands entry dit
  | none => gateOf operands entry

/-- A circuit with the steps of a report appended. -/
def replay (operands : Operands) (c : Circuit Float) :
    List Json → Except RebuildFault (Circuit Float)
  | [] => .ok c
  | entry :: rest => do
    let call ← callOf operands entry
    match c.append call with
    | .ok c => replay operands c rest
    | .error fault => .error (.circuit fault)

/-- What appending the steps of a report has to tell. -/
def replayEvents (operands : Operands) (c : Circuit Float) : List Json → List Event
  | [] => []
  | entry :: rest =>
    match callOf operands entry with
    | .error _ => []
    | .ok call =>
      c.events call ++
        match c.append call with
        | .ok c => replayEvents operands c rest
        | .error _ => []

/-- The circuit without steps that a report starts with. -/
def emptyCircuit (serial : Nat) (report : Json) : Except RebuildFault (Circuit Float) :=
  let given (name : String) : Argument := integerField report name
  (Circuit.create? serial (given "n_qudits") (given "n_dits") (given "dim")
    (textOf ((report.get? "name").getD .null)) Circuit.standardNamer
    Operator.contentKey).mapError .circuit

/-- The operators of a report and the circuit without steps that it starts with. -/
def prepare (serial : Nat) (report : Json) : Except RebuildFault (Operands × Circuit Float) := do
  (validate report).mapError .report
  match report.get? "operands" with
  | some (.object members) =>
    let operands ← readOperands members
    return (operands, ← emptyCircuit serial report)
  | _ => throw .noOperands

/-- The circuit that a report describes. -/
def rebuild (serial : Nat) (report : Json) : Except RebuildFault (Circuit Float) := do
  let (operands, c) ← prepare serial report
  replay operands c (itemsOf (report.get? "steps"))

/-- What making the circuit of a report has to tell. -/
def rebuildEvents (serial : Nat) (report : Json) : List Event :=
  match prepare serial report with
  | .ok (operands, c) => replayEvents operands c (itemsOf (report.get? "steps"))
  | .error _ => []

end Report

end QuditSim
