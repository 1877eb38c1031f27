import QuditSim.Circuit.Cursor
import QuditSim.Engine.Basic
import QuditSim.Exchange.Tensor

/-!
# Descriptions of steps

A step that is asked for is described by the operation with its arguments under their names
(`Call.ofJson`). A view of a step can be described by hand as well, with operators named by
their places in the table of the circuit (`StepView.ofJson`).
-/

namespace QuditSim

/-- The argument for indices that a member gives. -/
def IndexArg.ofMember (json : Json) (name : String) : IndexArg :=
  .ofJson ((json.get? name).getD .null)

/-- The items of an argument for indices, one index counting as a list of one. -/
def IndexArg.items : IndexArg → List IndexItem
  | one value _ => [.int value]
  | many items => items
  | foreign kind => [.foreign kind]
  | raising error => [.raising error]

/-- The item that a member gives. -/
def IndexItem.ofMember (json : Json) (name : String) : IndexItem :=
  .ofJson ((json.get? name).getD .null)

/-- The call of an operation that a description gives. -/
def Call.ofJson [Capacity] (operation : String) (json : Json) : Reading (Call Float) := do
  let name := json.textMember "name"
  let op : Reading (OperatorArg Float) := (json.member "U").bind OperatorArg.ofJson
  let indices := IndexArg.ofMember json
  match operation with
  | "gate" => return .gate (← op) (indices "targets").items name
  | "gate_fan" => return .gateFan (← op) ((json.given? "targets").map IndexArg.ofJson) name
  | "gate_custom" => return .gateCustom (← op) (indices "targets") name
  | "qft" => return .qft
  | "tfq" => return .tfq
  | "ctrl" => return .ctrl (← op) (indices "ctrl") (indices "target") name
  | "cctrl" => return .cctrl (← op) (indices "ctrl") (indices "target") name
  | "ctrl_custom" => return .ctrlCustom (← op) (indices "ctrls") (indices "targets") name
  | "cctrl_custom" => return .cctrlCustom (← op) (indices "ctrls") (indices "targets") name
  | "measure_z" =>
    return .measureZ (.ofMember json "target") (.ofMember json "dit") name
  | "measure_v" => return .measureV (← op) (indices "target") (.ofMember json "dit") name
  | _ => throw (.missing operation)

namespace Circuit

/-- The item at an index of a list; a negative index counts from the end. -/
def itemAt {α : Type} (items : List α) (index : Int) : Reading α :=
  match (placeOf? index items.length).bind fun place => items[place]? with
  | some item => .ok item
  | none => .error .noItem

variable {S : Type}

/-- The view of the step at an index. -/
def viewAt (c : Circuit S) (index : Int) : Reading StepView := itemAt c.views index

/-- The key and the operator at an index of the table. -/
def operandAt (c : Circuit S) (index : Int) : Reading (Int × Operator S) :=
  itemAt c.operands.entries index

/-- The place of a key in the table. -/
def operandPlace? (c : Circuit S) (key : Int) : Option Nat := c.operands.keys.idxOf? key

end Circuit

/-- The measurement that a description gives. -/
def MeasureStep.ofJson {S : Type} (c : Circuit S) (dit : Int) (json : Json) :
    Reading MeasureStep := do
  let some kind := MeasureKind.ofName? (json.textMember "type") | throw .unknownKind
  let keys ← (json.ints "operands").mapM fun index => (c.operandAt index).map (·.1)
  return ⟨kind, keys, json.ints "targets", dit, json.textMember "name"⟩

/-- The gate that a description gives. One without an operator has the key zero. -/
def GateStep.ofJson {S : Type} (c : Circuit S) (json : Json) : Reading GateStep := do
  let some kind := GateKind.ofName? (json.textMember "type") | throw .unknownKind
  let key ← match json.int? "operand" with
    | some index => (c.operandAt index).map (·.1)
    | none => pure 0
  return ⟨kind, key, json.ints "controls", json.ints "targets", json.textMember "name"⟩

/-- The view that a description gives. -/
def StepView.ofJson {S : Type} (c : Circuit S) (json : Json) : Reading StepView := do
  let some kind := StepKind.ofName? (json.textMember "kind") | throw .unknownKind
  let step : Step ← match json.int? "dit" with
    | some dit => (MeasureStep.ofJson c dit json).map .measure
    | none => (GateStep.ofJson c json).map .gate
  return ⟨c.serial, kind, (json.int? "ip").getD 0, step⟩

end QuditSim
