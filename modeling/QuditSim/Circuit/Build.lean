import QuditSim.Circuit.Basic
import QuditSim.Logging.Event

/-!
# Appending steps

A step is asked for by a `Call`: the operation with its arguments, as they were given.
`Circuit.plan` checks the arguments in a fixed order and answers with an `Entry` that can be
recorded; `Circuit.commit` records it; `Circuit.append` is one after the other. A call that is
refused says why, at which step and in which operation, unless the error is one without a place.

Arguments are checked in this order: integers and lists that need an item, ranges, measured
qudits, repeated indices, indices in two roles, and the operator last.
-/

namespace QuditSim

/-- An argument that should be an operator. -/
inductive OperatorArg (S : Type) where
  /-- An operator. -/
  | operator (op : Operator S)
  /-- Another value, by the name of its kind. -/
  | foreign (kind : String)
  /-- A value that raises an error of its own where it is read as an operator. -/
  | raising (error : ReadingError)

/-- A step that is asked for. -/
inductive Call (S : Type) where
  /-- An operator on one, two or three qudits. -/
  | gate (op : OperatorArg S) (targets : List IndexItem) (name : String)
  /-- An operator on each of some qudits, or of all that were not measured. -/
  | gateFan (op : OperatorArg S) (targets : Option IndexArg) (name : String)
  /-- An operator on qudits jointly. -/
  | gateCustom (op : OperatorArg S) (targets : IndexArg) (name : String)
  /-- The Fourier transform of the register. -/
  | qft
  /-- The inverse Fourier transform of the register. -/
  | tfq
  /-- A one-qudit operator under control of qudits. -/
  | ctrl (op : OperatorArg S) (controls targets : IndexArg) (name : String)
  /-- An operator on qudits jointly, under control of qudits. -/
  | ctrlCustom (op : OperatorArg S) (controls targets : IndexArg) (name : String)
  /-- A one-qudit operator under control of dits. -/
  | cctrl (op : OperatorArg S) (controls targets : IndexArg) (name : String)
  /-- An operator on qudits jointly, under control of dits. -/
  | cctrlCustom (op : OperatorArg S) (controls targets : IndexArg) (name : String)
  /-- A measurement in the basis of the digits. -/
  | measureZ (target dit : IndexItem) (name : String)
  /-- A measurement in the basis of the columns of an operator. -/
  | measureV (basis : OperatorArg S) (targets : IndexArg) (dit : IndexItem) (name : String)

/-- The operation of a call, as failures name it. -/
def Call.operation {S : Type} : Call S → String
  | gate .. => "gate"
  | gateFan .. => "gate_fan"
  | gateCustom .. => "gate_custom"
  | qft => "qft"
  | tfq => "tfq"
  | ctrl .. => "ctrl"
  | ctrlCustom .. => "ctrl_custom"
  | cctrl .. => "cctrl"
  | cctrlCustom .. => "cctrl_custom"
  | measureZ .. => "measure_z"
  | measureV .. => "measure_v"

/-- A step that was checked and can be recorded. -/
inductive Entry (S : Type) where
  /-- A gate, with the number that its count is raised by. -/
  | gate (kind : GateKind) (op : Operator S) (controls targets : List Int) (name : String)
      (increment : Nat)
  /-- A measurement, with its basis if it has one of its own. -/
  | measurement (kind : MeasureKind) (basis : Option (Operator S)) (targets : List Int) (dit : Int)
      (name : String)

namespace Circuit

variable {S : Type}

/-! ## Checks -/

/-- Indices that are read, or the cause for which they are not. -/
def readIndices (indices : Except IndexFault (List Int)) : Except Cause (List Int) :=
  indices.mapError .notIndices

/-- Refuses a list without items. -/
def checkNonempty (role : Role) (indices : List Int) : Except Cause Unit :=
  if indices = [] then .error (.emptyList role) else .ok ()

/-- Whether an index is outside of the range below a bound. -/
def outside (bound : Nat) (i : Int) : Bool := i < 0 || (bound : Int) ≤ i

/-- Refuses qudits that are not there. -/
def checkQudits (c : Circuit S) (role : Role) (indices : List Int) : Except Cause Unit :=
  match indices.find? (outside c.qudits) with
  | some i => .error (.quditRange (some role) i c.qudits)
  | none => .ok ()

/-- Refuses dits that are not there. -/
def checkDits (c : Circuit S) (indices : List Int) : Except Cause Unit :=
  match indices.find? (outside c.dits) with
  | some i => .error (.ditRange i c.dits)
  | none => .ok ()

/-- Refuses qudits that were measured. -/
def checkLive (c : Circuit S) (indices : List Int) : Except Cause Unit :=
  match indices.find? c.isMeasured with
  | some i => .error (.measured i)
  | none => .ok ()

/-- Refuses a list that names an index twice. -/
def checkDistinct (role : Role) (indices : List Int) : Except Cause Unit :=
  if indices.Nodup then .ok () else .error (.repeated role indices)

/-- The indices that two lists share, in ascending order. -/
def sharedIndices (controls targets : List Int) : List Int :=
  ((controls.filter targets.contains).eraseDups).mergeSort

/-- Refuses lists that share an index. -/
def checkDisjoint (controls targets : List Int) : Except Cause Unit :=
  if controls.any targets.contains then .error (.shared (sharedIndices controls targets))
  else .ok ()

/-- The checks of a step over qudits. -/
def checkQuantum (c : Circuit S) (controls targets : List Int) : Except Cause Unit := do
  c.checkQudits .control controls
  c.checkQudits .target targets
  c.checkLive (controls ++ targets)
  checkDistinct .control controls
  checkDistinct .target targets
  checkDisjoint controls targets

/-- The checks of a step over qudits under control of dits. -/
def checkClassical (c : Circuit S) (dits targets : List Int) : Except Cause Unit := do
  c.checkDits dits
  c.checkQudits .target targets
  c.checkLive targets
  checkDistinct .dit dits
  checkDistinct .target targets

/-- The operator of an argument, refused unless it fits the number of qudits that it acts on
and its key is free or its own. -/
def checkOperand [Scalar S] (c : Circuit S) (arg : OperatorArg S) (acted : Nat) :
    Except Cause (Operator S) :=
  match arg with
  | .foreign kind => .error (.notOperator kind)
  | .raising error => .error (.unreadable error)
  | .operator op =>
    if !op.isSquare then .error (.notSquare op.shape)
    else if op.rows ≠ c.dim ^ acted then .error (.wrongSize acted c.dim op.shape)
    else (c.operands.keyFor op).map fun _ => op

/-! ## Names -/

/-- The name of a step: the given one, or that of its operator. -/
def nameFor (c : Circuit S) (op : Operator S) (given : String) : String :=
  if given = "" then c.namer op else given

/-- The name of a controlled step: the given one, or that of its operator behind a mark. -/
def controlledName (c : Circuit S) (op : Operator S) (given : String) (control : Control) :
    String :=
  if given = "" then
    let base := c.namer op
    if base = "" then control.mark else control.mark ++ "-" ++ base
  else given

/-! ## Calls -/

/-- The kind of a gate on a number of qudits jointly. -/
def jointKind : Nat → GateKind
  | 1 => .single
  | 2 => .two
  | _ => .three

/-- A controlled gate that was asked for, with its checks done. -/
def planControlled [Scalar S] (c : Circuit S) (control : Control) (kind : GateKind)
    (op : OperatorArg S) (controls targets : List Int) (acted : Nat) (name : String) :
    Except Cause (Entry S) := do
  -- the lists are checked before the operator, so a bad index is reported first
  match control with
  | .quantum =>
    checkNonempty .control controls
    checkNonempty .target targets
    c.checkQuantum controls targets
  | .classical =>
    checkNonempty .target targets
    c.checkClassical controls targets
  let op ← c.checkOperand op acted
  return .gate kind op controls targets (c.controlledName op name control) 1

/-- The step that a call asks for, with its checks done. -/
def plan [Scalar S] (c : Circuit S) : Call S → Except Cause (Entry S)
  | .gate op targets name => do
    -- an empty list is refused before any of its items is read
    checkNonempty .target (targets.map fun _ => 0)
    let targets ← readIndices (indicesOf targets)
    c.checkQuantum [] targets
    let op ← c.checkOperand op targets.length
    return .gate (jointKind targets.length) op [] targets (c.nameFor op name) 1
  | .gateFan op targets name => do
    -- without targets, every qudit that was not measured is one
    let targets ← match targets with
      | none => pure (c.liveQudits.map Int.ofNat)
      | some targets => readIndices targets.listed
    checkNonempty .target targets
    c.checkQuantum [] targets
    let op ← c.checkOperand op 1
    return .gate .fan op [] targets (c.nameFor op name) targets.length
  | .gateCustom op targets name => do
    let targets ← readIndices targets.listed
    checkNonempty .target targets
    c.checkQuantum [] targets
    let op ← c.checkOperand op targets.length
    return .gate .custom op [] targets (c.nameFor op name) 1
  | .qft => .error (.reserved "qft")
  | .tfq => .error (.reserved "tfq")
  | .ctrl op controls targets name => do
    -- whether one index was given or a list decides the kind, even for a list of one
    let kind := .controlled .quantum controls.extent targets.extent
    let controls ← readIndices controls.indices
    let targets ← readIndices targets.indices
    c.planControlled .quantum kind op controls targets 1 name
  | .ctrlCustom op controls targets name => do
    let controls ← readIndices controls.listed
    let targets ← readIndices targets.listed
    c.planControlled .quantum (.controlledCustom .quantum) op controls targets targets.length name
  | .cctrl op controls targets name => do
    let kind := .controlled .classical controls.extent targets.extent
    let controls ← readIndices controls.indices
    let targets ← readIndices targets.indices
    c.planControlled .classical kind op controls targets 1 name
  | .cctrlCustom op controls targets name => do
    let controls ← readIndices controls.listed
    let targets ← readIndices targets.listed
    c.planControlled .classical (.controlledCustom .classical) op controls targets targets.length
      name
  | .measureZ target dit name => do
    let targets ← readIndices (indicesOf [target])
    let dit ← dit.index.mapError .notIndices
    -- the dit is checked between the range of the target and its mark
    c.checkQudits .target targets
    c.checkDits [dit]
    c.checkLive targets
    return .measurement .standard none targets dit (if name = "" then "Z" else name)
  | .measureV basis targets dit name => do
    let kind := match targets.extent with
      | .single => MeasureKind.basis
      | .multiple => MeasureKind.jointBasis
    let targets ← readIndices targets.indices
    let dit ← dit.index.mapError .notIndices
    checkNonempty .target targets
    c.checkQudits .target targets
    c.checkDits [dit]
    c.checkLive targets
    checkDistinct .target targets
    let basis ← c.checkOperand basis targets.length
    return .measurement kind (some basis) targets dit (c.nameFor basis name)

/-- The number of targets of a call for a joint gate, if there are more than three. -/
def manyTargets? : Call S → Option Nat
  | .gate _ targets _ => if 3 < targets.length then some targets.length else none
  | _ => none

/-- Records a step that was checked. -/
def commit (c : Circuit S) : Entry S → Circuit S
  | .gate kind op controls targets name increment =>
    { c with
      operands := c.operands.insert op
      gates := c.gates ++ [⟨kind, c.operands.keyOf op, controls, targets, name⟩]
      order := c.order ++ [.gate]
      gateCounts := c.gateCounts.add name increment }
  | .measurement kind basis targets dit name =>
    { c with
      -- a measurement of digits has no basis to keep
      operands := match basis with
        | some op => c.operands.insert op
        | none => c.operands
      measurements := c.measurements ++
        [⟨kind, (basis.map c.operands.keyOf).toList, targets, dit, name⟩]
      order := c.order ++ [.measurement]
      measureCounts := c.measureCounts.add name 1
      measured := c.measured ++ targets }

/-- The circuit with the step that a call asks for. -/
def append [Scalar S] (c : Circuit S) (call : Call S) : Except CircuitFault (Circuit S) :=
  match manyTargets? call with
  | some count => .error (.manyTargets count)
  | none =>
    match c.plan call with
    | .ok entry => .ok (c.commit entry)
    | .error cause => .error (.ofFailure (.atStep call.operation c.stepCount cause))

/-- The circuit with the steps that several calls ask for. -/
def appendAll [Scalar S] (c : Circuit S) (calls : List (Call S)) :
    Except CircuitFault (Circuit S) :=
  calls.foldlM append c

/-! ## Events -/

/-- What recording a step has to tell. -/
def commitText (c : Circuit S) : Entry S → String
  | .gate kind _ controls targets name _ =>
    "step " ++ toString c.stepCount ++ ": " ++ kind.name ++ " " ++ Text.quoted name ++
      " controls=" ++ Text.integers controls ++ " targets=" ++ Text.integers targets
  | .measurement kind _ targets dit name =>
    "step " ++ toString c.stepCount ++ ": " ++ kind.name ++ " " ++ Text.quoted name ++
      " targets=" ++ Text.integers targets ++ " -> dit " ++ toString dit

/-- What refusing a call has to tell. -/
def refusalText (c : Circuit S) (operation : String) (cause : Cause) : String :=
  "rejected " ++ operation ++ " at step " ++ toString c.stepCount ++ " of circuit " ++
    Text.quoted c.name ++ ": " ++ cause.message

/-- What a call has to tell. An error without a place is not told of. -/
def events [Scalar S] (c : Circuit S) (call : Call S) : List Event :=
  match manyTargets? call with
  | some _ => []
  | none =>
    match c.plan call with
    | .ok entry => [⟨Event.circuitLogger, c.commitText entry⟩]
    | .error cause =>
      match cause.plain? with
      | some _ => []
      | none => [⟨Event.circuitLogger, c.refusalText call.operation cause⟩]

end Circuit

end QuditSim
