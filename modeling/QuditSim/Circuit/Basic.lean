import QuditSim.Circuit.Index
import QuditSim.Circuit.Operand
import QuditSim.Circuit.Tally
import QuditSim.Extent
import QuditSim.Gate.Library

/-!
# Circuits

A circuit is an ordered log of gates and measurements over a register of qudits and a register
of classical dits. Gates and measurements are kept in lists of their own, and `order` tells
which list each step comes from. Operators are kept in a table, and steps refer to them by
their keys. A qudit that was measured is not used again.

`Circuit.create?` makes a circuit without steps; steps are appended in `Circuit.Build`.
-/

namespace QuditSim

/-- What can go wrong with a circuit. -/
inductive CircuitFault where
  /-- A failure with its place. -/
  | located (failure : Failure)
  /-- An error without one. -/
  | plain (fault : PlainFault)
  /-- A gate on more qudits than three. -/
  | manyTargets (count : Nat)
  /-- A name that no step is counted under. -/
  | unusedName
  /-- A key that no operator is stored under. -/
  | unusedKey
  /-- An argument of a kind that it cannot be. -/
  | wrongKind
  /-- An extent that is not a number. -/
  | notNumber
  /-- An extent that is infinite. -/
  | infinite
  /-- A register or a gate that cannot be held. -/
  | extent (fault : ExtentFault)

/-- The text of a fault, for those that have one. -/
def CircuitFault.message? : CircuitFault → Option String
  | located failure => some failure.message
  | manyTargets count =>
    some ("gate() takes 1 to 3 target qudits, got " ++ toString count ++
      "; use gate_custom() for more")
  | plain _ | unusedName | unusedKey | wrongKind | notNumber | infinite | extent _ => none

/-- What is seen of a failure. -/
def CircuitFault.ofFailure (failure : Failure) : CircuitFault :=
  match failure.cause.plain? with
  | some fault => plain fault
  | none => located failure

/-- A log of gates and measurements over a register. -/
structure Circuit (S : Type) where
  /-- The number that tells this circuit from others. -/
  serial : Nat
  /-- The number of qudits. -/
  qudits : Nat
  /-- The number of dits. -/
  dits : Nat
  /-- The dimension of the qudits. -/
  dim : Nat
  /-- The name in reports. -/
  name : String
  /-- The source of the names of operators. -/
  namer : Operator S → String
  /-- The operators of the steps. -/
  operands : OperandTable S
  /-- The gates in order. -/
  gates : List GateStep
  /-- The measurements in order. -/
  measurements : List MeasureStep
  /-- Which list each step comes from. -/
  order : List StepKind
  /-- The gates counted by name. -/
  gateCounts : Tally
  /-- The measurements counted by name. -/
  measureCounts : Tally
  /-- The measured qudits in the order of their measurement. -/
  measured : List Int

namespace Circuit

variable {S : Type}

/-- A circuit without steps. -/
def empty (serial qudits dits dim : Nat) (name : String) (namer : Operator S → String)
    (keyOf : Operator S → Int) : Circuit S where
  serial := serial
  qudits := qudits
  dits := dits
  dim := dim
  name := name
  namer := namer
  operands := .empty keyOf
  gates := []
  measurements := []
  order := []
  gateCounts := []
  measureCounts := []
  measured := []

/-- The operation that a circuit is made by, as failures name it. -/
def creation : String := "QuditCircuit"

/-- The number of an extent, refused below a bound. -/
def extentNumber (given : Argument) (bound : Int) (cause : Argument → Cause) :
    Except CircuitFault Number :=
  match given.number? with
  | none => .error .wrongKind
  | some x => if x.below bound then .error (.ofFailure (.inOperation creation (cause given))) else .ok x

/-- The whole part of an extent, if it has one. -/
def wholeExtent (given : Number) : Except CircuitFault Nat :=
  match given.truncate? with
  | some n => .ok n.toNat
  | none =>
    match given with
    | .float x => .error (if x.isNaN then .notNumber else .infinite)
    | .int _ => .error .notNumber

/-- A circuit without steps, for extents that are checked and cut down to whole numbers. The
source of names is made for the dimension. -/
def create? [Capacity] (serial : Nat) (qudits dits dim : Argument) (name : String)
    (namerFor : Nat → Except ExtentFault (Operator S → String)) (keyOf : Operator S → Int) :
    Except CircuitFault (Circuit S) := do
  let qudits ← extentNumber qudits 1 .fewQudits
  let dits ← extentNumber dits 0 .fewDits
  let dim ← extentNumber dim 2 .smallDimension
  let qudits ← wholeExtent qudits
  let dits ← wholeExtent dits
  let dim ← wholeExtent dim
  let namer ← (namerFor dim).mapError .extent
  (checkListExtent Capacity.flags qudits).mapError .extent
  return empty serial qudits dits dim name namer keyOf

/-- The usual source of names for a dimension. -/
def standardNamer [Capacity] [Angles S] (dim : Nat) : Except ExtentFault (Operator S → String) := do
  checkMatrixExtent dim
  let library : GateLibrary String S := .standard dim GateLibrary.standardTolerance
  return library.nameOf

/-- The number of steps. -/
def stepCount (c : Circuit S) : Nat := c.order.length

/-- Whether a qudit was measured. -/
def isMeasured (c : Circuit S) (q : Int) : Bool := c.measured.contains q

/-- The measured qudits in ascending order. -/
def measuredQudits (c : Circuit S) : List Nat :=
  if c.measured.isEmpty then [] else (List.range c.qudits).filter fun q => c.isMeasured q

/-- The qudits that were not measured, in ascending order. -/
def liveQudits (c : Circuit S) : List Nat :=
  (List.range c.qudits).filter fun q => !c.isMeasured q

/-- Whether a qudit was measured, refused for one that is not there. -/
def isMeasured? (c : Circuit S) (q : Argument) : Except CircuitFault Bool :=
  match q.number? with
  | none => .error .wrongKind
  | some x =>
    if x.below 0 || x.atLeast c.qudits then
      .error (.ofFailure (.inOperation "get_measured" (.quditRange none q c.qudits)))
    else
      match q.index? with
      | some i => .ok (c.isMeasured i)
      | none => .error .wrongKind

/-- The number of gate applications: of all, or of those under one name. -/
def gateCount (c : Circuit S) (name : Option String) : Except CircuitFault Nat :=
  match name with
  | none => .ok c.gateCounts.total
  | some name =>
    match c.gateCounts.count? name with
    | some n => .ok n
    | none => .error .unusedName

/-- The number of measurements: of all, or of those under one name. -/
def measurementCount (c : Circuit S) (name : Option String) : Except CircuitFault Nat :=
  match name with
  | none => .ok c.measureCounts.total
  | some name =>
    match c.measureCounts.count? name with
    | some n => .ok n
    | none => .error .unusedName

/-- The depth of the circuit, which is reserved. -/
def gateDepth (_ : Circuit S) : Except CircuitFault Nat :=
  .error (.located (.inOperation "gate_depth" (.reserved "gate depth")))

/-- The operator under a key. -/
def operand (c : Circuit S) (key : Int) : Except CircuitFault (Operator S) :=
  match c.operands.get? key with
  | some op => .ok op
  | none => .error .unusedKey

/-- The text that shows the circuit on one line. -/
def shown (c : Circuit S) : String :=
  "QuditCircuit(n_qudits=" ++ toString c.qudits ++ ", n_dits=" ++ toString c.dits ++ ", dim=" ++
    toString c.dim ++ ", name=" ++ Text.quoted c.name ++ ", steps=" ++ toString c.stepCount ++ ")"

end Circuit

end QuditSim
