import QuditSim.Circuit.Step
import QuditSim.Json.Basic
import QuditSim.Text.Integer

/-!
# Located failures

What can go wrong while a circuit is built, walked or run, and where it did. A `Failure` is a
`Cause` with the operation that failed and the step at which it did, as they were given;
`Failure.message` is the text that names all three. Causes fall into families (`Cause.family`),
and a family belongs to broader kinds of failure (`Family.broader`).

Some causes never get a place. An argument that raises an error of its own while it is read is not
looked into, and a text that would write an integer of too many digits is not made: `Cause.plain?`
says what is seen instead.
-/

namespace QuditSim

/-- The broader kinds of failure that a family can belong to. -/
inductive Broad where
  /-- An argument has a value that is not allowed. -/
  | value
  /-- Something failed while running. -/
  | runtime
  /-- Something is not there yet. -/
  | notImplemented
deriving DecidableEq, Repr

/-- The families of located failures. -/
inductive Family where
  /-- No family in particular. -/
  | general
  /-- A qudit or a dit is out of range or used in two roles. -/
  | invalidIndex
  /-- A list names an index twice. -/
  | duplicateIndex
  /-- A list that needs an item has none. -/
  | emptyTargetSet
  /-- A measured qudit is referred to again. -/
  | alreadyMeasured
  /-- An operator has not the shape that its action needs. -/
  | shapeMismatch
  /-- Two different operators have one key. -/
  | integrityViolation
  /-- The operation is reserved. -/
  | unsupportedOperation
  /-- A cursor stands where it cannot be moved or read. -/
  | invalidCursor
  /-- A step of one circuit was handed to the engine of another. -/
  | boundMismatch
deriving DecidableEq, Repr

/-- The broader kinds that the failures of a family belong to. -/
def Family.broader : Family → List Broad
  | general => []
  | invalidIndex | duplicateIndex | emptyTargetSet | alreadyMeasured | shapeMismatch
  | boundMismatch => [.value]
  | integrityViolation | invalidCursor => [.runtime]
  | unsupportedOperation => [.runtime, .notImplemented]

/-- The part that an index plays in a step. -/
inductive Role where
  /-- It controls the gate. -/
  | control
  /-- It is acted on. -/
  | target
  /-- It names a dit. -/
  | dit
deriving DecidableEq, Repr

/-- The word for a role. -/
def Role.word : Role → String
  | control => "control"
  | target => "target"
  | dit => "dit"

/-- The error that a value raises while it is read as an index or as an operator. -/
inductive ReadingError where
  /-- The value is of a wrong type, with the text of the error. -/
  | wrongType (text : String)
  /-- Any other error, by the name of its kind. -/
  | other (kind : String)
deriving DecidableEq, Repr

/-- The text that an error is quoted with. Errors of other kinds are not quoted. -/
def ReadingError.message : ReadingError → String
  | wrongType text => text
  | other kind => kind

/-- Why an argument does not write indices. The kind of the offending value is named. -/
inductive IndexFault where
  /-- The argument is not a list. -/
  | notList (kind : String)
  /-- An item of the list is not an integer. -/
  | notInteger (kind : String)
  /-- The argument or an item of it raises an error of its own. -/
  | raised (error : ReadingError)
deriving DecidableEq, Repr

/-- The text of a fault in an index argument. -/
def IndexFault.message : IndexFault → String
  | notList kind => "'" ++ kind ++ "' object is not iterable"
  | notInteger kind => "'" ++ kind ++ "' object cannot be interpreted as an integer"
  | raised error => error.message

/-- Why a cursor can be neither moved nor read. -/
inductive CursorFault where
  /-- It walks over no circuit. -/
  | unattached
  /-- Its circuit has no steps. -/
  | emptyCircuit
  /-- It stands past the last step. -/
  | pastEnd
deriving DecidableEq, Repr

/-- An error that is seen without a place. -/
inductive PlainFault where
  /-- An error that an argument raised, by the name of its kind. -/
  | raised (kind : String)
  /-- An integer of more digits than are written in a text. -/
  | manyDigits
deriving DecidableEq, Repr

/-- The error of a text with integers in it, if one of them has too many digits. -/
def PlainFault.ofIntegers (integers : List Int) : Option PlainFault :=
  if integers.all Text.isWritable then none else some manyDigits

/-- The error itself, if it is passed on. -/
def ReadingError.plain? : ReadingError → Option PlainFault
  | wrongType _ => none
  | other kind => some (.raised kind)

/-- The error that is passed on for a fault in an index argument, if there is one. -/
def IndexFault.plain? : IndexFault → Option PlainFault
  | notList _ | notInteger _ => none
  | raised error => error.plain?

/-- What went wrong. -/
inductive Cause where
  /-- A register has too few qudits. -/
  | fewQudits (given : Argument)
  /-- A register has fewer than no dits. -/
  | fewDits (given : Argument)
  /-- The dimension is too small. -/
  | smallDimension (given : Argument)
  /-- An argument does not write indices. -/
  | notIndices (fault : IndexFault)
  /-- A list that needs an item has none. -/
  | emptyList (role : Role)
  /-- A qudit that is not there, with its role where it has one. -/
  | quditRange (role : Option Role) (index : Argument) (bound : Nat)
  /-- A dit that is not there. -/
  | ditRange (index : Argument) (bound : Nat)
  /-- A qudit that was measured before. -/
  | measured (index : Argument)
  /-- A list that names an index twice. -/
  | repeated (role : Role) (indices : List Int)
  /-- Qudits that are both control and target. -/
  | shared (indices : List Int)
  /-- A value that writes no operator, by the name of its kind. -/
  | notOperator (kind : String)
  /-- A value that raises an error of its own where it is read as an operator. -/
  | unreadable (error : ReadingError)
  /-- An operator that is not a square matrix. -/
  | notSquare (shape : List Nat)
  /-- An operator of the wrong size for the number of qudits that it acts on. -/
  | wrongSize (acted dim : Nat) (shape : List Nat)
  /-- A key that belongs to a different operator, whose shape is given. -/
  | keyTaken (key : Int) (shape : List Nat)
  /-- Something that is reserved. -/
  | reserved (what : String)
  /-- A cursor that cannot be moved. -/
  | noAdvance (fault : CursorFault)
  /-- A cursor that cannot be read. -/
  | noDeref (fault : CursorFault)
  /-- A cursor over another circuit. -/
  | foreignCursor
  /-- A step of another circuit. -/
  | foreignStep
  /-- A sort of step that has no action. -/
  | noAction (kind : StepKind)
  /-- A noise model for qudits of another dimension. -/
  | noiseDimension (noise : Argument) (circuit : Nat)
  /-- A failure described from outside. -/
  | described (family : Family) (text : String)

namespace Cause

/-- The family that a cause belongs to. -/
def family : Cause → Family
  | fewQudits _ | fewDits _ | notIndices _ | quditRange .. | ditRange .. | shared _ => .invalidIndex
  | smallDimension _ | notOperator _ | unreadable _ | notSquare _ | wrongSize ..
  | noiseDimension .. => .shapeMismatch
  | emptyList _ => .emptyTargetSet
  | measured _ => .alreadyMeasured
  | repeated .. => .duplicateIndex
  | keyTaken .. => .integrityViolation
  | reserved _ => .unsupportedOperation
  | noAdvance _ | noDeref _ | noAction _ => .invalidCursor
  | foreignCursor | foreignStep => .boundMismatch
  | described family _ => family

/-- The half-open range of indices below a bound. -/
def rangeText (bound : Nat) : String := "[0, " ++ toString bound ++ ")"

/-- A key in hexadecimal digits, with a mark in front and the sign before the mark. -/
def keyText (key : Int) : String :=
  (if key < 0 then "-0x" else "0x") ++ Text.hexadecimal key.natAbs 1

/-- The text of a cause. -/
def message : Cause → String
  | fewQudits given => "n_qudits must be >= 1, got " ++ given.text
  | fewDits given => "n_dits must be >= 0, got " ++ given.text
  | smallDimension given => "dim must be >= 2, got " ++ given.text
  | notIndices fault => "indices must be integers: " ++ fault.message
  | emptyList role => role.word ++ " list is empty"
  | quditRange role index bound =>
    (match role with
      | some role => role.word ++ " "
      | none => "") ++
      "qudit " ++ index.text ++ " out of range " ++ rangeText bound
  | ditRange index bound => "dit " ++ index.text ++ " out of range " ++ rangeText bound
  | measured index => "qudit " ++ index.text ++ " was already measured"
  | repeated role indices =>
    role.word ++ " list " ++ Text.integers indices ++ " contains duplicates"
  | shared indices => "qudits " ++ Text.integers indices ++ " used as both control and target"
  | notOperator kind => "cannot convert " ++ kind ++ " to an operator"
  | unreadable error => error.message
  | notSquare shape => "operator must be a square matrix, got shape " ++ Text.shape shape
  | wrongSize acted dim shape =>
    let size := toString (dim ^ acted)
    "operator acting on " ++ toString acted ++ " qudit(s) of dimension " ++ toString dim ++
      " must be " ++ size ++ "x" ++ size ++ ", got " ++ Text.shape shape
  | keyTaken key shape =>
    "operand hash collision: key " ++ keyText key ++
      " already maps to a different matrix of shape " ++ Text.shape shape
  | reserved what => what ++ " is not implemented"
  | noAdvance .unattached => "cannot advance an unattached iterator"
  | noAdvance .emptyCircuit => "cannot advance over an empty circuit"
  | noAdvance .pastEnd => "cannot advance past the end"
  | noDeref .unattached => "cannot dereference an unattached iterator"
  | noDeref _ => "cannot dereference past the end"
  | foreignCursor => "iterator belongs to a different circuit"
  | foreignStep => "step belongs to a different circuit"
  | noAction kind => "cannot execute a step of kind " ++ kind.name
  | noiseDimension noise circuit =>
    "noise dimension " ++ noise.text ++ " does not match circuit dimension " ++
      toString circuit
  | described _ text => text

/-- The integers in the text of a cause that can be of any size. The extents of an operator cannot,
and keys are not written with decimal digits. -/
def integers : Cause → List Int
  | fewQudits given | fewDits given | smallDimension given => given.index?.toList
  | quditRange _ index bound | ditRange index bound => index.index?.toList ++ [(bound : Int)]
  | measured index => index.index?.toList
  | repeated _ indices | shared indices => indices
  | wrongSize acted dim _ => [(acted : Int), (dim : Int), ((dim ^ acted : Nat) : Int)]
  | noiseDimension noise circuit => noise.index?.toList ++ [(circuit : Int)]
  | _ => []

/-- The error that is seen instead of a failure for a cause: the one that an argument raised, or that
of a text that is not made. -/
def plain? : Cause → Option PlainFault
  | notIndices fault => fault.plain?
  | unreadable error => error.plain?
  | cause => PlainFault.ofIntegers cause.integers

end Cause

/-- A cause with the place where it arose. -/
structure Failure where
  /-- What went wrong. -/
  cause : Cause
  /-- The operation that failed. -/
  operation : Option Json
  /-- The step at which it failed. -/
  step : Option Json

namespace Failure

/-- The family of the cause. -/
def family (failure : Failure) : Family := failure.cause.family

/-- The text of a failure: the step in front, the operation behind. -/
def message (failure : Failure) : String :=
  (match failure.step with
    | some step => "At step " ++ step.plain ++ ": "
    | none => "") ++
    failure.cause.message ++
    match failure.operation with
    | some operation => " [" ++ operation.plain ++ "]"
    | none => ""

/-- A failure of an operation outside of any step. -/
def inOperation (operation : String) (cause : Cause) : Failure :=
  ⟨cause, some (.string operation), none⟩

/-- A failure of an operation at a step. -/
def atStep (operation : String) (step : Int) (cause : Cause) : Failure :=
  ⟨cause, some (.string operation), some (.int step)⟩

@[simp] theorem cause_inOperation (operation : String) (cause : Cause) :
    (inOperation operation cause).cause = cause := rfl

@[simp] theorem cause_atStep (operation : String) (step : Int) (cause : Cause) :
    (atStep operation step cause).cause = cause := rfl

end Failure

end QuditSim
