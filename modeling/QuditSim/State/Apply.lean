import QuditSim.State.Basic

/-!
# Operators on positions of a register

`StateVector.apply` lets an operator act on a list of positions, `StateVector.applyControlled`
does so under control, and `StateVector.branches` lets several operators act on one position
side by side. Each is a total function on natural positions (`applyOn`, `applyControlledOn`,
`branchOn`) behind checks of its arguments.

The first position of a list spells the most significant digit of the row index of the
operator. Under control, an operator is raised to the power of the common value of the control
digits, and nothing happens where they differ.
-/

namespace QuditSim

/-- Refuses a position outside of the register. -/
def checkPosition (role : String) (n : Nat) (position : Argument) : Except StateFault Unit :=
  match position.number? with
  | none => .error .wrongKind
  | some x =>
    if x.below 0 || x.atLeast n then .error (.positionRange role position n) else .ok ()

/-- Refuses positions outside of the register and lists that name a position twice. -/
def checkPositions (role : String) (positions : List Argument) (n : Nat) :
    Except StateFault Unit := do
  positions.forM (checkPosition role n)
  if Argument.repeats positions then throw (.positionsRepeat role positions)

/-- The places of positions that were checked. -/
def placesOf (positions : List Argument) : Except StateFault (List Nat) :=
  match Argument.places? positions with
  | some places => .ok places
  | none => .error .wrongKind

/-- The places of the positions in front of the first that names none. -/
def leadingPlaces : List Argument → List Nat
  | [] => []
  | position :: rest =>
    match position.index? with
    | some place => place.toNat :: leadingPlaces rest
    | none => []

/-- The dimension of a register whose qudits were counted. -/
def extentOf (dim : Argument) : Except StateFault Nat :=
  match dim.index? with
  | none => .error .wrongKind
  | some d => if d < 0 then .error .negativeExtent else .ok d.toNat

/-- The power of a dimension. One that is no number has none. -/
def sizeOf (dim : Argument) (count : Nat) : Except StateFault Number :=
  match dim.number? with
  | none => .error .wrongKind
  | some d => .ok (d.power count)

/-- Whether a shape is the square one of the given size. -/
def isSquareOf (size : Number) : List Nat → Bool
  | [rows, columns] => size.sameValue (.int rows) && size.sameValue (.int columns)
  | _ => false

@[simp] theorem placesOf_map_int (xs : List Int) :
    placesOf (xs.map Argument.int) = .ok (xs.map Int.toNat) := by
  simp [placesOf, Argument.places?_map_int]

@[simp] theorem leadingPlaces_map_int (xs : List Int) :
    leadingPlaces (xs.map Argument.int) = xs.map Int.toNat := by
  induction xs with
  | nil => rfl
  | cons x xs ih => rw [List.map_cons, leadingPlaces, Argument.index?_int, ih, List.map_cons]

@[simp] theorem extentOf_nat (d : Nat) : extentOf (.nat d) = .ok d := by
  simp [extentOf, Argument.nat]

@[simp] theorem sizeOf_int (dim : Int) (count : Nat) :
    sizeOf dim count = .ok (.int (dim ^ count)) := rfl

/-- Two extents are those of the square shape of an integer just if both are that integer. -/
theorem isSquareOf_int (size : Int) (rows columns : Nat) :
    isSquareOf (.int size) [rows, columns] = (size == rows && size == columns) := rfl

/-- The exponent of a power: an integer, or a double that is cut down to one. -/
def exponentOf (exponent : Argument) : Except StateFault Nat :=
  match exponent.number? with
  | none => .error .wrongKind
  | some x =>
    if x.below 0 then .error (.negativeExponent exponent)
    else
      match x.truncate?, x with
      | some n, _ => if 2 ^ 63 ≤ n then .error .badExponent else .ok n.toNat
      | none, .float y => .error (if y.isNaN then .badExponent else .overflow)
      | none, .int _ => .error .badExponent

/-- The power of a matrix for checked arguments. -/
def Tensor.power {K : Type} [Zero K] [One K] [Add K] [Mul K] (m : Tensor K)
    (exponent : Argument) : Except StateFault (Tensor K) := do
  if !m.isSquare then throw (.notSquare m.shape)
  return m.pow (← exponentOf exponent)

/-- The number of factors of a Kronecker product, at least one. -/
def factorsOf (n : Argument) : Except StateFault Nat :=
  match n.number?, n.index? with
  | none, _ => .error .wrongKind
  | some x, index =>
    if x.below 1 then .error (.fewFactors n)
    else
      match index with
      | none => .error .wrongKind
      | some count => .ok count.toNat

/-- The Kronecker product of copies of a tensor, at least one. -/
def Tensor.tensorPower {K : Type} [Zero K] [Mul K] (m : Tensor K) (n : Argument) :
    Except StateFault (Tensor K) :=
  (factorsOf n).map fun count => m.kronPow (count - 1)

namespace StateVector

variable {R : Type} [Scalar R]

/-- The state after an operator acted on a list of positions: the amplitude of a basis state
is the sum over the states of the targets before, with the row of the operator that its target
digits spell. -/
def applyOn (d : Nat) (op : Operator R) (targets : List Nat) (state : StateVector R) :
    StateVector R :=
  build state.size fun x =>
    Tensor.inner (op.entry (readDigits d targets x))
      (fun b => state.amplitude (placeDigits d targets b x)) (d ^ targets.length)

/-- The common value of the digits of an index at the control positions, if they agree. -/
def controlValue? (d : Nat) (controls : List Nat) (x : Nat) : Option Nat :=
  match controls with
  | [] => none
  | c :: cs => if cs.all fun c' => digit d c' x == digit d c x then some (digit d c x) else none

/-- The state after an operator acted on a list of positions under control. -/
def applyControlledOn (d : Nat) (op : Operator R) (controls targets : List Nat)
    (state : StateVector R) : StateVector R :=
  -- the powers are made once and not for each amplitude
  let powers : Array (Operator R) := Array.ofFn fun v : Fin d => op.pow v
  build state.size fun x =>
    match controlValue? d controls x with
    -- controls that disagree and controls that are zero leave the amplitude
    | none | some 0 => state.amplitude x
    | some v =>
      Tensor.inner ((powers.getD v op).entry (readDigits d targets x))
        (fun b => state.amplitude (placeDigits d targets b x)) (d ^ targets.length)

/-- The vector that an operator makes of a state when it acts on one position: the digit there
is taken out, summed over and put back. -/
def branchOn (d : Nat) (op : Operator R) (position : Nat) (state : StateVector R) :
    StateVector R :=
  build state.size fun x =>
    Tensor.inner (op.entry (digit d position x))
      (fun b => state.amplitude (insertDigit d position b (removeDigit d position x))) d

/-- Refuses an operator that is not square of the size that a number of targets needs. -/
def checkOperator (op : Operator R) (count : Nat) (dim : Argument) : Except StateFault Unit := do
  let size ← sizeOf dim count
  if !isSquareOf size op.shape then throw (.operatorShape size op.shape)

/-- Lets an operator act on a list of positions. -/
def apply (checking : Bool) (state : StateVector R) (op : Operator R) (targets : List Argument)
    (dim : Argument) : Except StateFault (StateVector R) := do
  let n ← quditCount state.size dim
  if targets.isEmpty then throw .noTargets
  checkPositions "target" targets n
  checkOperator op targets.length dim
  let d ← extentOf dim
  let targets ← placesOf targets
  (applyOn d op targets state).checked checking

/-- Lets an operator act on a list of positions under control of others. Without controls it
acts unconditionally. -/
def applyControlled (checking : Bool) (state : StateVector R) (op : Operator R)
    (controls targets : List Argument) (dim : Argument) : Except StateFault (StateVector R) := do
  -- without controls the targets are checked in the order of a plain gate
  if controls.isEmpty then return ← state.apply checking op targets dim
  let n ← quditCount state.size dim
  if targets.isEmpty then throw .noTargets
  checkPositions "control" controls n
  checkPositions "target" targets n
  if Argument.meets controls targets then throw (.overlap controls targets)
  checkOperator op targets.length dim
  let d ← extentOf dim
  let controls ← placesOf controls
  let targets ← placesOf targets
  (applyControlledOn d op controls targets state).checked checking

/-- The vectors that several operators make of a state when each acts on one position. Their
squared lengths are the weights of the branches. -/
def branches (state : StateVector R) (ops : List (Operator R)) (position dim : Argument) :
    Except StateFault (List (StateVector R)) := do
  let n ← quditCount state.size dim
  checkPosition "target" n position
  let d ← extentOf dim
  let places ← placesOf [position]
  ops.mapM fun op =>
    if isSquareOf (.int d) op.shape then .ok (branchOn d op (places.headD 0) state)
    else .error (.branchShape dim op.shape)

end StateVector

end QuditSim
