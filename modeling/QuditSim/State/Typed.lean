import QuditSim.State.Measure
import QuditSim.Tensor.Precision

/-!
# Tensors as states

States and operators arrive as tensors of any element type. `TypedTensor.state?` takes the
state of a register from one: it has to be a vector with complex entries, and its precision is
kept. `TypedTensor.power`, `TypedTensor.tensorPower` and `TypedTensor.norms` keep the element
type, or the precision where it is no longer complex.
-/

namespace QuditSim

/-- A state in one of the two precisions. -/
inductive TypedState where
  /-- Single precision. -/
  | single (state : StateVector Float32)
  /-- Double precision. -/
  | double (state : StateVector Float)

/-- A function of a state that is given for every precision. -/
def TypedState.elim {α : Type} (state : TypedState)
    (f : {R : Type} → [Scalar R] → [Precision R] → StateVector R → α) : α :=
  match state with
  | .single state => f state
  | .double state => f state

namespace TypedTensor

/-- The state that a tensor holds. -/
def state? (t : TypedTensor) : Except StateFault TypedState :=
  if t.shape.length ≠ 1 then .error (.notVector t.shape)
  else
    match t with
    | complex64 t => .ok (.single t.entries)
    | complex128 t => .ok (.double t.entries)
    | t => .error (.notComplex t.elementType)

/-- The power of a matrix of any element type. Truth values have no products, so their powers
end with the first. -/
def power (t : TypedTensor) (exponent : Argument) : Except StateFault TypedTensor :=
  match t with
  | bool m => do
    if !m.isSquare then throw (.notSquare m.shape)
    match ← exponentOf exponent with
    | 0 => return truths (.identity m.rows)
    | 1 => return t
    | _ => if m.rows = 0 then return t else throw .noProduct
  | int32 m => (m.power exponent).map int32
  | int64 m => (m.power exponent).map int64
  | float32 m => (m.power exponent).map float32
  | float64 m => (m.power exponent).map float64
  | complex64 m => (m.power exponent).map complex64
  | complex128 m => (m.power exponent).map complex128

/-- The Kronecker product of copies of a tensor of any element type. -/
def tensorPower (t : TypedTensor) (n : Argument) : Except StateFault TypedTensor :=
  match t with
  | bool _ => (t.toInt32.tensorPower n).map truths
  | int32 m => (m.tensorPower n).map int32
  | int64 m => (m.tensorPower n).map int64
  | float32 m => (m.tensorPower n).map float32
  | float64 m => (m.tensorPower n).map float64
  | complex64 m => (m.tensorPower n).map complex64
  | complex128 m => (m.tensorPower n).map complex128

/-- The roots, in single precision, of the sums over the last index of words. -/
def rootSums (squares : Tensor Int64) : Except StateFault TypedTensor :=
  match squares.shape with
  | [] => .error .noIndex
  | shape =>
    let width := shape.getLast?.getD 0
    .ok (float32 (.ofFn shape.dropLast fun i =>
      Float32.sqrt (Float32.ofInt (sumTo (fun j => squares.get (i * width + j)) width).toInt)))

/-- The most indices of a tensor whose norms can be taken. -/
def normRankLimit : Nat := 64

/-- The norms over the last index: in double precision where the entries are, and in single
precision otherwise. Words are squared and summed as words. -/
def norms (t : TypedTensor) : Except StateFault TypedTensor := do
  if normRankLimit < t.shape.length then throw .manyIndices
  match t with
  | float64 _ | complex128 _ => (Tensor.norms t.toDouble).map float64
  | float32 _ | complex64 _ => (Tensor.norms t.toSingle).map float32
  | int32 m => rootSums (m.map fun n => (n * n).toInt64)
  | int64 m => rootSums (m.map fun n => n * n)
  | bool _ => rootSums t.toInt64

/-- Refuses a tensor of states whose norms are not one up to a tolerance. -/
def assertNormalized (tolerance : Argument) (t : TypedTensor) : Except StateFault Unit := do
  let norms ← t.norms
  checkFinite norms.toFloat64
  let value ← (toleranceOf tolerance).mapError .badTolerance
  match norms with
  | float32 norms => checkUnit ⟨value.toFloat32, tolerance.text⟩ norms
  | norms => checkUnit ⟨value, tolerance.text⟩ norms.toFloat64

/-- The weights of the entries of a tensor, which have to be complex. -/
def weights (t : TypedTensor) : Except StateFault TypedTensor :=
  match t with
  | complex64 t => .ok (float32 t.weights)
  | complex128 t => .ok (float64 t.weights)
  | t => .error (.notComplex t.elementType)

end TypedTensor

end QuditSim
