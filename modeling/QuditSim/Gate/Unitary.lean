import QuditSim.Gate.Standard

/-!
# Unitarity

`TypedTensor.isUnitary` decides whether the adjoint of a matrix is its inverse up to a
tolerance in each entry. What is no square matrix is not unitary.

Integers are multiplied as words, and compared with the identity in single precision.
-/

namespace QuditSim

/-- Why a comparison up to a tolerance was not made. -/
inductive ToleranceFault where
  /-- The tolerance is negative or not a number. -/
  | negative
  /-- The tolerance is no number at all. -/
  | wrongKind
  /-- The tolerance is an integer larger than every double. -/
  | overflow
  /-- Truth values have no products. -/
  | noProduct
deriving DecidableEq, Repr

/-- The double of a tolerance that can be compared with. -/
def toleranceOf (given : Argument) : Except ToleranceFault Float :=
  match given.number? with
  | none => .error .wrongKind
  | some (.int n) =>
    if (Float.ofInt n).isInf then .error .overflow
    else if n < 0 then .error .negative
    else .ok (Float.ofInt n)
  | some (.float x) => if 0 ≤ x then .ok x else .error .negative

/-- Whether the entries of a square matrix are those of a unitary one up to a tolerance. -/
def Operator.isUnitaryWithin {R : Type} [Scalar R] (tolerance : R) (m : Operator R) : Bool :=
  Tensor.near (fun z w => (z - w).modulus) tolerance (m.adjoint * m) (.identity m.columns)

/-- Whether the entries of a square matrix of words are those of an orthogonal one up to a
tolerance. -/
def Tensor.isOrthogonalWithin {K : Type} [Zero K] [One K] [Add K] [Mul K] [BEq K]
    (single : K → Float32) (tolerance : Float32) (m : Tensor K) : Bool :=
  Tensor.near (fun x y => (single x - single y).abs) tolerance (m.transpose * m)
    (.identity m.columns)

/-- Whether a matrix of any element type is unitary up to a tolerance. -/
def TypedTensor.isUnitary (tolerance : Argument) (t : TypedTensor) :
    Except ToleranceFault Bool :=
  match t.shape with
  | [rows, columns] =>
    if rows ≠ columns then .ok false
    -- truth values have no product, unless there is nothing to multiply
    else if t.elementType = .bool ∧ rows ≠ 0 then .error .noProduct
    else do
      let tolerance ← toleranceOf tolerance
      return match t with
        -- words are multiplied as words, and only the result is compared in single precision
        | .int32 m =>
          m.isOrthogonalWithin (fun n => Float32.ofInt n.toInt) tolerance.toFloat32
        | .int64 m =>
          m.isOrthogonalWithin (fun n => Float32.ofInt n.toInt) tolerance.toFloat32
        | .float32 _ | .complex64 _ => t.toSingle.isUnitaryWithin tolerance.toFloat32
        | t => t.toDouble.isUnitaryWithin tolerance
  | _ => .ok false

end QuditSim
