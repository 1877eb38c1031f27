import QuditSim.Gate.Unitary
import QuditSim.Tensor.Nested

/-!
# Faults of state vectors

What the operations on state vectors refuse: a vector whose length is no power of the
dimension, a position outside of the register, an operator of the wrong shape, weights that
are no distribution, a state that is not normalized.
-/

namespace QuditSim

/-- What an operation on state vectors refuses. -/
inductive StateFault where
  /-- An argument of a kind that it cannot be. -/
  | wrongKind
  /-- A register of fewer than no qudits. -/
  | fewQudits (given : Argument)
  /-- A dimension below two. -/
  | smallDimension (given : Argument)
  /-- A register with more basis states than indices can number. -/
  | unindexable
  /-- A register with more amplitudes than can be held. -/
  | tooLarge
  /-- A tensor that is no vector, by its shape. -/
  | notVector (shape : List Nat)
  /-- A tensor without complex entries. -/
  | notComplex (type : ElementType)
  /-- A length that is no power of the dimension. -/
  | notPower (size : Nat) (dim : Argument)
  /-- A length that no power of the dimension ever reaches. -/
  | endless
  /-- A position outside of the register, with the word for its role. -/
  | positionRange (role : String) (position : Argument) (bound : Nat)
  /-- A list that names a position twice, with the word for its role. -/
  | positionsRepeat (role : String) (positions : List Argument)
  /-- A list of targets without any. -/
  | noTargets
  /-- Controls and targets that share a position. -/
  | overlap (controls targets : List Argument)
  /-- An operator of another shape than the square one of the given size. -/
  | operatorShape (size : Number) (shape : List Nat)
  /-- A branch operator of another shape than the square one of the dimension. -/
  | branchShape (dim : Argument) (shape : List Nat)
  /-- A basis with another number of rows. -/
  | basisShape (rows : Number) (shape : List Nat)
  /-- A register that would have a negative extent. -/
  | negativeExtent
  /-- A power of an operator that is not square. -/
  | notSquare (shape : List Nat)
  /-- A negative power. -/
  | negativeExponent (given : Argument)
  /-- An exponent that is not a number, or that no word of 64 bits holds. -/
  | badExponent
  /-- A number that is too large for what it should become. -/
  | overflow
  /-- Truth values have no products of matrices. -/
  | noProduct
  /-- Fewer than one factor. -/
  | fewFactors (given : Argument)
  /-- No weights at all. -/
  | noWeights
  /-- Weights that are negative or not finite. -/
  | badWeights (weights : List Float)
  /-- Weights that are all zero. -/
  | zeroWeights
  /-- A tensor without an index to take norms over. -/
  | noIndex
  /-- A tensor with more indices than norms can be taken under. -/
  | manyIndices
  /-- A norm that is not finite. -/
  | normNotFinite
  /-- A tolerance that cannot be compared with. -/
  | badTolerance (fault : ToleranceFault)
  /-- Norms that differ from one by more than a tolerance. -/
  | notNormalized (tolerance : String) (norms : Tensor Float)

namespace StateFault

/-- The text of a shape that a square operator should have. -/
def squareText (size : String) : String := "(" ++ size ++ ", " ++ size ++ ")"

/-- The text of a fault, for those that have one. -/
def message? : StateFault → Option String
  | fewQudits given => some ("n_qudits must be >= 0, got " ++ given.text)
  | smallDimension given => some ("dim must be >= 2, got " ++ given.text)
  | notVector shape => some ("state must be a 1-D tensor, got shape " ++ Text.shape shape)
  | notComplex type => some ("state must be complex dtype, got " ++ type.qualified)
  | notPower size dim =>
    some ("state length " ++ toString size ++ " is not a power of dim=" ++ dim.text)
  | positionRange role position bound =>
    some (role ++ " position " ++ position.text ++ " out of range [0, " ++ toString bound ++ ")")
  | positionsRepeat role positions =>
    some (role ++ " positions " ++ Argument.listed positions ++ " contain duplicates")
  | noTargets => some "targets must be non-empty"
  | overlap controls targets =>
    some ("control positions " ++ Argument.listed controls ++ " overlap target positions " ++
      Argument.listed targets)
  | operatorShape size shape =>
    some ("op must have shape " ++ squareText size.text ++ ", got " ++ Text.shape shape)
  | branchShape dim shape =>
    some ("Kraus operator must have shape " ++ squareText dim.text ++ ", got " ++
      Text.shape shape)
  | basisShape rows shape =>
    some ("basis must have " ++ rows.text ++ " rows, got shape " ++ Text.shape shape)
  | notSquare shape => some ("op must be a square matrix, got shape " ++ Text.shape shape)
  | negativeExponent given => some ("exponent must be >= 0, got " ++ given.text)
  | fewFactors given => some ("n must be >= 1, got " ++ given.text)
  | noWeights => some "cannot sample from an empty distribution"
  | badWeights weights =>
    some ("weights must be finite and non-negative, got " ++
      Text.listed (weights.map Decimal.shortest))
  | zeroWeights => some "cannot sample from an all-zero distribution"
  | noIndex => some "state_norm expects a tensor with at least 1 dimension."
  | normNotFinite => some "State norm contains non-finite values."
  | notNormalized tolerance norms =>
    some ("State is not normalized within tolerance " ++ tolerance ++ ". Norms found: " ++
      norms.listed Decimal.shortest)
  | wrongKind | unindexable | tooLarge | endless | negativeExtent | badExponent
  | overflow | noProduct | manyIndices | badTolerance _ => none

end StateFault

end QuditSim
