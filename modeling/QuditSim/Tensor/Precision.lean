import QuditSim.Tensor.Typed

/-!
# Precisions

States are kept in single or in double precision. A `Precision` is a scalar type with the
element type of its states, and it tells how a tensor of any element type, or a double, is
taken into it.
-/

namespace QuditSim

/-- A scalar type that states are kept in. -/
class Precision (R : Type) extends Rounding Float R where
  /-- The double of a number. -/
  widen : R → Float
  /-- The element type of states. -/
  elementType : ElementType
  /-- The operator with the entries of a tensor. -/
  operator : TypedTensor → Operator R
  /-- How many places are shown of a number. -/
  places : Nat

/-- Double precision, of which nine places are shown. -/
instance : Precision Float where
  round := id
  widen := id
  elementType := .complex128
  operator := TypedTensor.toDouble
  places := 9

/-- Single precision, of which three places are shown. -/
instance : Precision Float32 where
  round := Float.toFloat32
  widen := Float32.toFloat
  elementType := .complex64
  operator := TypedTensor.toSingle
  places := 3

/-- A number in which a state is kept is carried into double precision. -/
instance {R : Type} [Precision R] : Rounding R Float := ⟨Precision.widen⟩

end QuditSim
