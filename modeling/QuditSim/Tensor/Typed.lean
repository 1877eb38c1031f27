import QuditSim.Argument
import QuditSim.Tensor.Basic

/-!
# Tensors with an element type

Operators and states arrive with entries of one of seven element types. A `TypedTensor` is a
tensor of any of them, and `TypedTensor.toDouble` is the operator it stands for.

The arithmetic of an element type is its own: integers wrap around at the width of their words,
and single precision is rounded to single precision after every operation.
-/

namespace QuditSim

/-- The type of the entries of a tensor. -/
inductive ElementType where
  /-- Truth values. -/
  | bool
  /-- Integers of 32 bits. -/
  | int32
  /-- Integers of 64 bits. -/
  | int64
  /-- Single precision. -/
  | float32
  /-- Double precision. -/
  | float64
  /-- Complex numbers in single precision. -/
  | complex64
  /-- Complex numbers in double precision. -/
  | complex128
deriving DecidableEq, Repr

namespace ElementType

/-- The name of an element type. -/
def name : ElementType → String
  | bool => "bool"
  | int32 => "int32"
  | int64 => "int64"
  | float32 => "float32"
  | float64 => "float64"
  | complex64 => "complex64"
  | complex128 => "complex128"

/-- All element types, from the narrowest to the widest. -/
def all : List ElementType := [bool, int32, int64, float32, float64, complex64, complex128]

/-- The element type of a name. -/
def ofName? (text : String) : Option ElementType := all.find? (·.name == text)

/-- The name of an element type in a message. -/
def qualified (type : ElementType) : String := "torch." ++ type.name

/-- Whether the entries are complex numbers. -/
def isComplex : ElementType → Bool
  | complex64 | complex128 => true
  | _ => false

/-- The narrowest type that holds the entries of both. -/
def join (a b : ElementType) : ElementType :=
  match a, b with
  | complex64, float64 | float64, complex64 => complex128
  | a, b => if a.ctorIdx ≤ b.ctorIdx then b else a

end ElementType

/-- A tensor of any element type. -/
inductive TypedTensor where
  /-- Truth values. -/
  | bool (t : Tensor Bool)
  /-- Integers of 32 bits. -/
  | int32 (t : Tensor Int32)
  /-- Integers of 64 bits. -/
  | int64 (t : Tensor Int64)
  /-- Single precision. -/
  | float32 (t : Tensor Float32)
  /-- Double precision. -/
  | float64 (t : Tensor Float)
  /-- Complex numbers in single precision. -/
  | complex64 (t : Operator Float32)
  /-- Complex numbers in double precision. -/
  | complex128 (t : Operator Float)

namespace TypedTensor

/-- The type of the entries. -/
def elementType : TypedTensor → ElementType
  | bool _ => .bool
  | int32 _ => .int32
  | int64 _ => .int64
  | float32 _ => .float32
  | float64 _ => .float64
  | complex64 _ => .complex64
  | complex128 _ => .complex128

/-- The extents. -/
def shape : TypedTensor → List Nat
  | bool t => t.shape
  | int32 t => t.shape
  | int64 t => t.shape
  | float32 t => t.shape
  | float64 t => t.shape
  | complex64 t => t.shape
  | complex128 t => t.shape

/-- A single-precision amplitude in double precision. -/
def widen (z : Amplitude Float32) : Amplitude Float := ⟨z.re.toFloat, z.im.toFloat⟩

/-- The tensor with complex entries in double precision. -/
def toDouble : TypedTensor → Operator Float
  | bool t => t.map fun b => if b then 1 else 0
  | int32 t => t.map fun n => .ofReal (Float.ofInt n.toInt)
  | int64 t => t.map fun n => .ofReal (Float.ofInt n.toInt)
  | float32 t => t.map fun x => .ofReal x.toFloat
  | float64 t => t.map .ofReal
  | complex64 t => t.map widen
  | complex128 t => t

/-- The tensor with complex entries in single precision, each rounded once. -/
def toSingle : TypedTensor → Operator Float32
  | int32 t => t.map fun n => .ofReal (Float32.ofInt n.toInt)
  | int64 t => t.map fun n => .ofReal (Float32.ofInt n.toInt)
  | float32 t => t.map .ofReal
  | complex64 t => t
  | t => Rounding.round t.toDouble

/-- The integer part of a double. -/
def wholePart (x : Float) : Int := ((Number.float x).truncate?).getD 0

/-- The tensor with integers of 64 bits as entries. Imaginary parts and fractions are dropped. -/
def toInt64 : TypedTensor → Tensor Int64
  | int32 t => t.map Int32.toInt64
  | int64 t => t
  | t => t.toDouble.map fun z => Int64.ofInt (wholePart z.re)

/-- The tensor with integers of 32 bits as entries. Imaginary parts and fractions are dropped. -/
def toInt32 : TypedTensor → Tensor Int32
  | int32 t => t
  | int64 t => t.map Int64.toInt32
  | t => t.toDouble.map fun z => Int32.ofInt (wholePart z.re)

/-- Whether an amplitude differs from zero. -/
def isSet (z : Amplitude Float) : Bool := !(z.re == 0 && z.im == 0)

/-- The truth values that tell which entries differ from zero. -/
def toBool (t : TypedTensor) : Tensor Bool := t.toDouble.map isSet

/-- The real parts of the entries in double precision. -/
def toFloat64 (t : TypedTensor) : Tensor Float := t.toDouble.map (·.re)

/-- The real parts of the entries in single precision. -/
def toFloat32 (t : TypedTensor) : Tensor Float32 := t.toSingle.map (·.re)

/-- The tensor with entries of another type: imaginary parts are dropped where the type has
none, and fractions where it has none. -/
def cast (type : ElementType) (t : TypedTensor) : TypedTensor :=
  match type with
  | .bool => bool t.toBool
  | .int32 => int32 t.toInt32
  | .int64 => int64 t.toInt64
  | .float32 => float32 t.toFloat32
  | .float64 => float64 t.toFloat64
  | .complex64 => complex64 t.toSingle
  | .complex128 => complex128 t.toDouble

/-- The tensor of truth values for a tensor of integers. -/
def truths (t : Tensor Int32) : TypedTensor := bool (t.map (· != 0))

/-- The Kronecker product, in the narrowest type that holds both factors. -/
def kron (a b : TypedTensor) : TypedTensor :=
  match a.elementType.join b.elementType with
  | .bool => truths (a.toInt32.kron b.toInt32)
  | .int32 => int32 (a.toInt32.kron b.toInt32)
  | .int64 => int64 (a.toInt64.kron b.toInt64)
  | .float32 => float32 (a.toFloat32.kron b.toFloat32)
  | .float64 => float64 (a.toFloat64.kron b.toFloat64)
  | .complex64 => complex64 (a.toSingle.kron b.toSingle)
  | .complex128 => complex128 (a.toDouble.kron b.toDouble)

/-- Why a multiple is not formed. -/
inductive ScaleFault where
  /-- The factor is no number. -/
  | wrongKind
  /-- The factor is an integer that no word of 64 bits holds. -/
  | overflow
  /-- Truth values have no multiple by an integer that only an unsigned word holds. -/
  | unsigned
deriving DecidableEq, Repr

/-- The multiple by an integer. It makes truth values integers. -/
def scaleInt (factor : Int) (t : TypedTensor) : TypedTensor :=
  match t with
  | bool _ => int64 (t.toInt64.map (Int64.ofInt factor * ·))
  | int32 t => int32 (t.map (Int32.ofInt factor * ·))
  | int64 t => int64 (t.map (Int64.ofInt factor * ·))
  | float32 t => float32 (t.map (Float32.ofInt factor * ·))
  | float64 t => float64 (t.map (Float.ofInt factor * ·))
  | complex64 t => complex64 (t.scale (Float32.ofInt factor))
  | complex128 t => complex128 (t.scale (Float.ofInt factor))

/-- The multiple by a double. It makes truth values and integers single-precision numbers. -/
def scaleFloat (factor : Float) (t : TypedTensor) : TypedTensor :=
  match t with
  | float64 t => float64 (t.map (factor * ·))
  | complex64 t => complex64 (t.scale factor.toFloat32)
  | complex128 t => complex128 (t.scale factor)
  | t => float32 (t.toFloat32.map (factor.toFloat32 * ·))

/-- A multiple. A truth value as the factor keeps the type of the entries. -/
def scale (factor : Argument) (t : TypedTensor) : Except ScaleFault TypedTensor :=
  match factor, t with
  | .foreign _, _ => .error .wrongKind
  | .float x, t => .ok (t.scaleFloat x)
  | .truth on, bool t => .ok (bool (t.map (on && ·)))
  | .truth on, t => .ok (t.scaleInt (if on then 1 else 0))
  | .int n, t =>
    if n < -2 ^ 63 ∨ 2 ^ 64 ≤ n then .error .overflow
    else if t.elementType = .bool ∧ 2 ^ 63 ≤ n then .error .unsigned
    else .ok (t.scaleInt n)

/-- The tensor of the same shape and type with zero entries. -/
def zeros : TypedTensor → TypedTensor
  | bool t => bool (t.map fun _ => false)
  | int32 t => int32 (t.map fun _ => 0)
  | int64 t => int64 (t.map fun _ => 0)
  | float32 t => float32 (t.map fun _ => 0)
  | float64 t => float64 (t.map fun _ => 0)
  | complex64 t => complex64 (t.map fun _ => 0)
  | complex128 t => complex128 (t.map fun _ => 0)

end TypedTensor

end QuditSim
