import QuditSim.Json.Printer
import QuditSim.State.Typed

/-!
# Numbers, tensors and states on display

How numeric results appear in the exchange format. A number is displayed as a text with a
fixed number of places, nine in double and three in single precision. A tensor is an object
with its extents, its element type and the lists of the parts of its entries; a state lists
only the amplitudes whose displayed parts do not both read as zero.
-/

namespace QuditSim

namespace Json

mutual

/-- A value in which every floating-point number is displayed with the given number of places. -/
def displayed (places : Nat) : Json → Json
  | number (.float x) => string (Decimal.display places x)
  | array items => array (displayedItems places items)
  | object members => object (displayedMembers places members)
  | value => value

/-- The items of a list with their floating-point numbers displayed. -/
def displayedItems (places : Nat) : List Json → List Json
  | [] => []
  | item :: rest => item.displayed places :: displayedItems places rest

/-- The members of an object with their floating-point numbers displayed. -/
def displayedMembers (places : Nat) : List (String × Json) → List (String × Json)
  | [] => []
  | (name, value) :: rest => (name, value.displayed places) :: displayedMembers places rest

end

/-- An optional natural number as a value. -/
def natOrNull (n : Option Nat) : Json := (n.map nat).getD null

end Json

section Numbers

variable {R : Type} [Scalar R] [Precision R]

/-- The text of a scalar on display. -/
def Scalar.displayText (x : R) : String := Decimal.display (Precision.places R) (Scalar.toFloat x)

/-- A scalar on display. -/
def Scalar.display (x : R) : Json := .string (displayText x)

/-- The amplitudes of a state that do not read as zero, with their indices. -/
def StateVector.displayAmplitudes (state : StateVector R) : List Json :=
  let zero := Scalar.displayText (0 : R)
  (state.toList.zipIdx.map fun (z, i) =>
    (i, Scalar.displayText z.re, Scalar.displayText z.im)).filterMap fun (i, re, im) =>
      if re = zero ∧ im = zero then none else some (.array [.nat i, .string re, .string im])

/-- A state on display. -/
def StateVector.display (state : StateVector R) : Json :=
  .object [("size", .nat state.size), ("dtype", .string (Precision.elementType R).name),
    ("nz", .array (displayAmplitudes state))]

/-- The parts of the entries of an operator on display. -/
def Operator.displayParts (op : Operator R) : List (String × List Json) :=
  [("re", op.entries.toList.map fun z => Scalar.display z.re),
    ("im", op.entries.toList.map fun z => Scalar.display z.im)]

/-- A probability of a state of the given precision on display. -/
def Precision.chance {S : Type} [Scalar S] (R : Type) [Precision R] (x : S) : Json :=
  .string (Decimal.display (Precision.places R) (Scalar.toFloat x))

/-- Probabilities of a state of the given precision on display. -/
def Precision.chances {S : Type} [Scalar S] (R : Type) [Precision R] (xs : List S) : Json :=
  .array (xs.map (chance R))

end Numbers

/-- The parts of the entries of a tensor on display: truth values and integers as they are. -/
def TypedTensor.displayParts : TypedTensor → List (String × List Json)
  | bool t => [("re", t.entries.toList.map .bool)]
  | int32 t => [("re", t.entries.toList.map fun n => .int n.toInt)]
  | int64 t => [("re", t.entries.toList.map fun n => .int n.toInt)]
  | float32 t => [("re", t.entries.toList.map Scalar.display)]
  | float64 t => [("re", t.entries.toList.map Scalar.display)]
  | complex64 t => Operator.displayParts t
  | complex128 t => Operator.displayParts t

/-- A tensor on display. -/
def TypedTensor.display (t : TypedTensor) : Json :=
  .object ([("shape", .array (t.shape.map Json.nat)), ("dtype", .string t.elementType.name)] ++
    t.displayParts.map fun (name, items) => (name, .array items))

/-- An operator on display. -/
def Operator.display (op : Operator Float) : Json := (TypedTensor.complex128 op).display

/-- Values in lists nested by extents. -/
def Json.nested : List Nat → List Json → Json
  | [], items => items.headD .null
  | n :: extents, items =>
    let width := extents.prod
    .array ((List.range n).map fun i => nested extents ((items.drop (i * width)).take width))

end QuditSim
