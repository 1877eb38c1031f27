import QuditSim.Circuit.Build
import QuditSim.Exchange.Reading
import QuditSim.State.Typed

/-!
# Descriptions of tensors

A tensor is described by the name of a standard gate, by nested lists of the real and the
imaginary parts of its entries, by the factors of a Kronecker product, or as a multiple of
another (`TypedTensor.ofJson`). A state can also be described as a basis state
(`TypedTensor.stateOfJson`).

Where an operator is expected, nested lists without an element type, and values that are
described as raw, stand for themselves (`OperatorArg.ofJson`): they are refused where
operators are checked, and not where they are read.
-/

namespace QuditSim

variable [Capacity]

/-! ## Standard gates -/

/-- The standard gate of a name. The gates of qudits are described with a dimension, and the
others without. -/
def StandardGate.ofJson (json : Json) (name : String) : Reading StandardGate :=
  match ofName? name, familyOfName? name, json.get? "dim" with
  | some gate, _, none => .ok gate
  | none, some family, some dim => do
    let d ← (quditDimension dim.argument).mapError .dimension
    (checkMatrixExtent d).mapError .extent
    return family d
  | none, none, _ => .error (.missing name)
  | _, _, _ => .error .wrongKind

/-- The tensor of a standard gate in the element type that is asked for. -/
def StandardGate.tensorOfJson (json : Json) (name : String) : Reading TypedTensor := do
  let type ← json.elementType .complex128
  match (← ofJson json name).typed? type with
  | some t => return t
  | none => throw .wrongKind

/-! ## Tensors -/

namespace TypedTensor

/-- The tensor of an element type whose entries have the real and the imaginary parts of a
description. Without imaginary parts the entries are real numbers. -/
def ofParts (type : ElementType) (json : Json) : Reading TypedTensor := do
  let re := (← json.member "re").withSpecials
  match json.given? "im" with
  | none => (ofEntries type re).mapError .entry
  | some im => (ofComplexEntries type re im.withSpecials).mapError .entry

mutual

/-- The tensor that a description gives. -/
def ofJson : Json → Reading TypedTensor
  | .object members => ofMembers (.object members) members
  | _ => .error .wrongKind

/-- The tensor that the members of a description give. -/
def ofMembers (json : Json) : List (String × Json) → Reading TypedTensor
  | [] =>
    match json.text? "gate" with
    | some name => StandardGate.tensorOfJson json name
    | none => do ofParts (← json.elementType .complex128) json
  | ("kron", .array (first :: rest)) :: _ => do ofFactors (← ofJson first) rest
  | ("of", value) :: _ => do
    let factor ← json.member "times"
    ((← ofJson value).scale factor.numeric).mapError .scale
  | _ :: rest => ofMembers json rest

/-- The Kronecker product of a tensor with those that descriptions give. -/
def ofFactors (left : TypedTensor) : List Json → Reading TypedTensor
  | [] => .ok left
  | item :: rest => do ofFactors (left.kron (← ofJson item)) rest

end

/-- The vector of a basis state. -/
def basisState (type : ElementType) (size index : Nat) : TypedTensor :=
  cast type (.complex128 (.vector (StateVector.basisState size index)))

/-- The vector of a basis state for arguments that are checked; a negative index counts from the
end. -/
def basisState? (type : ElementType) (size index : Int) : Reading TypedTensor := do
  if size < 0 then throw .negativeExtent
  (StateVector.checkSize size.toNat).mapError .state
  let place := if index < 0 then index + size else index
  if place < 0 ∨ size ≤ place then throw .noItem
  return basisState type size.toNat place.toNat

/-- The tensor that a description of a state gives. -/
def stateOfJson (json : Json) : Reading TypedTensor := do
  let type ← json.elementType .complex128
  match json.get? "zero", json.get? "basis" with
  | some n, _ =>
    let state : StateVector Float ←
      (StateVector.zero? n.argument (json.argumentOr "dim" (.nat 2))).mapError .state
    return basisState type state.size 0
  | none, some _ => basisState? type (← json.intMember "size") (← json.intMember "basis")
  | none, none => ofParts type json

end TypedTensor

/-! ## Operators -/

mutual

/-- The nested list of amplitudes whose real and imaginary parts two nested lists hold. -/
def Nested.ofParts : Json → Json → Except EntryFault (Nested (Amplitude Float))
  | .array res, .array ims => (itemsOfParts res ims).map .list
  | re, im => do return .leaf ⟨← re.floatEntry, ← im.floatEntry⟩

/-- The nested lists of amplitudes of corresponding items. -/
def Nested.itemsOfParts :
    List Json → List Json → Except EntryFault (List (Nested (Amplitude Float)))
  | re :: res, im :: ims => do return (← ofParts re im) :: (← itemsOfParts res ims)
  | _, _ => .ok []

end

namespace OperatorArg

/-- A value that stands for itself in place of an operator. -/
def ofValue (value : Json) : OperatorArg Float :=
  match Operator.ofJson? value with
  | some op => .operator op
  | none => .foreign value.kindName

/-- Nested lists of parts in place of an operator. -/
def ofLists (re im : Json) : Reading (OperatorArg Float) := do
  let nested ← (Nested.ofParts re im).mapError .entry
  match nested.tensor? with
  | some op => return if op.rank ≤ writtenRankLimit then .operator op else .foreign re.kindName
  | none => return .foreign re.kindName

/-- The argument that a description gives in place of an operator. -/
def ofJson (json : Json) : Reading (OperatorArg Float) :=
  match json.get? "raw", json.get? "re", json.given? "dtype" with
  | some value, _, _ => .ok (ofValue value)
  | none, some re, none =>
    match json.given? "im" with
    | none => .ok (ofValue re.withSpecials)
    | some im => ofLists re.withSpecials im.withSpecials
  | none, _, _ => (TypedTensor.ofJson json).map fun t => .operator t.toDouble

end OperatorArg

/-- The operator that a description gives. -/
def Operator.ofJson (json : Json) : Reading (Operator Float) := do
  match ← OperatorArg.ofJson json with
  | .operator op => return op
  | .foreign kind => throw (.notOperator kind)
  | .raising _ => throw .wrongKind

end QuditSim
