import QuditSim.Tensor.Typed
import QuditSim.Json.Basic

/-!
# Nested lists as tensors

A tensor can be written as a list of lists. There are two readers.

- `Json.tensor` takes the extents from the first items, and then reads entry by entry; what is
  found first decides why a writing is refused. Where an extent is zero there is no entry, and
  nothing more is looked at. `TypedTensor.ofEntries` reads the entries as those of an element
  type.
- `Operator.ofJson?` asks for lists of one length at each depth, and for numbers that have a
  common type.
-/

namespace QuditSim

/-! ## Regular lists -/

/-- Values in lists of lists, to any depth. -/
inductive Nested (K : Type) where
  /-- A single value. -/
  | leaf (value : K)
  /-- A list of values or lists. -/
  | list (items : List (Nested K))

namespace Nested

variable {K L : Type}

mutual

/-- The extents of a regular nested list: equal shapes at each depth. -/
def shape? : Nested K → Option (List Nat)
  | leaf _ => some []
  | list items => shapeOfItems? items

/-- The extents of a list of regular items of one shape. -/
def shapeOfItems? : List (Nested K) → Option (List Nat)
  | [] => some [0]
  | [item] => (shape? item).map (1 :: ·)
  | item :: rest =>
    match shape? item, shapeOfItems? rest with
    | some inner, some (n :: inner') => if inner = inner' then some ((n + 1) :: inner) else none
    | _, _ => none

end

mutual

/-- The values from first to last. -/
def values : Nested K → List K
  | leaf value => [value]
  | list items => valuesOfItems items

/-- The values of all items from first to last. -/
def valuesOfItems : List (Nested K) → List K
  | [] => []
  | item :: rest => values item ++ valuesOfItems rest

end

/-- The tensor that a regular nested list writes. -/
def tensor? (nested : Nested K) : Option (Tensor K) :=
  nested.shape?.bind fun shape => Tensor.ofArray? shape nested.values.toArray

mutual

/-- The nested list of numbers and truth values that a value writes. -/
def ofJson? : Json → Option (Nested Argument)
  | .array items => (itemsOfJson? items).map list
  | .number value => some (leaf (.ofNumber value))
  | .bool value => some (leaf (.truth value))
  | _ => none

/-- The nested lists that all items write. -/
def itemsOfJson? : List Json → Option (List (Nested Argument))
  | [] => some []
  | item :: rest =>
    match ofJson? item, itemsOfJson? rest with
    | some first, some others => some (first :: others)
    | _, _ => none

end

end Nested

/-- The nested list of the entries of a tensor, as a text. -/
def Tensor.listed {K : Type} (text : K → String) (t : Tensor K) : String :=
  nest t.shape (t.entries.toList.map text)
where
  /-- Items cut into lists by a list of extents. -/
  nest : List Nat → List String → String
    | [], items => items.headD ""
    | n :: extents, items =>
      let width := extents.prod
      Text.listed ((List.range n).map fun i => nest extents ((items.drop (i * width)).take width))

/-! ## Operators -/

/-- Whether an entry is an integer that no word of 64 bits holds, signed or unsigned. -/
def Argument.isBeyondWords : Argument → Bool
  | .int value => value < -2 ^ 63 || 2 ^ 64 ≤ value
  | _ => false

/-- Whether an entry is an integer that only an unsigned word of 64 bits holds. -/
def Argument.isUnsignedOnly : Argument → Bool
  | .int value => 2 ^ 63 ≤ value
  | _ => false

/-- Whether an entry has a type of its own that amplitudes can be made of: truth values go with
any type. -/
def Argument.isSigned : Argument → Bool
  | .int value => value < 2 ^ 63
  | .float _ => true
  | .truth _ | .foreign _ => false

/-- Whether the entries have a common type that amplitudes can be made of. There is none for
integers beyond words of 64 bits, and unsigned words have one only together with other numbers. -/
def haveCommonType (entries : Array Argument) : Bool :=
  !entries.any Argument.isBeyondWords &&
    (!entries.any Argument.isUnsignedOnly || entries.any Argument.isSigned)

/-- The most indices that an operator written as a list can have. -/
def writtenRankLimit : Nat := 64

/-- The operator that a value writes as a nested list of numbers. -/
def Operator.ofJson? (json : Json) : Option (Operator Float) := do
  let entries ← (← Nested.ofJson? json).tensor?
  if entries.rank ≤ writtenRankLimit ∧ haveCommonType entries.entries then
    some (entries.map fun x => .ofReal (((x.number?).map Number.toFloat).getD 0))
  else none

/-! ## Entries of an element type -/

/-- Why lists are no tensor. -/
inductive EntryFault where
  /-- A list has another length than the first one at its depth, or lists are too deep. -/
  | uneven
  /-- Something is no number, or no list where one should be. -/
  | notNumber
  /-- An integer is larger than every double. -/
  | overflow
  /-- An integer does not fit into a word of 64 bits. -/
  | noWord
  /-- A number is outside of the range of the element type. -/
  | outOfRange
deriving DecidableEq, Repr

namespace Json

/-- The most indices that a tensor can have. -/
def rankLimit : Nat := 128

mutual

/-- The extents of a nested list, read off its first items. A text is a list of texts, and so
has no end of depth unless it is empty. -/
def extents : Json → Except EntryFault (List Nat)
  | array items => extentsOfFirst items items.length
  | string text => if text = "" then .ok [0] else .error .uneven
  | _ => .ok []

/-- The extents of a list of the given length, read off its first item. -/
def extentsOfFirst : List Json → Nat → Except EntryFault (List Nat)
  | [], _ => .ok [0]
  | item :: _, n => (extents item).map (n :: ·)

end

/-- The items of a value that stands for a list: an object is the list of its names, and a text
that of its characters. -/
def listItems? : Json → Option (List Json)
  | array items => some items
  | string text => some ((Text.singles text).map string)
  | object members => some (members.map fun (name, _) => string name)
  | _ => none

/-- The entries of a nested list with the given extents, from first to last. -/
def flatten {K : Type} (entry : Json → Except EntryFault K) :
    List Nat → Json → Except EntryFault (List K)
  | [], json => (entry json).map ([·])
  | n :: inner, json =>
    match json.listItems? with
    | none => .error .notNumber
    | some items =>
      if items.length ≠ n then .error .uneven
      else (items.mapM (flatten entry inner)).map List.flatten

/-- The tensor of the entries that a value holds. -/
def tensor {K : Type} (entry : Json → Except EntryFault K) (json : Json) :
    Except EntryFault (Tensor K) := do
  if let string _ := json then throw .notNumber
  let shape ← extents json
  if rankLimit < shape.length then throw .uneven
  let entries ← if shape.prod = 0 then pure [] else flatten entry shape json
  match Tensor.ofArray? shape entries.toArray with
  | some t => return t
  | none => throw .uneven

/-- The number that an entry is. -/
def numberEntry (json : Json) : Except EntryFault Number :=
  match json.number? with
  | some x => .ok x
  | none => .error .notNumber

/-- The double that an entry is. -/
def floatEntry (json : Json) : Except EntryFault Float := do
  let x ← json.numberEntry
  match x with
  | .int _ => if x.toFloat.isInf then throw .overflow else return x.toFloat
  | .float x => return x

/-- The truth value that an entry is: whether it differs from zero. -/
def truthEntry (json : Json) : Except EntryFault Bool :=
  json.numberEntry.map fun x => !x.sameValue (.int 0)

/-- The integer that an entry is cut down to, from the range of signed words of the given
width. -/
def wordEntry (width : Nat) (json : Json) : Except EntryFault Int := do
  match ← json.numberEntry with
  | .int n =>
    if n < -2 ^ 63 ∨ 2 ^ 63 ≤ n then throw .noWord
    else if n < -2 ^ (width - 1) ∨ 2 ^ (width - 1) ≤ n then throw .outOfRange
    else return n
  | .float x =>
    if Float.ofInt (-2 ^ (width - 1)) ≤ x ∧ x ≤ Float.ofInt (2 ^ (width - 1) - 1) then
      return (Number.float x).truncate?.getD 0
    else throw .outOfRange

end Json

namespace TypedTensor

/-- The tensor of an element type whose entries a value holds. -/
def ofEntries (type : ElementType) (json : Json) : Except EntryFault TypedTensor :=
  match type with
  | .bool => (json.tensor Json.truthEntry).map bool
  | .int32 => (json.tensor (Json.wordEntry 32)).map fun t => int32 (t.map Int32.ofInt)
  | .int64 => (json.tensor (Json.wordEntry 64)).map fun t => int64 (t.map Int64.ofInt)
  | type => (json.tensor Json.floatEntry).map fun t => cast type (float64 t)

/-- The tensor of the entries with the given real and imaginary parts. -/
def complexParts (re im : Json) : Except EntryFault (Operator Float) := do
  let re ← re.tensor Json.floatEntry
  let im ← im.tensor Json.floatEntry
  match Tensor.ofArray? re.shape (re.entries.zipWith Amplitude.mk im.entries) with
  | some t => return t
  | none => throw .uneven

/-- The tensor of an element type whose entries have the given real and imaginary parts. Complex
entries are made neither real numbers nor integers. -/
def ofComplexEntries (type : ElementType) (re im : Json) : Except EntryFault TypedTensor := do
  let t ← complexParts re im
  if type.isComplex ∨ type = .bool then return cast type (complex128 t) else throw .notNumber

end TypedTensor

end QuditSim
