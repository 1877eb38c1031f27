import QuditSim.Json.Basic
import QuditSim.Tensor.Nested

/-!
# Operators in reports

A report holds an operator as an object with its extents and with the lists of the real and of
the imaginary parts of its entries. `Operator.encoded` writes this form, and
`Operator.decode` reads it. The reader takes nested lists as well, and single numbers that
stand for every entry; it only asks that the parts can be laid over each other and that there
are as many as the extents need.
-/

namespace QuditSim

/-- Why an object is no operator. -/
inductive MatrixFault where
  /-- A part is no tensor of numbers. -/
  | entry (fault : EntryFault)
  /-- The real and the imaginary parts cannot be laid over each other. -/
  | mismatch
  /-- The extents are not written as integers of 64 bits. -/
  | notExtents
  /-- There are more or fewer entries than the extents need. -/
  | wrongCount
deriving DecidableEq, Repr

namespace Operator

/-! ## Writing -/

/-- The object that holds an operator. -/
def encoded (op : Operator Float) : Json :=
  .object [("shape", .array (op.shape.map Json.nat)),
    ("real", .array (op.entries.toList.map fun z => .float z.re)),
    ("imag", .array (op.entries.toList.map fun z => .float z.im))]

/-! ## Laying parts over each other -/

/-- Extents with ones in front up to a number of extents. -/
def padded (shape : List Nat) (rank : Nat) : List Nat :=
  List.replicate (rank - shape.length) 1 ++ shape

/-- The extents of two lists laid over each other: an extent of one is repeated. -/
def overlay : List Nat → List Nat → Option (List Nat)
  | m :: left, n :: right => do
    let rest ← overlay left right
    if m = n then some (m :: rest)
    else if m = 1 then some (n :: rest)
    else if n = 1 then some (m :: rest)
    else none
  | _, _ => some []

/-- The position in a tensor that a position in the overlay falls on. -/
def underlying : List Nat → List Nat → Nat → Nat
  | m :: shape, _ :: target, i =>
    (if m = 1 then 0 else i / target.prod) * shape.prod + underlying shape target (i % target.prod)
  | _, _, _ => 0

/-- The operator with the given real and imaginary parts, laid over each other. -/
def ofParts (re im : Tensor Float) : Except MatrixFault (Operator Float) :=
  let rank := max re.rank im.rank
  let left := padded re.shape rank
  let right := padded im.shape rank
  match overlay left right with
  | none => .error .mismatch
  | some shape =>
    .ok (.ofFn shape fun i =>
      ⟨re.entries.getD (underlying left shape i) 0, im.entries.getD (underlying right shape i) 0⟩)

/-! ## Extents -/

/-- Whether a signed word of 64 bits holds an extent. -/
def isWord (n : Int) : Bool := -2 ^ 63 ≤ n && n < 2 ^ 63

/-- An extent that a word holds. -/
def wordExtent (n : Int) : Except MatrixFault Int :=
  if isWord n then .ok n else .error .notExtents

/-- The integer of an extent behind the first one, where truth values count as well. -/
def laterExtent (json : Json) : Except MatrixFault Int :=
  match json.integral? with
  | some n => wordExtent n
  | none => .error .notExtents

/-- The extents that a value writes: one integer or a list of integers. -/
def givenExtents : Json → Except MatrixFault (List Int)
  | .number (.int n) => (wordExtent n).map ([·])
  | .array [] => .ok []
  | .array (.number (.int n) :: rest) => do return (← wordExtent n) :: (← rest.mapM laterExtent)
  | _ => .error .notExtents

/-- Extents for a number of entries. One of them may be `-1`, which stands for the extent that
makes the count right. -/
def fittedExtents (given : List Int) (count : Nat) : Except MatrixFault (List Nat) :=
  let known := (given.filter (· ≠ -1)).map Int.toNat
  if given.any (· < -1) then .error .wrongCount
  else
    match given.count (-1) with
    | 0 => if known.prod = count then .ok known else .error .wrongCount
    | 1 =>
      if known.prod ≠ 0 ∧ count % known.prod = 0 then
        .ok (given.map fun n => if n = -1 then count / known.prod else n.toNat)
      else .error .wrongCount
    | _ => .error .wrongCount

/-- The operator with the same entries and other extents. -/
def reshaped (op : Operator Float) (given : Json) : Except MatrixFault (Operator Float) := do
  let shape ← fittedExtents (← givenExtents given) op.entries.size
  match Tensor.ofArray? shape op.entries with
  | some op => return op
  | none => throw .wrongCount

/-- The tensor of the numbers of a part. -/
def part (json : Json) : Except MatrixFault (Tensor Float) :=
  (json.tensor Json.floatEntry).mapError .entry

/-- The operator that an object holds. -/
def decode (json : Json) : Except MatrixFault (Operator Float) := do
  let re ← part ((json.get? "real").getD .null)
  let im ← part ((json.get? "imag").getD .null)
  (← ofParts re im).reshaped ((json.get? "shape").getD .null)

end Operator

end QuditSim
