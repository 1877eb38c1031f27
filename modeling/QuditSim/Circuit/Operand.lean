import QuditSim.Digest.Sha256
import QuditSim.Failure
import QuditSim.Tensor.Nested

/-!
# The operators of a circuit

A circuit keeps each operator once, under a key that is computed from its contents. An
`OperandTable` is a list of operators with their keys in the order of registration. The
function that computes the keys belongs to the table; `Operator.contentKey` is the usual one,
the first eight bytes of the digest of shape and entries.

An operator whose key belongs to a different operator is refused, and nothing that is stored
is ever replaced.
-/

namespace QuditSim

/-- The eight bytes of a double, the least significant one first. -/
def floatBytes (x : Float) : List UInt8 :=
  (List.range 8).map fun i => (x.toBits.toNat / 256 ^ i).toUInt8

/-- The bytes that stand for an operator: the text of its shape and the parts of its entries.
A single number counts as a vector of one. -/
def Operator.contentBytes (m : Operator Float) : List UInt8 :=
  (Text.shape (if m.shape = [] then [1] else m.shape)).toUTF8.toList ++
    m.entries.toList.flatMap fun z => floatBytes z.re ++ floatBytes z.im

/-- The number that bytes spell, the least significant one first. -/
def littleEndian (bytes : List UInt8) : Nat := bytes.foldr (fun byte n => byte.toNat + 256 * n) 0

/-- The key of an operator: the first eight bytes of the digest of its bytes. -/
def Operator.contentKey (m : Operator Float) : Int :=
  littleEndian ((Digest.sha256 m.contentBytes).take 8)

/-- The most indices of an operator that has a digest. -/
def Operator.contentRankLimit : Nat := 64

/-- Operators under keys, in the order of registration. -/
structure OperandTable (S : Type) where
  /-- The function that computes the key of an operator. -/
  keyOf : Operator S → Int
  /-- The keys and their operators. -/
  entries : List (Int × Operator S)

namespace OperandTable

variable {S : Type}

/-- A table without operators. -/
def empty (keyOf : Operator S → Int) : OperandTable S := ⟨keyOf, []⟩

/-- The operator under a key. -/
def get? (table : OperandTable S) (key : Int) : Option (Operator S) := table.entries.lookup key

/-- Whether there is an operator under a key. -/
def contains (table : OperandTable S) (key : Int) : Bool := (table.get? key).isSome

/-- The keys in the order of registration. -/
def keys (table : OperandTable S) : List Int := table.entries.map (·.1)

/-- The number of operators. -/
def size (table : OperandTable S) : Nat := table.entries.length

/-- The key that an operator would be stored under. It is refused when the operator under that
key is not equal, and an operator that is not equal to itself is equal to none. -/
def keyFor [Scalar S] (table : OperandTable S) (m : Operator S) : Except Cause Int :=
  let key := table.keyOf m
  match table.get? key with
  | some known => if known.same m then .ok key else .error (.keyTaken key known.shape)
  | none => .ok key

/-- The table in which an operator is stored under its key, unless the key is there already. -/
def insert (table : OperandTable S) (m : Operator S) : OperandTable S :=
  let key := table.keyOf m
  -- the operator that came first stays under a key
  if table.contains key then table else { table with entries := table.entries ++ [(key, m)] }

/-- Stores an operator and answers with its key. -/
def register [Scalar S] (table : OperandTable S) (m : Operator S) :
    Except Cause (Int × OperandTable S) :=
  (table.keyFor m).map fun key => (key, table.insert m)

@[simp] theorem keyOf_insert (table : OperandTable S) (m : Operator S) :
    (table.insert m).keyOf = table.keyOf := by
  simp only [insert]
  split <;> rfl

@[simp] theorem get?_empty (keyOf : Operator S → Int) (key : Int) :
    (empty keyOf).get? key = none := rfl

end OperandTable

end QuditSim
