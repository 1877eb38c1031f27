import QuditSim.Gate.Unitary

/-!
# Names of operators

A `GateLibrary` names operators. Its entries are kept in the order in which they were
registered, and the first entry that an operator matches gives the name. An operator matches
an entry of its shape when each entry of the matrix is equal or near.

Texts serve as names, and so does any other type of labels (`Label`).
-/

namespace QuditSim

/-- What can serve as a name. -/
class Label (N : Type) where
  /-- The label that a text is. -/
  ofText : String → N
  /-- Whether a label names nothing. -/
  isBlank : N → Bool

/-- The empty text names nothing. -/
instance : Label String := ⟨id, (· == "")⟩

/-- Named operators in the order of their registration. -/
structure GateLibrary (N S : Type) where
  /-- The dimension of the qudits. -/
  dim : Nat
  /-- How far apart matching entries may be. -/
  tolerance : S
  /-- The names and their operators. -/
  entries : List (N × Operator S)

namespace GateLibrary

variable {N S : Type}

/-- Whether an operator matches another up to a tolerance. -/
def agrees [Scalar S] (tolerance : S) (known probe : Operator S) : Bool :=
  known.near (fun z w => (z - w).modulus) tolerance probe

/-- The name of an operator, which is that of the first entry it matches, or the empty text. -/
def nameOf [Label N] [Scalar S] (library : GateLibrary N S) (probe : Operator S) : N :=
  match library.entries.find? fun entry => agrees library.tolerance entry.2 probe with
  | some (name, _) => name
  | none => Label.ofText ""

/-- Whether there is an entry that an operator has to be compared with. -/
def compares (library : GateLibrary N S) (probe : Operator S) : Bool :=
  library.entries.any fun entry => entry.2.shape == probe.shape

/-- The library with one more entry behind the others. -/
def add (library : GateLibrary N S) (name : N) (operator : Operator S) : GateLibrary N S :=
  { library with entries := library.entries ++ [(name, operator)] }

/-- The library with one more entry, refused for a label that names nothing. -/
def register? [Label N] (library : GateLibrary N S) (name : N) (operator : Operator S) :
    Option (GateLibrary N S) :=
  if Label.isBlank name then none else some (library.add name operator)

/-- The text that refuses an empty name. -/
def emptyNameMessage : String := "gate name must be non-empty"

/-- The names in the order of registration. -/
def names (library : GateLibrary N S) : List N := library.entries.map (·.1)

/-- How far apart matching entries may be when nothing else is said. -/
def standardTolerance [Scalar S] : S := 1e-12

/-- The entries that every library starts with: the qubit gates for qubits, then the gates of
the dimension. -/
def standardEntries [Angles S] (dim : Nat) : List (String × Operator S) :=
  (if dim = 2 then
    [("H", Gate.hadamard), ("X", Gate.pauliX), ("Y", Gate.pauliY), ("Z", Gate.pauliZ),
      ("S", Gate.phase), ("T", Gate.eighth), ("CNOT", Gate.cnot), ("CZ", Gate.cz),
      ("SWAP", Gate.swap), ("TOF", Gate.toffoli)]
  else []) ++
    [("Id" ++ toString dim, .identity dim), ("Xd", Gate.shift dim), ("Zd", Gate.clock dim),
      ("Fd", Gate.fourier dim)]

/-- The library for a dimension. -/
def standard [Label N] [Angles S] (dim : Nat) (tolerance : S) : GateLibrary N S :=
  ⟨dim, tolerance, (standardEntries dim).map fun (name, op) => (Label.ofText name, op)⟩

@[simp] theorem entries_add (library : GateLibrary N S) (name : N) (operator : Operator S) :
    (library.add name operator).entries = library.entries ++ [(name, operator)] := rfl

@[simp] theorem tolerance_add (library : GateLibrary N S) (name : N) (operator : Operator S) :
    (library.add name operator).tolerance = library.tolerance := rfl

end GateLibrary

end QuditSim
