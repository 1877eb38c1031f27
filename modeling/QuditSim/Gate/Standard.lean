import QuditSim.Tensor.Typed

/-!
# Standard gates

The operators that have names: the common gates on one, two and three qubits, and for qudits of
any dimension the identity, the shift `|j⟩ ↦ |j + 1⟩`, the clock `|j⟩ ↦ ω^j |j⟩` and the Fourier
gate, where `ω` is the first root of unity of the order of the dimension.

The first qudit that an operator acts on is the most significant digit of its row index, so
`cnot` is controlled by its first qubit.
-/

namespace QuditSim

namespace Gate

section Matrices

variable {S : Type} [Scalar S]

/-- The square matrix with the given rows. -/
def ofRows (rows : List (List (Amplitude S))) : Operator S :=
  .matrix rows.length rows.length fun i j => (rows.getD i []).getD j 0

/-- The imaginary unit. -/
def imaginary : Amplitude S := ⟨0, 1⟩

/-- The bit flip. -/
def pauliX : Operator S := ofRows [[0, 1], [1, 0]]

/-- The product of the bit flip and the phase flip, with a factor that squares it to one. -/
def pauliY : Operator S := ofRows [[0, -imaginary], [imaginary, 0]]

/-- The phase flip. -/
def pauliZ : Operator S := ofRows [[1, 0], [0, .ofReal (-1)]]

/-- The Hadamard gate. -/
def hadamard : Operator S :=
  let root : S := 1 / Scalar.sqrt (1 + 1)
  ofRows [[.ofReal root, .ofReal root], [.ofReal root, .ofReal (-root)]]

/-- The square root of the phase flip. -/
def phase : Operator S := ofRows [[1, 0], [0, imaginary]]

/-- The controlled bit flip. -/
def cnot : Operator S := ofRows [[1, 0, 0, 0], [0, 1, 0, 0], [0, 0, 0, 1], [0, 0, 1, 0]]

/-- The controlled phase flip. -/
def cz : Operator S := .diagonal 4 fun i => if i = 3 then .ofReal (-1) else 1

/-- The exchange of two qubits. -/
def swap : Operator S := ofRows [[1, 0, 0, 0], [0, 0, 1, 0], [0, 1, 0, 0], [0, 0, 0, 1]]

/-- The bit flip under two controls. -/
def toffoli : Operator S :=
  .matrix 8 8 fun i j => if i = (if j = 6 then 7 else if j = 7 then 6 else j) then 1 else 0

/-- The shift of a qudit: the basis state `j` goes to the one after it, the last to the first. -/
def shift (dim : Nat) : Operator S :=
  .matrix dim dim fun i j => if i = (j + 1) % dim then 1 else 0

end Matrices

section Roots

variable {S : Type} [Angles S]

/-- The square root of `phase`. -/
def eighth : Operator S :=
  ofRows [[1, 0], [0, .onCircle (Angles.pi / (1 + 1 + 1 + 1))]]

/-- The clock of a qudit: the basis state `j` is multiplied by the power `j` of the root of
unity. -/
def clock (dim : Nat) : Operator S := .diagonal dim fun j => (Amplitude.rootOfUnity dim).pow j

/-- The Fourier gate of a qudit. -/
def fourier (dim : Nat) : Operator S :=
  let root := Amplitude.rootOfUnity dim
  let norm : S := 1 / Scalar.sqrt (Scalar.ofNat dim)
  .matrix dim dim fun j k => .ofReal norm * root.pow (j * k)

end Roots

end Gate

/-- The gates that have names. -/
inductive StandardGate where
  /-- The identity of a qubit. -/
  | identity
  /-- The bit flip. -/
  | pauliX
  /-- The product of the bit flip and the phase flip. -/
  | pauliY
  /-- The phase flip. -/
  | pauliZ
  /-- The Hadamard gate. -/
  | hadamard
  /-- The square root of the phase flip. -/
  | phase
  /-- The fourth root of the phase flip. -/
  | eighth
  /-- The controlled bit flip. -/
  | cnot
  /-- The controlled phase flip. -/
  | cz
  /-- The exchange of two qubits. -/
  | swap
  /-- The bit flip under two controls. -/
  | toffoli
  /-- The identity of a qudit. -/
  | identityOf (dim : Nat)
  /-- The shift of a qudit. -/
  | shift (dim : Nat)
  /-- The clock of a qudit. -/
  | clock (dim : Nat)
  /-- The Fourier gate of a qudit. -/
  | fourier (dim : Nat)
deriving DecidableEq, Repr

namespace StandardGate

/-- The matrix of a gate. -/
def matrix {S : Type} [Angles S] : StandardGate → Operator S
  | identity => .identity 2
  | pauliX => Gate.pauliX
  | pauliY => Gate.pauliY
  | pauliZ => Gate.pauliZ
  | hadamard => Gate.hadamard
  | phase => Gate.phase
  | eighth => Gate.eighth
  | cnot => Gate.cnot
  | cz => Gate.cz
  | swap => Gate.swap
  | toffoli => Gate.toffoli
  | identityOf dim => .identity dim
  | shift dim => Gate.shift dim
  | clock dim => Gate.clock dim
  | fourier dim => Gate.fourier dim

/-- Whether the entries of a gate are written as complex numbers. -/
def isComplex : StandardGate → Bool
  | pauliY | phase | eighth | clock _ | fourier _ => true
  | _ => false

/-- The gate in an element type. Complex entries can be made neither real numbers nor
integers. -/
def typed? (gate : StandardGate) (type : ElementType) : Option TypedTensor :=
  if gate.isComplex && !type.isComplex && type != .bool then none
  else some (TypedTensor.cast type (.complex128 gate.matrix))

/-- The qubit gate with a written name. -/
def ofName? : String → Option StandardGate
  | "I" => some identity
  | "X" => some pauliX
  | "Y" => some pauliY
  | "Z" => some pauliZ
  | "H" => some hadamard
  | "S" => some phase
  | "T" => some eighth
  | "CNOT" => some cnot
  | "CZ" => some cz
  | "SWAP" => some swap
  | "TOFFOLI" => some toffoli
  | _ => none

/-- The family of qudit gates with a written name. -/
def familyOfName? : String → Option (Nat → StandardGate)
  | "Id" => some identityOf
  | "Xd" => some shift
  | "Zd" => some clock
  | "Fd" => some fourier
  | _ => none

end StandardGate

/-- Why a dimension is that of no qudit. -/
inductive DimensionFault where
  /-- The dimension is below two. -/
  | small (given : Argument)
  /-- The dimension is no integer. -/
  | wrongKind

/-- The text of a fault, if it has one. -/
def DimensionFault.message? : DimensionFault → Option String
  | small given => some ("qudit dimension must be >= 2, got " ++ given.text)
  | wrongKind => none

/-- A dimension as a natural number, if it is at least two. -/
def quditDimension (dim : Argument) : Except DimensionFault Nat :=
  match dim.number?, dim.index? with
  | none, _ => .error .wrongKind
  | some x, index =>
    if x.below 2 then .error (.small dim)
    else
      match index with
      | none => .error .wrongKind
      | some d => .ok d.toNat

/-- An integer is accepted as the dimension of a qudit just from two on. -/
theorem quditDimension_eq_ok_iff (dim : Int) (d : Nat) :
    quditDimension dim = .ok d ↔ 2 ≤ d ∧ dim = d := by
  simp only [quditDimension, Argument.number?_int, Argument.index?_int, Number.below_int]
  by_cases h : dim < 2 <;> simp [h] <;> omega

end QuditSim
