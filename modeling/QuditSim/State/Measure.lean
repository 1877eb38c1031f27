import QuditSim.State.Apply
import QuditSim.State.Sampling

/-!
# Measurement

A measured qudit leaves the register. `StateVector.measureSequential` measures positions one
after another in the basis of their digits; `StateVector.measure` measures several jointly in
the basis given by the columns of a matrix. An outcome is drawn with the probability that the
state gives it, and the state that remains is the branch of the outcome, divided by the root
of its weight.
-/

namespace QuditSim

namespace StateVector

variable {S R : Type} [Scalar S] [Scalar R] [Rounding S R] [Rounding R S]

/-- The amplitudes of the basis states with a given digit at a position, without that digit. -/
def slice (d position v : Nat) (state : StateVector R) : StateVector R :=
  build (state.size / d) fun y => state.amplitude (insertDigit d position v y)

/-- The sum of the weights of all amplitudes. -/
def totalWeight (state : StateVector R) : R :=
  sumTo (fun x => (state.amplitude x).weight) state.size

/-- The total weight of a state as chance takes it. -/
def chanceWeight (state : StateVector R) : S := Rounding.round state.totalWeight

/-- The state divided by the root of a weight. -/
def divRoot (state : StateVector R) (weight : S) : StateVector R :=
  let root : R := Rounding.round (Scalar.sqrt weight)
  state.map (·.divReal root)

/-- What a measurement of one qudit found. -/
structure Collapse (S R : Type) where
  /-- The digit found. -/
  outcome : Nat
  /-- Its weight. -/
  weight : S
  /-- The state that remains. -/
  state : StateVector R

/-- Measures the qudit at one position. -/
def measureOne (d position : Nat) (state : StateVector R) : Sampling S (Collapse S R) := do
  let slices := (List.range d).map fun v => slice d position v state
  let weights : List S := slices.map chanceWeight
  let outcome ← sample weights
  let weight := weights.getD outcome 0
  return ⟨outcome, weight, (slices.getD outcome #[]).divRoot weight⟩

/-- The positions that remain after one position is gone. -/
def closeGap (position : Nat) (positions : List Nat) : List Nat :=
  positions.map fun p => if position < p then p - 1 else p

/-- Measures positions one after another: the outcomes, the product of their weights with a
product so far, and the state that remains. -/
def measureEach (d : Nat) (targets : List Nat) (state : StateVector R) (product : S) :
    Sampling S (List Nat × S × StateVector R) :=
  match targets with
  | [] => return ([], product, state)
  | p :: ps => do
    let found ← measureOne d p state
    let (outcomes, total, rest) ←
      -- the positions that are left are those of the smaller state
      measureEach d (closeGap p ps) found.state (product * found.weight)
    return (found.outcome :: outcomes, total, rest)
termination_by targets.length
decreasing_by simp [closeGap]

/-- Measures positions one after another in the basis of their digits. A position that is no
integer ends the measurement when it is reached. -/
def measureSequential (checking : Bool) (state : StateVector R) (targets : List Argument)
    (dim : Argument) : Sampling S (List Nat × S × StateVector R) := do
  let n ← quditCount state.size dim
  if targets.isEmpty then throw .noTargets
  checkPositions "target" targets n
  let d ← extentOf dim
  let places := leadingPlaces targets
  let (outcomes, product, rest) ← measureEach d places state 1
  -- the positions in front of one that is no integer were measured by then
  if places.length < targets.length then throw .wrongKind
  return (outcomes, product, ← rest.checked checking)

/-- The branch of a column of a basis: the amplitudes of the other qudits when the targets are
found in the state that the column describes. -/
def branchOfColumn (d n : Nat) (basis : Operator R) (targets : List Nat) (state : StateVector R)
    (column : Nat) : StateVector R :=
  let positions := ascending n targets
  build (d ^ (n - targets.length)) fun y =>
    Tensor.inner (fun b => (basis.entry b column).conj)
      (fun b => state.amplitude (placeDigits d targets b (makeRoom d positions y)))
      (d ^ targets.length)

/-- A branch divided by the root of its weight, and the zero vector for one without weight. -/
def normalizedBranch (branch : StateVector R) (weight : S) : StateVector R :=
  if 0 < weight then branch.divRoot weight else build branch.size fun _ => 0

/-- What a joint measurement found. -/
structure JointCollapse (S R : Type) where
  /-- The number of the column found. -/
  outcome : Nat
  /-- The weights of all columns. -/
  weights : List S
  /-- The states that would remain, for all columns. -/
  states : List (StateVector R)

/-- Refuses a basis without one row for each joint state of a number of targets. -/
def checkBasis (basis : Operator R) (count : Nat) (dim : Argument) : Except StateFault Unit := do
  let rows ← sizeOf dim count
  if basis.rank ≠ 2 ∨ !rows.sameValue (.int basis.rows) then throw (.basisShape rows basis.shape)

/-- Measures positions jointly in the basis given by the columns of a matrix. -/
def measure (checking : Bool) (state : StateVector R) (basis : Operator R)
    (targets : List Argument) (dim : Argument) : Sampling S (JointCollapse S R) := do
  let n ← quditCount state.size dim
  if targets.isEmpty then throw .noTargets
  checkPositions "target" targets n
  checkBasis basis targets.length dim
  let d ← extentOf dim
  let targets ← placesOf targets
  let branches := (List.range basis.columns).map fun column =>
    branchOfColumn d n basis targets state column
  let weights : List S := branches.map chanceWeight
  let states := branches.zipWith normalizedBranch weights
  let outcome ← sample weights
  -- only the state that remains is checked, and not those of the other columns
  let _ ← (states.getD outcome #[]).checked checking
  return ⟨outcome, weights, states⟩

end StateVector

end QuditSim
