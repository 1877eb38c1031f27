import QuditSim.Gate.Standard
import QuditSim.Json.Basic

/-!
# Noise channels

A channel on one qudit is a list of operators whose products with their adjoints sum to the
identity: `Channel.create` refuses operators that miss it by more than a tolerance. The
functions `Channel.bitFlip` to `Channel.quditDephasing` make the common channels from a
probability.
-/

namespace QuditSim

/-- A channel on one qudit. -/
structure Channel (S : Type) where
  /-- The name of the channel, which can be any value. -/
  name : Json
  /-- The dimension of the qudit. -/
  dim : Nat
  /-- The operators of the branches. -/
  ops : List (Operator S)

/-- What is offered as the operator of a branch. -/
inductive BranchItem (S : Type) where
  /-- An operator. -/
  | operator (op : Operator S)
  /-- Another value, by the name of its kind. -/
  | foreign (kind : String)

/-- Why there is no such channel. -/
inductive ChannelFault where
  /-- The dimension is no integer. -/
  | wrongKind
  /-- The dimension is below two. -/
  | smallDimension (given : Argument)
  /-- There is no operator. -/
  | noOperators
  /-- The item at a place is no operator. -/
  | notOperator (place : Nat) (kind : String)
  /-- The operator at a place has not two indices. -/
  | notMatrix (place rank : Nat)
  /-- The operator at a place has not the shape of the dimension. -/
  | wrongShape (place : Nat) (dim : Argument) (shape : List Nat)
  /-- The products do not sum to the identity. -/
  | notPreserving (deviation : Float)
  /-- A probability is outside of the unit interval. -/
  | notProbability (label given : String)
  /-- The gates of the channel have no such dimension. -/
  | gateDimension (fault : DimensionFault)

/-- The text of a fault, for those that have one. -/
def ChannelFault.message? : ChannelFault → Option String
  | wrongKind => none
  | smallDimension given => some ("dim must be at least 2, got " ++ given.text)
  | noOperators => some "kraus_ops must contain at least one operator."
  | notOperator place kind =>
    some ("Kraus operator " ++ toString place ++ " must be a torch.Tensor, got <class '" ++ kind ++
      "'>")
  | notMatrix place rank =>
    some ("Kraus operator " ++ toString place ++ " must be 2D, got " ++ toString rank ++
      " dimensions")
  | wrongShape place dim shape =>
    some ("Kraus operator " ++ toString place ++ " must have shape (" ++ dim.text ++ ", " ++
      dim.text ++ "), got " ++ Text.shape shape)
  | notPreserving deviation =>
    some ("Kraus operators do not define a trace-preserving channel (sum K^dagger K != I). " ++
      "Max difference: " ++ Decimal.scientific 2 deviation)
  | notProbability label given => some (label ++ " must be in [0, 1], got " ++ given)
  | gateDimension fault => fault.message?

/-- The larger of two scalars; one that is not a number is the larger one. -/
def Scalar.largest {S : Type} [Scalar S] (x y : S) : S :=
  if x < y then y else if y ≤ x then x else x + y

namespace Channel

section Preservation

variable {S : Type} [Scalar S]

/-- The sum of the products of the operators with their adjoints. -/
def total (dim : Nat) (ops : List (Operator S)) : Operator S :=
  ops.foldl (fun sum op => sum.add (op.adjoint * op)) (.matrix dim dim fun _ _ => 0)

/-- The largest distance of an entry of the sum from that of the identity. -/
def deviation (dim : Nat) (ops : List (Operator S)) : S :=
  let total := total dim ops
  ((List.range (dim * dim)).map fun i => (total.get i - (Tensor.identity dim).get i).modulus).foldl
    Scalar.largest 0

/-- Whether the products of the operators sum to the identity up to a tolerance. -/
def isTracePreserving (channel : Channel S) (tolerance : S) : Bool :=
  decide (deviation channel.dim channel.ops ≤ tolerance)

/-- How far the sum may be from the identity when nothing else is said. -/
def standardTolerance : S := 1e-7

/-- Refuses a dimension below two. -/
def checkDimension (dim : Argument) : Except ChannelFault Unit :=
  match dim.number? with
  | none => .error .wrongKind
  | some d => if d.below 2 then .error (.smallDimension dim) else .ok ()

/-- The operator that an item offers for a place of a channel. -/
def operatorOf (dim : Argument) (place : Nat) : BranchItem S → Except ChannelFault (Operator S)
  | .foreign kind => .error (.notOperator place kind)
  | .operator op =>
    if op.rank ≠ 2 then .error (.notMatrix place op.rank)
    else if op.shape.any fun n => !dim.sameValue (.nat n) then
      .error (.wrongShape place dim op.shape)
    else .ok op

/-- The channel with the given operators. -/
def create (name : Json) (items : List (BranchItem S)) (dim : Argument) :
    Except ChannelFault (Channel S) := do
  checkDimension dim
  if items.isEmpty then throw .noOperators
  let ops ← items.zipIdx.mapM fun (item, place) => operatorOf dim place item
  let some d := dim.index? | throw .wrongKind
  let deviation := deviation d.toNat ops
  if standardTolerance < deviation then throw (.notPreserving (Scalar.toFloat deviation))
  return ⟨name, d.toNat, ops⟩

/-- What the probability of depolarizing is called in messages. -/
def depolarizingLabel : String := "Depolarizing probability p"

/-- What the probability of dephasing is called in messages. -/
def dephasingLabel : String := "Dephasing probability p"

/-- Refuses a probability outside of the unit interval. -/
def checkProbability (p : Written S) (label : String) : Except ChannelFault Unit :=
  if p.value < 0 ∨ 1 < p.value then .error (.notProbability label p.text) else .ok ()

/-- The channel of two qubit operators, the first one for no error. -/
def ofPair (name : String) (op error : Operator S) : Except ChannelFault (Channel S) :=
  create (.string name) [.operator op, .operator error] (.nat 2)

/-- The identity of a qubit with the weight of no error, and an operator with the weight of an
error. -/
def flip (p : Written S) (label name : String) (error : Operator S) :
    Except ChannelFault (Channel S) := do
  checkProbability p label
  ofPair (name ++ "(p=" ++ p.text ++ ")")
    ((Tensor.identity 2).scale (Scalar.sqrt (1 - p.value))) (error.scale (Scalar.sqrt p.value))

/-- A bit flip with probability `p`. -/
def bitFlip (p : Written S) : Except ChannelFault (Channel S) :=
  flip p "Bit-flip probability p" "bit_flip" Gate.pauliX

/-- A phase flip with probability `p`. -/
def phaseFlip (p : Written S) : Except ChannelFault (Channel S) :=
  flip p "Phase-flip probability p" "phase_flip" Gate.pauliZ

/-- A bit flip and a phase flip together with probability `p`. -/
def bitPhaseFlip (p : Written S) : Except ChannelFault (Channel S) :=
  flip p "Bit-phase-flip probability p" "bit_phase_flip" Gate.pauliY

/-- One of the three flips, each with a third of the probability. -/
def depolarizing (p : Written S) : Except ChannelFault (Channel S) := do
  checkProbability p depolarizingLabel
  let root := Scalar.sqrt (p.value / (1 + 1 + 1))
  create (.string ("depolarizing(p=" ++ p.text ++ ")"))
    [.operator ((Tensor.identity 2).scale (Scalar.sqrt (1 - p.value))),
      .operator (Gate.pauliX.scale root), .operator (Gate.pauliY.scale root),
      .operator (Gate.pauliZ.scale root)] (.nat 2)

/-- The decay of the upper state of a qubit with probability `gamma`. -/
def amplitudeDamping (gamma : Written S) : Except ChannelFault (Channel S) := do
  checkProbability gamma "Damping parameter gamma"
  ofPair ("amplitude_damping(gamma=" ++ gamma.text ++ ")")
    (Gate.ofRows [[1, 0], [0, .ofReal (Scalar.sqrt (1 - gamma.value))]])
    (Gate.ofRows [[0, .ofReal (Scalar.sqrt gamma.value)], [0, 0]])

/-- The loss of phase of a qubit with probability `gamma`. -/
def phaseDamping (gamma : Written S) : Except ChannelFault (Channel S) := do
  checkProbability gamma "Damping parameter gamma"
  ofPair ("phase_damping(gamma=" ++ gamma.text ++ ")")
    (Gate.ofRows [[1, 0], [0, .ofReal (Scalar.sqrt (1 - gamma.value))]])
    (Gate.ofRows [[0, 0], [0, .ofReal (Scalar.sqrt gamma.value)]])

end Preservation

section Qudits

variable {S : Type} [Angles S]

/-- The products of powers of the shift and the clock, without the identity: the powers of the
clock run faster. -/
def weylOperators (d : Nat) : List (Operator S) :=
  ((List.range d).flatMap fun a => (List.range d).map fun b => (a, b)).filterMap fun (a, b) =>
    if a = 0 ∧ b = 0 then none else some ((Gate.shift d).pow a * (Gate.clock d).pow b)

/-- Any of the products of powers of the shift and the clock other than the identity, all
equally likely, with probability `p` together. -/
def quditDepolarizing (p : Written S) (dim : Argument) : Except ChannelFault (Channel S) := do
  checkProbability p depolarizingLabel
  let d ← (quditDimension dim).mapError .gateDimension
  let root := Scalar.sqrt (p.value / Scalar.ofNat (d * d - 1))
  create (.string ("qudit_depolarizing(p=" ++ p.text ++ ", d=" ++ dim.text ++ ")"))
    (.operator ((Tensor.identity d).scale (Scalar.sqrt (1 - p.value))) ::
      (weylOperators d).map fun op => .operator (op.scale root)) dim

/-- Any of the powers of the clock other than the identity, all equally likely, with
probability `p` together. -/
def quditDephasing (p : Written S) (dim : Argument) : Except ChannelFault (Channel S) := do
  checkProbability p dephasingLabel
  let d ← (quditDimension dim).mapError .gateDimension
  let root := Scalar.sqrt (p.value / Scalar.ofNat (d - 1))
  create (.string ("qudit_dephasing(p=" ++ p.text ++ ", d=" ++ dim.text ++ ")"))
    (.operator ((Tensor.identity d).scale (Scalar.sqrt (1 - p.value))) ::
      (List.range (d - 1)).map fun b => .operator (((Gate.clock d).pow (b + 1)).scale root)) dim

end Qudits

end Channel

end QuditSim
