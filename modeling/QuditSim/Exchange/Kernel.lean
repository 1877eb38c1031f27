import QuditSim.Exchange.Device
import QuditSim.Exchange.Display
import QuditSim.Exchange.Tensor
import QuditSim.State.Measure

/-!
# Requests on states

An operation on states is asked for by its name, with the state, the operators and the other
arguments as members (`StateRequest.carryOut`). Arguments are taken as they are given: the
operations compare them as numbers before they use them as indices.

`StateRequest.checkNorm` answers requests about norms.
-/

namespace QuditSim.StateRequest

variable [Capacity]

/-! ## Arguments -/

/-- A computation on states that was carried out. -/
def onStates {α : Type} (result : Except StateFault α) : Reading α := result.mapError .state

/-- The tensor of the operator of a request. -/
def tensorU (json : Json) : Reading TypedTensor := (json.member "U").bind TypedTensor.ofJson

/-- The tensor of the state of a request. -/
def stateTensor (json : Json) : Reading TypedTensor :=
  (json.member "state").bind TypedTensor.stateOfJson

/-- The dimension of the qudits of a request. -/
def dimOf (json : Json) : Argument := json.argumentOr "dim" (.nat 2)

/-- The list of positions of a request. -/
def positionsOf (json : Json) (name : String) : Reading ArgumentList :=
  (json.member name).map Json.argumentList

/-- An answer made from the state of a request. -/
def onState (json : Json)
    (f : {R : Type} → [Scalar R] → [Precision R] → StateVector R → Reading Json) :
    Reading Json := do
  (← onStates (← stateTensor json).state?).elim f

/-- A sampling carried out with the numbers of a request. -/
def sampled {α : Type} (json : Json) (sampling : Sampling Float α) : Reading α :=
  onStates (sampling.run json.draws).1

section Targets

variable {R : Type} [Scalar R]

/-- The items of a list of positions. What is no list is refused after the qudits of the state
were counted. -/
def itemsOf (state : StateVector R) (dim : Argument) : ArgumentList →
    Except StateFault (List Argument)
  | .items items => .ok items
  | .single => do
    let _ ← StateVector.quditCount state.size dim
    throw .wrongKind

/-- The state after an operator acted on positions under control of others. What is no list of
controls is refused at once. -/
def controlled (checking : Bool) (state : StateVector R) (op : Operator R)
    (controls targets : ArgumentList) (dim : Argument) : Except StateFault (StateVector R) := do
  match controls with
  | .single => throw .wrongKind
  | .items controls =>
    state.applyControlled checking op controls (← itemsOf state dim targets) dim

end Targets

/-! ## Operations -/

/-- A state whose qudits are all in their state zero. -/
def zeroState (json : Json) : Reading Json := do
  let n ← json.argumentMember "n"
  let spec ← if json.textMember "via" == "backend" then do
      let type ← json.elementType .complex128
      pure (.device (← (Device.create? (Text.quoted "cpu") .processor type).mapError .device))
    else DeviceSpec.ofJson ((json.get? "device").getD .null)
  onStates (StateVector.checkRegister n (dimOf json))
  let device ← (Device.resolve? spec).mapError .device
  let type ← json.elementType device.elementType
  let state : StateVector Float ← onStates (StateVector.zeroOf n (dimOf json))
  let t := TypedTensor.basisState type state.size 0
  match t.state? with
  | .ok state => return state.elim StateVector.display
  | .error _ => return t.display

/-- Whether the Kronecker product of copies of a tensor has more entries than can be held. -/
def isTooLarge (t : TypedTensor) (n : Argument) : Bool :=
  let size := t.shape.prod
  match n.index? with
  | some count => 2 ≤ size && 1 ≤ count && (64 ≤ count || Capacity.amplitudes ≤ size ^ count.toNat)
  | none => false

/-- The Kronecker product of copies of a tensor. -/
def tensorPower (json : Json) : Reading Json := do
  let t ← tensorU json
  let n ← json.argumentMember "n"
  if isTooLarge t n then throw (.state .tooLarge)
  return (← onStates (t.tensorPower n)).display

/-- The vectors that several operators make of a state. -/
def branches (json : Json) : Reading Json := do
  let ops ← (json.items "ops").mapM TypedTensor.ofJson
  let position ← json.argumentMember "position"
  onState json fun state => do
    return .array ((← onStates (state.branches (ops.map Precision.operator) position
      (dimOf json))).map StateVector.display)

/-- An index drawn with given weights. -/
def sampleIndex (json : Json) : Reading Json := do
  let type ← json.elementType .float64
  let weights := (← json.member "weights").withSpecials
  let t ← (TypedTensor.ofEntries type weights).mapError .entry
  return .nat (← onStates (QuditSim.sampleIndex t.toFloat64.entries.toList json.draws.current))

/-- What measuring positions one after another found. -/
def measureSequential (json : Json) (checking : Bool) : Reading Json := do
  let targets ← positionsOf json "targets"
  onState json fun {R} _ _ state => do
    let targets ← onStates (itemsOf state (dimOf json) targets)
    let (outcomes, product, rest) ←
      sampled json (state.measureSequential checking targets (dimOf json))
    return .object [("outcomes", .naturals outcomes),
      ("probability", Precision.chance R product), ("state", rest.display)]

/-- The weight from which on the state of an outcome is displayed. -/
def shownWeight : Float := 1e-12

/-- What measuring positions jointly found. -/
def measure (json : Json) (checking : Bool) : Reading Json := do
  let basis ← (json.member "basis").bind TypedTensor.ofJson
  let targets ← positionsOf json "targets"
  onState json fun {R} _ _ state => do
    let targets ← onStates (itemsOf state (dimOf json) targets)
    let found ← sampled json
      (state.measure checking (Precision.operator basis) targets (dimOf json))
    let states := found.states.zipWith (fun state weight =>
      if json.flag "exact" || !(weight ≤ shownWeight) then state.display else .null) found.weights
    return .object [("outcome", .nat found.outcome), ("probs", Precision.chances R found.weights),
      ("states", .array states)]

/-- The answer to a request for an operation on states. -/
def carryOut (json : Json) (checking : Bool) : Reading Json := do
  let dim := dimOf json
  match json.textMember "fn" with
  | "zero_state" => zeroState json
  | "num_qudits" =>
    onState json fun state => do return .nat (← onStates (StateVector.quditCount state.size dim))
  | "power" =>
    return (← onStates ((← tensorU json).power (← json.argumentMember "exponent"))).display
  | "tensor_power" => tensorPower json
  | "apply" =>
    let op ← tensorU json
    let targets ← positionsOf json "targets"
    onState json fun state => do
      let targets ← onStates (itemsOf state dim targets)
      return (← onStates (state.apply checking (Precision.operator op) targets dim)).display
  | "apply_controlled" =>
    let op ← tensorU json
    let controls ← positionsOf json "controls"
    let targets ← positionsOf json "targets"
    onState json fun state => do
      return (← onStates
        (controlled checking state (Precision.operator op) controls targets dim)).display
  | "kraus_branches" => branches json
  | "measure_probs" =>
    let weights ← onStates (← stateTensor json).weights
    return .nested weights.shape (weights.displayParts.flatMap (·.2))
  | "sample_index" => sampleIndex json
  | "measure_sequential" => measureSequential json checking
  | "measure" => measure json checking
  | other => throw (.missing other)

/-- The answer to a request about norms. -/
def checkNorm (json : Json) : Reading Json := do
  let t ← stateTensor json
  if json.textMember "fn" == "state_norm" then return (← onStates t.norms).display
  let tolerance := ((json.get? "atol").map Json.numeric).getD (.float 1e-6)
  onStates (t.assertNormalized tolerance)
  return .null

end QuditSim.StateRequest
