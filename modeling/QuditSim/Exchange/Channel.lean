import QuditSim.Exchange.Tensor
import QuditSim.Noise.Model

/-!
# Descriptions of noise

A channel is described by the name of a common channel with its arguments, or by its own name,
its dimension and its operators (`Channel.ofJson`).
-/

namespace QuditSim

variable [Capacity]

/-- The name of the kind of a list of parts, or of a single entry. -/
def BranchItem.kindOfParts (re : Json) (im : Option Json) : String :=
  match re, im with
  | .array _, _ | _, none => re.kindName
  | _, some _ => "complex"

/-- What a description offers as the operator of a branch. -/
def BranchItem.ofJson (json : Json) : Reading (BranchItem Float) :=
  match json.get? "raw", json.get? "tensor" with
  | some value, _ => .ok (.foreign value.kindName)
  | none, some (.bool false) =>
    .ok (.foreign (kindOfParts ((json.get? "re").getD (.array [])).withSpecials (json.given? "im")))
  | none, _ => (TypedTensor.ofJson json).map fun t => .operator t.toDouble

namespace Channel

/-- The common channels that take a probability, by name. -/
def qubitMaker? : String → Option (Written Float → Except ChannelFault (Channel Float))
  | "bit_flip" => some bitFlip
  | "phase_flip" => some phaseFlip
  | "bit_phase_flip" => some bitPhaseFlip
  | "depolarizing" => some depolarizing
  | "amplitude_damping" => some amplitudeDamping
  | "phase_damping" => some phaseDamping
  | _ => none

/-- A maker of channels from a probability and a dimension. -/
abbrev QuditMaker : Type := Written Float → Argument → Except ChannelFault (Channel Float)

/-- The common channels that take a probability and a dimension, by name, with what the
probability is called. -/
def quditMaker? : String → Option (String × QuditMaker)
  | "qudit_depolarizing" => some (depolarizingLabel, quditDepolarizing)
  | "qudit_dephasing" => some (dephasingLabel, quditDephasing)
  | _ => none

/-- The probability that an argument gives. -/
def probability (json : Json) : Reading (Written Float) :=
  match json.writtenFloat? with
  | some p => .ok p
  | none => .error .wrongKind

/-- The common channel of a name with arguments. -/
def make (name : String) (args : List Json) : Reading (Channel Float) :=
  match qubitMaker? name, quditMaker? name, args with
  | some make, _, [p] => do (make (← probability p)).mapError .channel
  | _, some (label, make), [p, dim] => do
    let p ← probability p
    (checkProbability p label).mapError .channel
    let d ← (quditDimension dim.argument).mapError .dimension
    (checkMatrixExtent d).mapError .extent
    (make p dim.argument).mapError .channel
  | _, _, _ => .error .wrongKind

/-- The channel that a description gives. -/
def ofJson (json : Json) : Reading (Channel Float) := do
  match json.text? "factory" with
  | some name => make name (json.items "args")
  | none =>
    let name ← json.member "name"
    let items ← (json.items "ops").mapM BranchItem.ofJson
    (create name items (json.argumentOr "dim" (.nat 2))).mapError .channel

end Channel

end QuditSim
