import QuditSim.Circuit.Basic
import QuditSim.Engine.Layout
import QuditSim.Engine.Settings
import QuditSim.Logging.Event
import QuditSim.Noise.Model

/-!
# Engines

An engine holds what a circuit acts on: the state of the live qudits, the classical dits with
the probability of the outcome that each was written with, and the layout of the register. It
is bound to a circuit, which it never changes; its operations are given the circuit as it is
at the moment. Steps are executed in `Engine.Execution`.

Something may be done before every step: a hook that is handed the state, or a noise model
that acts on each live qudit and whose branches are recorded step by step.
-/

namespace QuditSim

/-- What can go wrong with an engine. -/
inductive EngineFault where
  /-- A failure with its place. -/
  | located (failure : Failure)
  /-- An argument of a kind that it cannot be. -/
  | wrongKind
  /-- Dits that cannot be listed. -/
  | extent (fault : ExtentFault)
  /-- A failure of an operation on states. -/
  | state (fault : StateFault)
  /-- A device that cannot be used. -/
  | device (fault : DeviceFault)
  /-- Settings that cannot be used. -/
  | settings (fault : SettingsFault)
  /-- A key that no operator is stored under. -/
  | unusedKey
  /-- A measurement in a basis of its own without one. -/
  | noBasis
  /-- A dit that is not there. -/
  | noDit
  /-- A place in the record of noise that is not there. -/
  | noRecord
  /-- A step whose record is of another sort than it claims to be. -/
  | wrongRecord (claimed : StepKind)
  /-- A negative value for a dit. -/
  | negativeValue (given : Argument)
  /-- A value for a dit that is not a number. -/
  | notNumber
  /-- An infinite value for a dit. -/
  | infinite

/-- The text of a fault, for those that have one. -/
def EngineFault.message? : EngineFault → Option String
  | located failure => some failure.message
  | state fault => fault.message?
  | device fault => fault.message?
  | settings fault => fault.message?
  | negativeValue given => some ("dit value must be non-negative, got " ++ given.text)
  | wrongKind | extent _ | unusedKey | noBasis | noDit | noRecord | wrongRecord _ | notNumber
  | infinite => none

/-- A fault of a layout as one of an engine. -/
def EngineFault.ofLayout : LayoutFault → EngineFault
  | .located failure => located failure
  | .wrongKind => wrongKind

/-- What is done before every step. -/
inductive PreStep (S R : Type) where
  /-- Nothing. -/
  | nothing
  /-- A hook is told whether norms are checked; it is handed the step, the live positions and the
  state, and answers with the state that the step is applied to. The places and positions of its
  calls are noted. -/
  | hook (act : Bool → StepView → List Nat → StateVector R → Except StateFault (StateVector R))
      (calls : List (Int × List Nat))
  /-- A noise model acts on every live qudit. The branches it picked are recorded by step. -/
  | noise (model : NoiseModel S) (branches : List (List Nat))

/-- The state of a run of a circuit. -/
structure Engine (S R : Type) where
  /-- The number of the circuit that the engine is bound to. -/
  serial : Nat
  /-- The settings. -/
  settings : EngineSettings
  /-- What is done before every step. -/
  preStep : PreStep S R
  /-- The state of the live qudits. -/
  state : StateVector R
  /-- The values of the dits. -/
  dits : List Nat
  /-- The probability with which each dit was written. -/
  probs : List S
  /-- Where the qudits are in the state. -/
  layout : Layout

/-- The place that an index names in a list of `n` items; a negative index counts from the
end. -/
def placeOf? (i : Int) (n : Nat) : Option Nat :=
  if 0 ≤ i then (if i < n then some i.toNat else none)
  else if -(n : Int) ≤ i then some (i + n).toNat
  else none

namespace Engine

variable {S R : Type}

/-- The values of dits that a list of indices names. -/
def ditValues (dits : List Nat) (indices : List Int) : Except EngineFault (List Nat) :=
  indices.mapM fun i =>
    match placeOf? i dits.length with
    | some place => .ok (dits.getD place 0)
    | none => .error .noDit

section Creation

/-- An engine at the start of a circuit. -/
def start [Scalar S] [Scalar R] (c : Circuit S) (settings : EngineSettings)
    (preStep : PreStep S R) : Engine S R where
  serial := c.serial
  settings := settings
  preStep := preStep
  state := StateVector.zero c.qudits c.dim
  dits := List.replicate c.dits 0
  probs := List.replicate c.dits 0
  layout := .start c.qudits

/-- A noise model before every step, with an empty record for each step that the circuit has. -/
def freshNoise (c : Circuit S) (model : NoiseModel S) : PreStep S R :=
  .noise model (List.replicate c.stepCount [])

/-- What is done before every step of a circuit, refused for a noise model of another
dimension. -/
def preStepFor (c : Circuit S) : Option (NoiseModel S) → Except EngineFault (PreStep S R)
  | none => .ok .nothing
  | some model =>
    if model.dim.sameValue (.nat c.dim) then .ok (freshNoise c model)
    else .error (.located (.inOperation "NoisyQuditEngine" (.noiseDimension model.dim c.dim)))

/-- Refuses settings for which there is no device or no generator of chance. -/
def checkSettings (settings : EngineSettings) : Except EngineFault Unit := do
  let _ ← settings.makeDevice.mapError .device
  match settings.generatorSeed? with
  | some seed =>
    let _ ← seed.mapError .settings
    return
  | none => return

/-- Refuses circuits whose state or whose dits cannot be held. -/
def checkExtents [Capacity] (c : Circuit S) : Except EngineFault Unit := do
  (StateVector.checkExtent c.qudits c.dim).mapError .state
  (checkListExtent Capacity.numbers c.dits).mapError .extent

end Creation

/-! ## Queries -/

/-- Whether the engine acts with noise. -/
def isNoisy (engine : Engine S R) : Bool :=
  match engine.preStep with
  | .noise .. => true
  | _ => false

/-- The branches of noise by step, for an engine with noise. -/
def noiseBranches? (engine : Engine S R) : Option (List (List Nat)) :=
  match engine.preStep with
  | .noise _ branches => some branches
  | _ => none

/-- Refuses, in an operation, a dit that is not there. -/
def checkDit (engine : Engine S R) (operation : String) (i : Argument) :
    Except EngineFault Unit :=
  match i.number? with
  | none => .error .wrongKind
  | some x =>
    if x.below 0 || x.atLeast engine.dits.length then
      .error (.located (.inOperation operation (.ditRange i engine.dits.length)))
    else .ok ()

/-- The place of a dit that is there. -/
def ditPlace (i : Argument) : Except EngineFault Nat :=
  match i.index? with
  | some place => .ok place.toNat
  | none => .error .wrongKind

/-- The value of a dit. -/
def dit (engine : Engine S R) (i : Argument) : Except EngineFault Nat := do
  engine.checkDit "get_dit" i
  return engine.dits.getD (← ditPlace i) 0

/-- The measured qudits in ascending order. -/
def measured (engine : Engine S R) : List Nat := engine.layout.measured

/-! ## Changes -/

/-- The value that is given for a dit, cut down to a whole number. -/
def ditValue (value : Argument) : Except EngineFault Nat :=
  match value.number? with
  | none => .error .wrongKind
  | some x =>
    if x.below 0 then .error (.negativeValue value)
    else
      match x.truncate?, x with
      | some n, _ => .ok n.toNat
      | none, .float y => .error (if y.isNaN then .notNumber else .infinite)
      | none, .int _ => .error .notNumber

/-- The engine with another value of a dit. -/
def setDit (engine : Engine S R) (i value : Argument) : Except EngineFault (Engine S R) := do
  engine.checkDit "set_dit" i
  let value ← ditValue value
  return { engine with dits := engine.dits.set (← ditPlace i) value }

/-- The engine at the start of its circuit again, with empty records of noise. -/
def reset [Scalar S] [Scalar R] (engine : Engine S R) (c : Circuit S) : Engine S R :=
  { engine with
    state := StateVector.zero c.qudits c.dim
    dits := List.replicate c.dits 0
    probs := List.replicate c.dits 0
    layout := engine.layout.reset
    preStep := match engine.preStep with
      | .noise model _ => freshNoise c model
      | preStep => preStep }

/-- What a reset has to tell. -/
def resetEvent (c : Circuit S) : Event :=
  ⟨Event.engineLogger, "engine reset for circuit " ++ Text.quoted c.name⟩

/-! ## Texts -/

/-- The text that shows the engine on one line. -/
def shown (engine : Engine S R) (c : Circuit S) : String :=
  (if engine.isNoisy then "NoisyQuditEngine" else "QuditEngine") ++ "(circuit=" ++
    Text.quoted c.name ++ ", measured=" ++ Text.naturals engine.measured ++ ", dits=" ++
    Text.naturals engine.dits ++ ")"

/-- The listing of the classical results: measured qudits, dits, probabilities, and branches
of noise where there is any. -/
def listing [Scalar S] (engine : Engine S R) : String :=
  "\n".intercalate
    (["measured: " ++ Text.naturals engine.measured,
      "dits: " ++ Text.naturals engine.dits,
      "probs: " ++ Text.listed (engine.probs.map fun p => Decimal.general 6 (Scalar.toFloat p))] ++
      match engine.noiseBranches? with
      | some branches => ["noise results: " ++ Text.listed (branches.map Text.naturals)]
      | none => [])

end Engine

end QuditSim
