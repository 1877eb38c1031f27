import QuditSim.Circuit.Cursor
import QuditSim.Engine.Basic

/-!
# Execution of steps

`Engine.execute` applies one step of a circuit to the engine, and `Engine.runAll` all of them in
order. A step goes through these stages, and a stage that fails ends it:

1. `Engine.resolve` finds the positions of its qudits, before anything is changed;
2. `Engine.prepare` does what is done before every step;
3. `Engine.performGate` or `Engine.performMeasurement` act on the state;
4. the norm of the state is checked, if the settings say so.

A computation in `Execution` keeps what it did before it failed.
-/

namespace QuditSim

/-- What an execution changes: the engine, the numbers that chance is made of, and what there
is to tell, in order. -/
structure Run (S R : Type) where
  /-- The engine. -/
  engine : Engine S R
  /-- The numbers that chance is made of. -/
  draws : Draws S
  /-- What there is to tell. -/
  events : List Event

/-- Computations that change a run and can fail. What was changed before a failure stays
changed. -/
abbrev Execution (S R α : Type) : Type := ExceptT EngineFault (StateM (Run S R)) α

namespace Engine

variable {S R : Type}

/-! ## Elementary executions -/

/-- The engine. -/
def current : Execution S R (Engine S R) := return (← get).engine

/-- Changes the engine. -/
def update (f : Engine S R → Engine S R) : Execution S R Unit :=
  modify fun run => { run with engine := f run.engine }

/-- Tells something. -/
def tell (logger text : String) : Execution S R Unit :=
  modify fun run => { run with events := run.events ++ [⟨logger, text⟩] }

/-- Tells several things. -/
def tellAll (events : List Event) : Execution S R Unit :=
  modify fun run => { run with events := run.events ++ events }

/-- A computation that draws, in an execution. -/
def drawing {α : Type} (sampling : Sampling S α) : Execution S R α := do
  let run ← get
  let (result, draws) := sampling.run run.draws
  set { run with draws := draws }
  match result with
  | .ok value => return value
  | .error fault => throw (.state fault)

/-- Replaces the state by its image under a map that can fail. -/
def passThrough (map : StateVector R → Except StateFault (StateVector R)) :
    Execution S R Unit := do
  let engine ← current
  match map engine.state with
  | .ok state => update fun engine => { engine with state := state }
  | .error fault => throw (.state fault)

/-! ## Resolving the qudits of a step -/

/-- A gate or a measurement whose qudits were found in the state. -/
inductive Task where
  /-- A gate. Its controls are positions, or the indices of dits. -/
  | gate (step : GateStep) (controls targets : List Int)
  /-- A measurement. -/
  | measurement (step : MeasureStep) (targets : List Int)

/-- The positions of live qudits. -/
def positions (engine : Engine S R) (indices : List Int) (ip : Int) :
    Except EngineFault (List Int) :=
  match engine.layout.resolve (indices.map .int) (some (.int ip)) with
  | .ok positions => .ok (positions.map Int.ofNat)
  | .error fault => .error (.ofLayout fault)

/-- The task that a step is, with the positions of its qudits. -/
def resolve (engine : Engine S R) (view : StepView) : Except EngineFault Task :=
  match view.kind, view.step with
  | .gate, .gate step => do
    if step.kind.isReserved then
      throw (.located (.atStep "execute" view.ip (.reserved step.kind.name)))
    -- targets are looked up first, so they are reported first when they were measured
    let targets ← engine.positions step.targets view.ip
    let controls ←
      if step.kind.isQuantumControlled then engine.positions step.controls view.ip
      else pure step.controls
    return .gate step controls targets
  | .measurement, .measure step => do
    return .measurement step (← engine.positions step.targets view.ip)
  | .none, _ => .error (.located (.atStep "execute" view.ip (.noAction .none)))
  -- a view made by hand may claim another kind of step than it holds
  | claimed, step => do
    let _ ← engine.positions step.targets view.ip
    throw (.wrongRecord claimed)

/-! ## Before a step -/

section Noise

variable [Scalar S] [Scalar R] [Rounding S R] [Rounding R S]

/-- The record of noise with one more branch at a place. -/
def addBranch (branches : List (List Nat)) (place branch : Nat) : List (List Nat) :=
  branches.modify place (· ++ [branch])

/-- Lets the noise model act on positions one after the other and records the branches at a
place. The answer is the state that results. -/
def noiseOn (place : Nat) : List Nat → StateVector R → Execution S R (StateVector R)
  | [], state => return state
  | position :: rest, state => do
    match (← current).preStep with
    | .noise model branches =>
      let (model, state) ← drawing (model.apply state position)
      update fun engine =>
        { engine with preStep := .noise model (addBranch branches place model.lastBranch) }
      tellAll (model.events position)
      noiseOn place rest state
    | _ => return state

/-- The record of noise with an empty list for every place up to the given one. -/
def extendedTo (ip : Int) (branches : List (List Nat)) : List (List Nat) :=
  branches ++ List.replicate (ip + 1 - branches.length).toNat []

/-- Lets the noise model act on every live qudit before a step. -/
def injectNoise (ip : Int) (model : NoiseModel S) (branches : List (List Nat)) :
    Execution S R Unit := do
  let branches := extendedTo ip branches
  update fun engine => { engine with preStep := .noise model branches }
  match placeOf? ip branches.length with
  | none => throw .noRecord
  | some place =>
    -- the live positions are read once, and the state is written back when all of them were passed
    let engine ← current
    let state ← noiseOn place engine.layout.livePositions engine.state
    let record := (((← current).noiseBranches?).getD []).getD place []
    tell Event.noisyLogger
      ("step " ++ toString ip ++ ": noise branches " ++ Text.naturals record)
    update fun engine => { engine with state := state }

/-- Does what is done before every step. -/
def prepare (checking : Bool) (view : StepView) : Execution S R Unit := do
  let engine ← current
  match engine.preStep with
  | .nothing => return
  | .hook act calls =>
    let live := engine.layout.livePositions
    -- the call is recorded before the hook acts, and stays so if it fails
    update fun engine => { engine with preStep := .hook act (calls ++ [(view.ip, live)]) }
    passThrough (act checking view live)
  | .noise model branches => injectNoise view.ip model branches

end Noise

/-! ## Gates -/

/-- The operator under a key of a circuit. -/
def operandOf (c : Circuit S) (key : Int) : Except EngineFault (Operator S) :=
  match c.operands.get? key with
  | some op => .ok op
  | none => .error .unusedKey

/-- The common value of the items of a list, if they agree. An empty list has none. -/
def commonValue? : List Nat → Option Nat
  | [] => none
  | v :: rest => if rest.all (· == v) then some v else none

section Gates

variable [Scalar S] [Scalar R] [Rounding S R]

/-- The operator that a controlled gate applies to its targets jointly. -/
def jointOperand (c : Circuit S) (step : GateStep) (count : Nat) :
    Except EngineFault (Operator S) := do
  let op ← operandOf c step.key
  match step.kind with
  -- one factor for each target, while a gate with its own operator has the size already
  | .controlled _ _ .multiple => (op.tensorPower (.nat count)).mapError .state
  | _ => return op

/-- A map of states. -/
abbrev StateMap (R : Type) : Type := StateVector R → Except StateFault (StateVector R)

/-- The action of an operator on targets. -/
def action (checking : Bool) (c : Circuit S) (op : Operator S) (targets : List Int) : StateMap R :=
  fun state => state.apply checking (Rounding.round op) (targets.map .int) (.nat c.dim)

/-- The maps that a gate under control of dits applies: none when the dits differ, and
otherwise the power of the operator that is their common value. Without dits the operator
itself acts. -/
def classicalMaps (checking : Bool) (c : Circuit S) (op : Operator S) (values : List Nat)
    (targets : List Int) : Except EngineFault (List (StateMap R)) :=
  match values with
  | [] => .ok [action checking c op targets]
  | values =>
    match commonValue? values with
    | none => .ok []
    | some value =>
      match op.power (.nat value) with
      | .ok op => .ok [action checking c op targets]
      | .error fault => .error (.state fault)

/-- The maps that a gate applies to the state one after the other. -/
def gateMaps (checking : Bool) (c : Circuit S) (dits : List Nat) (step : GateStep)
    (controls targets : List Int) : Except EngineFault (List (StateMap R)) :=
  match step.kind with
  | .none | .fourier | .inverseFourier => .ok []
  | .single | .two | .three | .custom => do
    let op ← operandOf c step.key
    return [action checking c op targets]
  | .fan => do
    let op ← operandOf c step.key
    -- one map for each target, so a refusal can come when some targets were acted on
    return targets.map fun t => action checking c op [t]
  | .controlled .quantum _ _ | .controlledCustom .quantum => do
    let op ← jointOperand c step targets.length
    -- all targets are acted on jointly, and the digits of the controls choose the power
    return [fun state =>
      state.applyControlled checking (Rounding.round op) (controls.map .int) (targets.map .int)
        (.nat c.dim)]
  | .controlled .classical _ _ | .controlledCustom .classical => do
    let op ← jointOperand c step targets.length
    let values ← ditValues dits controls
    classicalMaps checking c op values targets

/-- What a gate that is skipped has to tell. -/
def skipTexts (dits : List Nat) (step : GateStep) (ip : Int) : List String :=
  if step.kind.isClassicallyControlled then
    match ditValues dits step.controls with
    | .ok values =>
      if values ≠ [] ∧ commonValue? values = none then
        ["step " ++ toString ip ++ " skipped: control dits " ++ Text.naturals values ++ " disagree"]
      else []
    | .error _ => []
  else []

/-- Applies a gate. -/
def performGate (checking : Bool) (c : Circuit S) (ip : Int) (step : GateStep)
    (controls targets : List Int) : Execution S R Unit := do
  let engine ← current
  -- all maps are made before the first one acts on the state
  let maps ← gateMaps checking c engine.dits step controls targets
  tellAll ((skipTexts engine.dits step ip).map fun text => ⟨Event.engineLogger, text⟩)
  maps.forM passThrough

end Gates

/-! ## Measurements -/

section Measurements

variable [Scalar S] [Scalar R] [Rounding S R] [Rounding R S]

/-- Writes an outcome with its probability into a dit. -/
def writeDit (dit : Int) (outcome : Nat) (prob : S) : Execution S R Unit := do
  match placeOf? dit (← current).dits.length with
  | none => throw .noDit
  | some place =>
    update fun engine =>
      { engine with dits := engine.dits.set place outcome, probs := engine.probs.set place prob }

/-- Marks qudits as measured. -/
def retire (indices : List Int) (ip : Int) : Execution S R Unit := do
  let (layout, fault) := (← current).layout.retireAll (some (.int ip)) (indices.map .int)
  update fun engine => { engine with layout := layout }
  match fault with
  | none => return
  | some fault => throw (.ofLayout fault)

/-- Takes over what a measurement found: the state that remains, the outcome and its
probability. -/
def record (step : MeasureStep) (ip : Int) (state : StateVector R) (outcome : Nat) (prob : S) :
    Execution S R Unit := do
  update fun engine => { engine with state := state }
  writeDit step.dit outcome prob
  retire step.targets ip

/-- What a measurement has to tell. -/
def outcomeText (ip : Int) (qudits : String) (outcome : Nat) (prob : S) : String :=
  "step " ++ toString ip ++ ": " ++ qudits ++ " -> " ++ toString outcome ++ " (p=" ++
    Decimal.general 6 (Scalar.toFloat prob) ++ ")"

/-- Carries out a measurement. -/
def performMeasurement (checking : Bool) (c : Circuit S) (ip : Int) (step : MeasureStep)
    (targets : List Int) : Execution S R Unit := do
  let engine ← current
  match step.kind with
  | .none => return
  | .standard =>
    let (outcomes, prob, state) ←
      drawing (engine.state.measureSequential checking (targets.map .int) (.nat c.dim))
    -- one target has one outcome
    let outcome := outcomes.headD 0
    record step ip state outcome prob
    tell Event.engineLogger
      (outcomeText ip ("qudit " ++ Text.tupled (step.targets.map toString)) outcome prob)
  | .basis | .jointBasis =>
    match step.keys.head? with
    | none => throw .noBasis
    | some key =>
      let basis ← operandOf c key
      let found ← drawing (engine.state.measure checking (Rounding.round basis)
        (targets.map .int) (.nat c.dim))
      let prob := found.weights.getD found.outcome 0
      record step ip (found.states.getD found.outcome #[]) found.outcome prob
      tell Event.engineLogger
        (outcomeText ip ("qudits " ++ Text.integers step.targets) found.outcome prob)

end Measurements

/-! ## Steps -/

section Steps

variable [Scalar S] [Scalar R] [Rounding S R] [Rounding R S]

/-- Refuses a state whose norm is not one. -/
def checkNorm : Execution S R Unit := do
  let engine ← current
  if engine.settings.checkNormalization then
    match engine.state.assertNormalized normTolerance with
    | .ok () => return
    | .error fault => throw (.state fault)

/-- What is told when a step is about to be applied. -/
def stepText (view : StepView) : String :=
  "executing step " ++ toString view.ip ++ ": " ++ view.step.kindName ++ " " ++
    Text.quoted view.step.name

/-- Applies the step of a view. The circuit is the one that the engine is bound to; `checking`
tells whether operations on states check the norms of their results. -/
def execute (checking : Bool) (c : Circuit S) (view : StepView) : Execution S R Unit := do
  let engine ← current
  if view.origin ≠ engine.serial then
    throw (.located (.atStep "execute" view.ip .foreignStep))
  -- nothing is written before the qudits were found
  let task ← engine.resolve view
  prepare checking view
  tell Event.engineLogger (stepText view)
  -- the norm is checked when everything was written
  match task with
  | .gate step controls targets => performGate checking c view.ip step controls targets
  | .measurement step targets => performMeasurement checking c view.ip step targets
  checkNorm

/-- Applies all steps of a circuit in order. -/
def runAll (checking : Bool) (c : Circuit S) : Execution S R Unit :=
  c.views.forM (execute checking c)

/-- The engine and what is left of chance after a whole run. -/
def afterRun (checking : Bool) (c : Circuit S) (engine : Engine S R) (draws : Draws S) :
    Except EngineFault (Engine S R × Draws S) :=
  match (runAll checking c).run.run ⟨engine, draws, []⟩ with
  | (.ok (), run) => .ok (run.engine, run.draws)
  | (.error fault, _) => .error fault

end Steps

/-- The view of the step that a cursor stands on, with the cursor after it was read. The cursor
must not walk over another circuit than that of the engine. -/
def viewAt (engine : Engine S R) (attached : Option (Circuit S)) (cursor : Cursor) :
    Except Failure (StepView × Cursor) :=
  if attached.any fun c => c.serial ≠ engine.serial then
    .error (.atStep "execute" cursor.ip .foreignCursor)
  else cursor.deref attached

end Engine

end QuditSim
