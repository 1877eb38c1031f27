import QuditSim.Engine.Execution
import QuditSim.State.Typed

/-!
# Engines of either precision

The element type in the settings decides in which precision an engine keeps its state. A
`TypedEngine` is an engine of one of the two precisions. Chance is shared between engines of
both: `TypedEngine.carryOut` takes numbers and tells which are left.
-/

namespace QuditSim

/-- An engine in one of the two precisions. -/
inductive TypedEngine where
  /-- Single precision. -/
  | single (engine : Engine Float Float32)
  /-- Double precision. -/
  | double (engine : Engine Float Float)

/-- What goes along with an engine and is asked before every step. -/
inductive Companion where
  /-- Nothing. -/
  | absent
  /-- The noise of a channel. -/
  | channel (channel : Channel Float)
  /-- A noise model that only records, for qudits of a dimension. -/
  | recording (dim : Argument)
  /-- A watcher that notes the live positions, and that lets an operator act on the first one
  if it has any. -/
  | watcher (op : Option TypedTensor)

namespace Companion

section Precise

variable {R : Type} [Scalar R] [Precision R]

/-- What a watcher does before a step. -/
def watch (checking : Bool) (dim : Nat) (op : Option TypedTensor) (live : List Nat)
    (state : StateVector R) : Except StateFault (StateVector R) :=
  match op, live with
  | some op, p :: _ => state.apply checking (Precision.operator op) [.nat p] (.nat dim)
  | _, _ => .ok state

/-- What is done before every step of a circuit. -/
def preStep (c : Circuit Float) :
    Companion → Except EngineFault (PreStep Float R)
  | absent => .ok .nothing
  | channel noise => Engine.preStepFor c (some (.trajectory (.start noise)))
  | recording dim => Engine.preStepFor c (some (.recording dim 0))
  | watcher op => .ok (.hook (fun checking _ live state => watch checking c.dim op live state) [])

end Precise

end Companion

namespace TypedEngine

/-- A function of an engine that is given for every precision. -/
def elim {α : Type} (engine : TypedEngine)
    (f : {R : Type} → [Scalar R] → [Precision R] → Engine Float R → α) : α :=
  match engine with
  | single engine => f engine
  | double engine => f engine

/-- A change of an engine that is given for every precision. -/
def change? {ε : Type} (engine : TypedEngine)
    (f : {R : Type} → [Scalar R] → [Precision R] → Engine Float R → Except ε (Engine Float R)) :
    Except ε TypedEngine :=
  match engine with
  | single engine => (f engine).map single
  | double engine => (f engine).map double

/-- The number of the circuit that the engine is bound to. -/
def serial (engine : TypedEngine) : Nat := engine.elim (·.serial)

/-- The settings of the engine. -/
def settings (engine : TypedEngine) : EngineSettings := engine.elim (·.settings)

/-- The element type of the state. -/
def elementType : TypedEngine → ElementType
  | single _ => .complex64
  | double _ => .complex128

/-- An engine at the start of a circuit, with a state of the given element type. The noise model
has to fit the circuit, and then `check` is made before anything is held. -/
def startChecked [Capacity] (check : Except EngineFault Unit) (c : Circuit Float)
    (settings : EngineSettings) (type : ElementType) (companion : Companion) :
    Except EngineFault TypedEngine := do
  match type with
  | .complex64 => do
    let preStep ← companion.preStep c
    check
    Engine.checkExtents c
    return single (Engine.start c settings preStep)
  | _ => do
    let preStep ← companion.preStep c
    check
    Engine.checkExtents c
    return double (Engine.start c settings preStep)

/-- An engine whose state has the given element type, whatever its settings say. -/
def start [Capacity] (c : Circuit Float) (settings : EngineSettings) (type : ElementType)
    (companion : Companion) : Except EngineFault TypedEngine :=
  startChecked (.ok ()) c settings type companion

/-- An engine whose state has the element type of its settings. The settings are refused when
there is no device or no generator for them. -/
def create [Capacity] (c : Circuit Float) (settings : EngineSettings) (companion : Companion) :
    Except EngineFault TypedEngine :=
  startChecked (Engine.checkSettings settings) c settings settings.elementType companion

/-- The text that shows the engine on one line. -/
def shown (engine : TypedEngine) (c : Circuit Float) : String := engine.elim (·.shown c)

/-- The engine at the start of its circuit again. -/
def reset (engine : TypedEngine) (c : Circuit Float) : TypedEngine :=
  match engine with
  | single engine => single (engine.reset c)
  | double engine => double (engine.reset c)

/-- The engine with another value of a dit. -/
def setDit (engine : TypedEngine) (i value : Argument) : Except EngineFault TypedEngine :=
  engine.change? fun engine => engine.setDit i value

/-- What came out of an execution. -/
structure Outcome where
  /-- Whether it failed. -/
  result : Except EngineFault Unit
  /-- The engine after it. -/
  engine : TypedEngine
  /-- What is left of chance. -/
  draws : Draws Float
  /-- What there is to tell. -/
  events : List Event

/-- What comes out of an execution in one precision. -/
def outcomeIn {R : Type} (typed : Engine Float R → TypedEngine) (engine : Engine Float R)
    (draws : Draws Float) (execution : Execution Float R Unit) : Outcome :=
  let (result, run) := execution.run.run ⟨engine, draws, []⟩
  ⟨result, typed run.engine, run.draws, run.events⟩

/-- What comes out of an execution that is given for every precision. -/
def carryOut (engine : TypedEngine) (draws : Draws Float)
    (execution : {R : Type} → [Scalar R] → [Precision R] → Execution Float R Unit) : Outcome :=
  match engine with
  | single engine => outcomeIn single engine draws execution
  | double engine => outcomeIn double engine draws execution

/-- The view of the step that a cursor stands on, with the cursor after it was read. -/
def viewAt (engine : TypedEngine) (attached : Option (Circuit Float)) (cursor : Cursor) :
    Except Failure (StepView × Cursor) :=
  engine.elim fun engine => engine.viewAt attached cursor

end TypedEngine

end QuditSim
