import QuditSim.Workbench.Basic

/-!
# Engines on a workbench

An engine is made for a circuit and stays bound to it, whatever becomes of the name of the
circuit. It runs the circuit as it is at the moment.
-/

namespace QuditSim.Workbench

/-- Makes an engine for a circuit and gives it a name. The settings decide the element type of
the state unless one is given. -/
def createEngine [Capacity] (name circuitName : String) (settings : EngineSettings)
    (type : Option ElementType) (companion : Companion) : Bench TypedEngine := do
  let c ← circuit circuitName
  let engine ← lift .engine (match type with
    | some type => TypedEngine.start c settings type companion
    | none => TypedEngine.create c settings companion)
  putEngine name engine
  return engine

/-- An engine with the circuit that it is bound to. -/
def bound (name : String) : Bench (TypedEngine × Circuit Float) := do
  let engine ← engine name
  return (engine, ← circuitAt engine.serial)

/-- Carries out an execution with an engine. -/
def carryOut (name : String)
    (execution : {R : Type} → [Scalar R] → [Precision R] → Execution Float R Unit) :
    Bench Unit := do
  let engine ← engine name
  let outcome := engine.carryOut (← get).draws execution
  modify fun bench => { bench with draws := outcome.draws }
  putEngine name outcome.engine
  tell outcome.events
  lift .engine outcome.result

/-- Runs the circuit of an engine, with checks of norms set for the run if they are given. -/
def run (name : String) (checking : Option Bool) : Bench Unit := do
  let (_, c) ← bound name
  let checking := checking.getD (← get).checking
  carryOut name (Engine.runAll checking c)

/-- Executes one step with an engine. -/
def execute (name : String) (view : StepView) : Bench Unit := do
  let (_, c) ← bound name
  let checking := (← get).checking
  carryOut name (Engine.execute checking c view)

/-- Executes the step that a cursor stands on. -/
def executeAt (name cursorName : String) : Bench Unit := do
  let engine ← engine name
  let placed ← cursor cursorName
  let (view, cursor) ← lift .cursor (engine.viewAt (← attached placed) placed.cursor)
  putCursor cursorName { placed with cursor := cursor }
  execute name view

/-- Starts an engine afresh. -/
def reset (name : String) : Bench Unit := do
  let (engine, c) ← bound name
  putEngine name (engine.reset c)
  tell [Engine.resetEvent c]

/-- Sets a dit of an engine. -/
def setDit (name : String) (i value : Argument) : Bench Unit := do
  let engine ← engine name
  putEngine name (← lift .engine (engine.setDit i value))

end QuditSim.Workbench
