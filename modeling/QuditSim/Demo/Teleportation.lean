import QuditSim.Circuit.Summary
import QuditSim.Engine.Execution

/-!
# Teleportation

Qubit 0 holds a state, and qubits 1 and 2 share an entangled pair. Qubits 0 and 1 are measured
jointly, and the outcomes, written into dits, correct qubit 2, which then holds the state.
-/

namespace QuditSim

/-- What can go wrong in a demonstration. -/
inductive DemoFault where
  /-- The circuit cannot be built. -/
  | circuit (fault : CircuitFault)
  /-- There are no gates for the dimension. -/
  | dimension (fault : DimensionFault)
  /-- The run fails. -/
  | engine (fault : EngineFault)
  /-- The channel cannot be made. -/
  | channel (fault : ChannelFault)
  /-- The digits of an ideal outcome differ. -/
  | unequalDigits

namespace Demo

variable [Capacity]

/-- The arguments of a circuit over a number of qudits, dits and a dimension. -/
def newCircuit (qudits dits dim : Argument) (name : String) : Except DemoFault (Circuit Float) :=
  (Circuit.create? 0 qudits dits dim name Circuit.standardNamer
    Operator.contentKey).mapError .circuit

/-- A gate on qudits jointly. -/
def on (op : Operator Float) (targets : List Int) : Call Float :=
  .gate (.operator op) (targets.map .int) ""

namespace Teleportation

/-- The steps of the circuit. -/
def calls : List (Call Float) :=
  [on Gate.hadamard [0], on Gate.eighth [0], on Gate.hadamard [1], on Gate.cnot [1, 2],
    on Gate.cnot [0, 1], on Gate.hadamard [0], .measureZ (.int 0) (.int 0) "",
    .measureZ (.int 1) (.int 1) "",
    .cctrl (.operator Gate.pauliX) (.ofInt 1) (.ofInt 2) "",
    .cctrl (.operator Gate.pauliZ) (.ofInt 0) (.ofInt 2) ""]

/-- The circuit that moves a state from qubit 0 to qubit 2. -/
def circuit : Except DemoFault (Circuit Float) := do
  ((← newCircuit (.nat 3) (.nat 2) (.nat 2) "teleport").appendAll calls).mapError .circuit

/-- The state that is moved. -/
def sent : StateVector Float :=
  (StateVector.zero 1 2).applyOn 2 (Gate.eighth * Gate.hadamard) [0]

/-- The squared modulus of the inner product of two states. -/
def fidelity (a b : StateVector Float) : Float :=
  let overlap := Tensor.inner (fun x => (a.amplitude x).conj) b.amplitude a.size
  overlap.modulus * overlap.modulus

/-- The line of one run. -/
def line (seed : Nat) (engine : Engine Float Float) : String :=
  "seed " ++ toString seed ++ ": dits = " ++ Text.naturals engine.dits ++ ", fidelity = " ++
    Decimal.fixed 6 (fidelity sent engine.state)

/-- The lines of runs with the given seeds. -/
def lines (checking : Bool) (c : Circuit Float) :
    List Nat → Draws Float → Except DemoFault (List String)
  | [], _ => .ok []
  | seed :: rest, draws => do
    let (engine, draws) ←
      (Engine.afterRun checking c (.start c {} .nothing) draws).mapError .engine
    return line seed engine :: (← lines checking c rest draws)

/-- The text of the demonstration: the circuit, and what four runs make of it. -/
def text (checking : Bool) (draws : Draws Float) : Except DemoFault String := do
  let c ← circuit
  let lines ← lines checking c [0, 1, 2, 3] draws
  return String.join (([c.listing, ""] ++ lines ++ ["", "Teleportation finished"]).map (· ++ "\n"))

end Teleportation

end Demo

end QuditSim
