import QuditSim.Demo.Teleportation

/-!
# Three entangled qutrits

The Fourier gate puts qutrit 0 into an equal superposition of its three states, and a shift
under its control carries its digit into the others. Without noise the three digits that are
measured are always equal; with noise they may differ.
-/

namespace QuditSim.Demo.Ghz

variable [Capacity]

/-- The steps of the circuit. -/
def calls (dim : Nat) : List (Call Float) :=
  [on (Gate.fourier dim) [0],
    .ctrl (.operator (Gate.shift dim)) (.ofInt 0) (.ofList [1, 2]) ""] ++
    [0, 1, 2].map fun q => .measureZ (.int q) (.int q) ""

/-- The circuit for three qudits of a dimension. The gates take no fraction for one. -/
def circuit (dim : Argument) : Except DemoFault (Circuit Float) := do
  let c ← newCircuit (.nat 3) (.nat 3) dim "ghz"
  let d ← (quditDimension dim).mapError .dimension
  (c.appendAll (calls d)).mapError .circuit

/-- The engines after a number of runs, each started afresh with the same noise, and what is
left of chance. -/
def runs (checking : Bool) (c : Circuit Float) (preStep : PreStep Float Float) :
    Nat → Draws Float → Except DemoFault (List (Engine Float Float) × Draws Float)
  | 0, draws => .ok ([], draws)
  | n + 1, draws => do
    let (engine, draws) ←
      (Engine.afterRun checking c (.start c {} preStep) draws).mapError .engine
    let (engines, draws) ← runs checking c preStep n draws
    return (engine :: engines, draws)

/-- How often each outcome was found, in ascending order of outcomes. -/
def countsText (engines : List (Engine Float Float)) : String :=
  let outcomes := engines.map (·.dits)
  let distinct := outcomes.eraseDups.mergeSort fun a b => !decide (b < a)
  let entry (outcome : List Nat) : String :=
    Text.tupled (outcome.map toString) ++ ": " ++ toString (outcomes.count outcome)
  "\x7b" ++ ", ".intercalate (distinct.map entry) ++ "\x7d"

/-- The number of branches of noise that changed something. -/
def flips (engines : List (Engine Float Float)) : Nat :=
  (engines.map fun engine => ((engine.noiseBranches?.getD []).flatten.filter (· ≠ 0)).length).sum

/-- The number of runs of each sort. -/
def shots : Nat := 30

/-- The text of the demonstration: the circuit, and the outcomes of runs without and with
noise. -/
def text (checking : Bool) (draws : Draws Float) : Except DemoFault String := do
  let c ← circuit (.nat 3)
  let (ideal, draws) ← runs checking c .nothing shots draws
  if ideal.any fun engine => engine.dits.eraseDups.length ≠ 1 then throw .unequalDigits
  let channel ← (Channel.quditDepolarizing (Number.float 0.1).givenFloat (.nat 3)).mapError .channel
  let (noisy, _) ←
    runs checking c (Engine.freshNoise c (.trajectory (.start channel))) shots draws
  return String.join (([c.listing, "", "ideal outcomes: " ++ countsText ideal,
    "noisy outcomes: " ++ countsText noisy,
    "non-trivial noise branches: " ++ toString (flips noisy), "",
    "All ideal qutrit outcomes agree"]).map (· ++ "\n"))

end QuditSim.Demo.Ghz
