import QuditSim.Logging.Event
import QuditSim.Noise.Channel
import QuditSim.State.Measure
import QuditSim.Text.Quoted

/-!
# Noise on pure states

A noise model acts on one qudit of a state, picks one of its branches and remembers which.
`Trajectory` draws a branch of a channel with the weight that the state gives it, and leaves
the branch with norm one. The other model, `NoiseModel.recording`, leaves the state alone and
tells the position it was asked about.
-/

namespace QuditSim

/-- A channel that is applied by drawing one of its branches, with what it drew last. -/
structure Trajectory (S : Type) where
  /-- The channel. -/
  channel : Channel S
  /-- The branch drawn last. -/
  lastBranch : Nat
  /-- The weights of the branches at the last drawing. -/
  lastWeights : List S

namespace Trajectory

variable {S R : Type}

/-- A channel that has not been applied yet. -/
def start (channel : Channel S) : Trajectory S := ⟨channel, 0, []⟩

/-- The text that shows the model. -/
def shown (model : Trajectory S) : String :=
  "KrausNoise(" ++ model.channel.name.shown ++ ", dim=" ++ toString model.channel.dim ++ ")"

variable [Scalar S]

/-- Applies the channel at a position: the model with what it drew, and the state that
results. -/
def apply [Scalar R] [Rounding S R] [Rounding R S] (model : Trajectory S) (state : StateVector R)
    (position : Argument) : Sampling S (Trajectory S × StateVector R) := do
  let ops : List (Operator R) := model.channel.ops.map fun op => Rounding.round op
  let branches ← state.branches ops position (.nat model.channel.dim)
  -- the weights are those of the branches as they are, before any is divided
  let weights : List S := branches.map StateVector.chanceWeight
  let branch ← sample weights
  return ({ model with lastBranch := branch, lastWeights := weights },
    (branches.getD branch #[]).divRoot (weights.getD branch 0))

/-- What the last drawing, at a position, has to tell. -/
def event (model : Trajectory S) (position : Nat) : Event :=
  ⟨Event.noiseLogger, model.channel.name.plain ++ " on position " ++ toString position ++
    ": branch " ++ toString model.lastBranch ++ " (p=" ++
    Decimal.general 6 (Scalar.toFloat (model.lastWeights.getD model.lastBranch 0)) ++ ")"⟩

end Trajectory

/-- A noise process on one qudit. -/
inductive NoiseModel (S : Type) where
  /-- A channel whose branches are drawn. -/
  | trajectory (model : Trajectory S)
  /-- No change: the branch told is the position. -/
  | recording (dim : Argument) (lastBranch : Nat)

namespace NoiseModel

variable {S R : Type}

/-- The dimension of the qudits that the model acts on. -/
def dim : NoiseModel S → Argument
  | trajectory model => .nat model.channel.dim
  | recording dim _ => dim

/-- The branch picked last. -/
def lastBranch : NoiseModel S → Nat
  | trajectory model => model.lastBranch
  | recording _ branch => branch

/-- Applies the model at a position. -/
def apply [Scalar S] [Scalar R] [Rounding S R] [Rounding R S] (model : NoiseModel S)
    (state : StateVector R) (position : Nat) : Sampling S (NoiseModel S × StateVector R) :=
  match model with
  | trajectory model => do
    let (model, state) ← model.apply state (.nat position)
    return (.trajectory model, state)
  | recording dim _ => return (.recording dim position, state)

/-- What the last application, at a position, has to tell. -/
def events [Scalar S] (model : NoiseModel S) (position : Nat) : List Event :=
  match model with
  | trajectory model => [model.event position]
  | recording .. => []

end NoiseModel

end QuditSim
