import QuditSim.Engine.Typed
import QuditSim.Exchange.Channel
import QuditSim.Exchange.Display
import QuditSim.Exchange.Layout
import QuditSim.Report.Circuit

/-!
# Engines on display

How engines and noise models appear in the exchange format: the state and the layout with the
classical results, and what noise models and watchers noted. The companion of an engine is read
from its description (`Companion.ofJson`).
-/

namespace QuditSim

section Precise

variable {S R : Type} [Scalar S] [Scalar R] [Precision R]

/-- What a noise model drew last from a state of the given precision, as members on display. -/
def Trajectory.members (R : Type) [Precision R] (model : Trajectory S) : List (String × Json) :=
  [("branch", .nat model.lastBranch), ("probs", Precision.chances R model.lastWeights)]

/-- What is noted before steps, as members on display. -/
def PreStep.members : PreStep S R → List (String × Json)
  | nothing => []
  | hook _ calls =>
    [("hook", .array (calls.map fun (ip, live) => .array [.int ip, .naturals live]))]
  | noise _ branches => [("noise", .array (branches.map Json.naturals))]

/-- An engine on display. -/
def Engine.display (engine : Engine S R) : Json :=
  .object ([("dits", .naturals engine.dits), ("probs", Precision.chances R engine.probs),
    ("state", engine.state.display), ("layout", engine.layout.display)] ++
    engine.preStep.members)

end Precise

/-- An engine of either precision on display. -/
def TypedEngine.display (engine : TypedEngine) : Json := engine.elim Engine.display

/-- The companion that descriptions of noise and of a watcher give. -/
def Companion.ofJson [Capacity] (noise watcher : Option Json) : Reading Companion :=
  match noise, watcher with
  | some noise, _ =>
    match noise.get? "recording" with
    | some dim => .ok (.recording dim.argument)
    | none => (Channel.ofJson noise).map .channel
  | none, some watcher =>
    match watcher.given? "flip" with
    | some op => (TypedTensor.ofJson op).map fun op => .watcher (some op)
    | none => .ok (.watcher none)
  | none, none => .ok .absent

end QuditSim
