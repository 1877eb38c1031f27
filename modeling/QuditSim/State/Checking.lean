import QuditSim.State.Apply

/-!
# Checking mode

In checking mode every operation on states checks the norm of its result. The mode can be
turned on and off, and it can be set for the extent of a block: however the block ends, the
mode is afterwards as it was before. `ModeStep.trace` follows a sequence of such changes and
notes the mode after each of them.
-/

namespace QuditSim

/-- A change of the mode, or something that is done in it. -/
inductive ModeStep where
  /-- The mode is set. -/
  | set (on : Bool)
  /-- Steps are done with the mode set for their extent; it is on when nothing else is said. -/
  | block (on : Option Bool) (body : List ModeStep)
  /-- A failure, which leaves the innermost block. -/
  | fail
  /-- An operator that is not unitary acts on a state. -/
  | probe

/-- What is noted while steps are done. -/
inductive ModeNote where
  /-- The mode. -/
  | mode (on : Bool)
  /-- A failure came out of a block. -/
  | failure
  /-- What a probe answered. -/
  | answer (result : Except StateFault (StateVector Float))

namespace ModeStep

/-- What a probe answers: the state zero of a qubit with its amplitude doubled, unless the norm
of the result is checked. -/
def probed (checking : Bool) : Except StateFault (StateVector Float) :=
  (StateVector.zero 1 2).apply checking (.diagonal 2 fun i => if i = 0 then .ofReal 2 else 1)
    [.nat 0] (.nat 2)

mutual

/-- The notes of a step that is done in a mode, the mode after it, and whether it failed. -/
def trace (checking : Bool) : ModeStep → List ModeNote × Bool × Bool
  | set on => ([.mode on], on, false)
  | block on body =>
    let inside := on.getD true
    let (notes, _, failed) := traceAll inside body
    (.mode inside :: notes ++ (if failed then [.failure] else []) ++ [.mode checking], checking,
      false)
  | fail => ([], checking, true)
  | probe => ([.answer (probed checking), .mode checking], checking, false)

/-- The notes of steps that are done one after the other up to the first that fails. -/
def traceAll (checking : Bool) : List ModeStep → List ModeNote × Bool × Bool
  | [] => ([], checking, false)
  | step :: rest =>
    let (notes, checking, failed) := trace checking step
    if failed then (notes, checking, true)
    else
      let (more, checking, failed) := traceAll checking rest
      (notes ++ more, checking, failed)

end

/-- After a block the mode is as it was before. -/
theorem mode_trace_block (checking : Bool) (on : Option Bool) (body : List ModeStep) :
    (trace checking (block on body)).2.1 = checking := by
  simp [trace]

end ModeStep

end QuditSim
