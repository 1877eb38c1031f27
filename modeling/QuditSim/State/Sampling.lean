import QuditSim.State.Basic

/-!
# Sampling

An index is drawn with a probability proportional to its weight. Chance is a sequence of
numbers between zero and one that is fixed beforehand, `Draws`: each sampling that succeeds
consumes one, and after the last one the sequence starts again. `sampleIndex` is the rule that
turns a number and weights into an index, and `Sampling` the computations that draw.
-/

namespace QuditSim

/-- A sequence of numbers that is gone through again and again. -/
structure Draws (S : Type) where
  /-- The first number. -/
  first : S
  /-- The numbers after the first. -/
  others : List S
  /-- How many numbers were consumed. -/
  used : Nat

namespace Draws

variable {S : Type}

/-- The number to be consumed next. -/
def current (draws : Draws S) : S :=
  (draws.first :: draws.others).getD (draws.used % (draws.others.length + 1)) draws.first

/-- The sequence with one more number consumed. -/
def advance (draws : Draws S) : Draws S := { draws with used := draws.used + 1 }

/-- The sequence of the numbers of a list; a list without any stands for one number. -/
def ofList [Scalar S] : List S → Draws S
  | [] => ⟨0.37, [], 0⟩
  | first :: others => ⟨first, others, 0⟩

@[simp] theorem used_advance (draws : Draws S) : draws.advance.used = draws.used + 1 := rfl

end Draws

section Rule

variable {S : Type} [Scalar S]

/-- Goes through probabilities with their running sum: the first index of a positive
probability at which the sum exceeds `u`, else the last index of a positive probability, which
is `last` when there is none. -/
def pickFrom (u : S) : List S → Nat → S → Nat → Nat
  | [], _, _, last => last
  | p :: rest, i, sum, last =>
    if 0 < p then
      -- an index without weight is passed over, also as the last one
      if u < sum + p then i else pickFrom u rest (i + 1) (sum + p) i
    else pickFrom u rest (i + 1) (sum + p) last

/-- The index that a number between zero and one picks from probabilities. Where all of them are
rounded to zero, it is the first. -/
def pick (u : S) (probabilities : List S) : Nat := pickFrom u probabilities 0 0 0

/-- The index that a number between zero and one picks from weights. -/
def sampleIndex (weights : List S) (u : S) : Except StateFault Nat :=
  if weights = [] then .error .noWeights
  else if weights.any fun w => !Scalar.isFinite w || decide (w < 0) then
    .error (.badWeights (weights.map Scalar.toFloat))
  else
    let total := weights.foldl (· + ·) 0
    -- weights need not sum to one
    if total ≤ 0 then .error .zeroWeights else .ok (pick u (weights.map (· / total)))

end Rule

/-- Computations that draw and can be refused. What was drawn before a refusal stays drawn. -/
abbrev Sampling (S α : Type) : Type := ExceptT StateFault (StateM (Draws S)) α

/-- Draws an index with a probability proportional to its weight. -/
def sample {S : Type} [Scalar S] (weights : List S) : Sampling S Nat := do
  let draws ← get
  let i ← sampleIndex weights draws.current
  set draws.advance
  return i

end QuditSim
