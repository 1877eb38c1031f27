import QuditSim.Circuit.Cursor

/-!
# Texts of circuits

A step is written on one line (`StepView.line`), and a circuit as a listing of its shape, its
steps and its counts (`Circuit.listing`).
-/

namespace QuditSim

/-- A number behind blanks that fill up a least width. -/
def Text.rightAligned (n : Int) (width : Nat) : String :=
  let digits := toString n
  String.ofList (List.replicate (width - digits.length) ' ') ++ digits

/-- A name between double quotes, as it is. -/
def Text.named (name : String) : String := "name = \"" ++ name ++ "\""

/-- The line of a step, with its place filled up to a least width. -/
def StepView.line (view : StepView) (width : Nat) : String :=
  let place := Text.rightAligned view.ip width
  match view.step with
  | .gate step =>
    let label := if step.kind.isClassicallyControlled then "ctrl_dits" else "controls"
    let controls :=
      if step.controls = [] then [] else [label ++ " = " ++ Text.integers step.controls]
    ", ".intercalate ([place ++ ": " ++ step.kind.name] ++ controls ++
      ["targets = " ++ Text.integers step.targets, Text.named step.name])
  | .measure step =>
    "|> " ++ place ++ ": " ++ step.kind.name ++ ", targets = " ++ Text.integers step.targets ++
      ", dit = " ++ toString step.dit ++ ", " ++ Text.named step.name

/-- The listing of a circuit: its shape, a line for each step, and the counts. -/
def Circuit.listing {S : Type} (c : Circuit S) : String :=
  let width := (toString (c.stepCount - 1)).length
  "\n".intercalate
    (["n_qudits = " ++ toString c.qudits ++ ", n_dits = " ++ toString c.dits ++ ", dim = " ++
        toString c.dim ++ ", " ++ Text.named c.name] ++
      c.views.map (·.line width) ++
      ["gate count: " ++ toString c.gateCounts.total,
        "measurement count: " ++ toString c.measureCounts.total,
        "measured positions: " ++ Text.naturals c.measuredQudits,
        "non-measured positions: " ++ Text.naturals c.liveQudits])

end QuditSim
