/-!
# Steps of a circuit

A step is a gate or a measurement, recorded with the qudits it acts on. Its kind says how the
operator is laid over those qudits. Every kind has a written name (`GateKind.name`,
`MeasureKind.name`), and `GateKind.ofName?` and its companions find the kind of a name.
-/

namespace QuditSim

/-- Which of the two sorts a step is. -/
inductive StepKind where
  /-- No step: the position past the last one. -/
  | none
  /-- A gate. -/
  | gate
  /-- A measurement. -/
  | measurement
deriving DecidableEq, Repr

/-- What a controlled gate is controlled by. -/
inductive Control where
  /-- The digits of live qudits. -/
  | quantum
  /-- The values of classical dits. -/
  | classical
deriving DecidableEq, Repr

/-- Whether an argument was given as one index or as a list of indices. -/
inductive Extent where
  /-- One index. -/
  | single
  /-- A list of indices. -/
  | multiple
deriving DecidableEq, Repr

/-- How the operator of a gate is laid over its qudits. -/
inductive GateKind where
  /-- No action. -/
  | none
  /-- One qudit. -/
  | single
  /-- Two qudits jointly. -/
  | two
  /-- Three qudits jointly. -/
  | three
  /-- Any number of qudits jointly. -/
  | custom
  /-- The same operator on each of several qudits. -/
  | fan
  /-- The Fourier transform of the register, which is reserved. -/
  | fourier
  /-- The inverse Fourier transform of the register, which is reserved. -/
  | inverseFourier
  /-- A one-qudit operator on each target, under control. -/
  | controlled (control : Control) (controls targets : Extent)
  /-- An operator on all targets jointly, under control. -/
  | controlledCustom (control : Control)
deriving DecidableEq, Repr

/-- How a measurement acts on its qudits. -/
inductive MeasureKind where
  /-- No action. -/
  | none
  /-- One qudit in the basis of its digits. -/
  | standard
  /-- One qudit in a basis of its own. -/
  | basis
  /-- Several qudits jointly in a basis of their own. -/
  | jointBasis
deriving DecidableEq, Repr

/-- The written name of a sort of step. -/
def StepKind.name : StepKind → String
  | none => "NONE"
  | gate => "GATE"
  | measurement => "MEASUREMENT"

/-- All sorts of steps. -/
def StepKind.all : List StepKind := [none, gate, measurement]

/-- The sort with a written name. -/
def StepKind.ofName? (name : String) : Option StepKind := all.find? (·.name == name)

/-- The mark of a control in the name of a kind. -/
def Control.mark : Control → String
  | quantum => "CTRL"
  | classical => "cCTRL"

/-- The word for an extent in the name of a kind. -/
def Extent.word : Extent → String
  | single => "SINGLE"
  | multiple => "MULTIPLE"

namespace GateKind

/-- The name of a kind in which controls are marked in a given way. -/
def nameBy (mark : Control → String) : GateKind → String
  | none => "NONE"
  | single => "SINGLE"
  | two => "TWO"
  | three => "THREE"
  | custom => "CUSTOM"
  | fan => "FAN"
  | fourier => "QFT"
  | inverseFourier => "TFQ"
  | controlled control controls targets =>
    controls.word ++ "_" ++ mark control ++ "_" ++ targets.word ++ "_TARGET"
  | controlledCustom control => "CUSTOM_" ++ mark control

/-- The written name of a kind. -/
def name (kind : GateKind) : String := kind.nameBy Control.mark

/-- The name of a kind in capital letters only. -/
def capitalName (kind : GateKind) : String :=
  kind.nameBy fun
    | .quantum => "CTRL"
    | .classical => "CCTRL"

/-- All kinds of gates. -/
def all : List GateKind :=
  [none, single, two, three, custom, fan, fourier, inverseFourier] ++
    [Control.quantum, Control.classical].flatMap fun control =>
      [controlled control .single .single, controlled control .single .multiple,
        controlled control .multiple .single, controlled control .multiple .multiple,
        controlledCustom control]

/-- The kind with a written name. -/
def ofName? (name : String) : Option GateKind := all.find? (·.name == name)

/-- What a kind is controlled by, if it is. -/
def control? : GateKind → Option Control
  | controlled control _ _ => some control
  | controlledCustom control => some control
  | _ => Option.none

/-- Whether the controls of a kind are qudits. -/
def isQuantumControlled (kind : GateKind) : Bool := kind.control? == some .quantum

/-- Whether the controls of a kind are dits. -/
def isClassicallyControlled (kind : GateKind) : Bool := kind.control? == some .classical

/-- Whether a kind is reserved and has no action yet. -/
def isReserved (kind : GateKind) : Bool := kind == fourier || kind == inverseFourier

end GateKind

namespace MeasureKind

/-- The written name of a kind. -/
def name : MeasureKind → String
  | none => "NONE"
  | standard => "MEASURE_Z"
  | basis => "MEASURE_V"
  | jointBasis => "MEASURE_V_MANY"

/-- All kinds of measurements. -/
def all : List MeasureKind := [none, standard, basis, jointBasis]

/-- The kind with a written name. -/
def ofName? (name : String) : Option MeasureKind := all.find? (·.name == name)

end MeasureKind

/-- A recorded gate. -/
structure GateStep where
  /-- How the operator is laid over the qudits. -/
  kind : GateKind
  /-- The key of the operator. -/
  key : Int
  /-- The controls: qudits or dits, as the kind says. -/
  controls : List Int
  /-- The qudits acted on, the most significant one first. -/
  targets : List Int
  /-- The name under which the gate is counted. -/
  name : String
deriving DecidableEq, Repr

/-- A recorded measurement. -/
structure MeasureStep where
  /-- How the measurement acts. -/
  kind : MeasureKind
  /-- The keys of the bases; none when the basis is that of the digits. -/
  keys : List Int
  /-- The measured qudits. -/
  targets : List Int
  /-- The dit that the outcome is written to. -/
  dit : Int
  /-- The name under which the measurement is counted. -/
  name : String
deriving DecidableEq, Repr

/-- A recorded gate or measurement. -/
inductive Step where
  /-- A gate. -/
  | gate (step : GateStep)
  /-- A measurement. -/
  | measure (step : MeasureStep)
deriving DecidableEq, Repr

namespace Step

/-- Which of the two sorts a step is. -/
def kind : Step → StepKind
  | gate _ => .gate
  | measure _ => .measurement

/-- The written name of the kind of a step. -/
def kindName : Step → String
  | gate step => step.kind.name
  | measure step => step.kind.name

/-- The qudits acted on. -/
def targets : Step → List Int
  | gate step => step.targets
  | measure step => step.targets

/-- The name under which a step is counted. -/
def name : Step → String
  | gate step => step.name
  | measure step => step.name

@[simp] theorem kind_gate (step : GateStep) : (gate step).kind = .gate := rfl

@[simp] theorem kind_measure (step : MeasureStep) : (measure step).kind = .measurement := rfl

@[simp] theorem targets_gate (step : GateStep) : (gate step).targets = step.targets := rfl

@[simp] theorem targets_measure (step : MeasureStep) : (measure step).targets = step.targets := rfl

@[simp] theorem name_gate (step : GateStep) : (gate step).name = step.name := rfl

@[simp] theorem name_measure (step : MeasureStep) : (measure step).name = step.name := rfl

end Step

/-- A step together with its place. The sort of step is named apart from the record, so that
a view made by hand can claim another sort. -/
structure StepView where
  /-- The number that tells the circuit of the step from other circuits. -/
  origin : Nat
  /-- The sort of step that the view claims to be. -/
  kind : StepKind
  /-- The place of the step in its circuit. -/
  ip : Int
  /-- The recorded step. -/
  step : Step
deriving DecidableEq, Repr

/-- The view of a step at its place, with the sort that the record has. -/
def Step.view (origin : Nat) (ip : Nat) (step : Step) : StepView := ⟨origin, step.kind, ip, step⟩

end QuditSim
