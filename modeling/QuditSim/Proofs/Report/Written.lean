import QuditSim.Proofs.Circuit.WellFormed
import QuditSim.Proofs.Report.Layout
import QuditSim.Report.Circuit

/-!
# The reports that circuits write

What stands in the fields of a step that a circuit writes, and in those of its report.

- `StepView.get?_targets` and its companions look up the fields of a written step.
- `Circuit.reportLayout_report`: every report of a well-formed circuit follows the layout.
-/

namespace QuditSim

open Report

/-! ## Written steps -/

namespace Step

/-- The controls of a step. -/
def controls : Step → List Int
  | gate step => step.controls
  | measure _ => []

/-- The dit that a step writes, if it writes one. -/
def dit? : Step → Option Int
  | gate _ => none
  | measure step => some step.dit

/-- Whether the controls of a step are dits. -/
def readsDits : Step → Bool
  | gate step => step.kind.isClassicallyControlled
  | measure _ => false

end Step

namespace StepView

variable (view : StepView) (includeOperands : Bool)

/-- A member that is left out where there is no value. -/
def member? (name : String) (value : Option Json) : List (String × Json) :=
  value.toList.map fun value => (name, value)

/-- The controls of a step as a value, if there are any. -/
def writtenControls (controls : List Int) : Option Json :=
  if controls = [] then none else some (.integers controls)

/-- The members of a written step in their order, for gates and measurements alike. -/
theorem entry_eq :
    view.entry includeOperands = .object (
      [("step", .int view.ip), ("type", .string view.step.kindName)] ++
        member? "controls" (writtenControls view.step.controls) ++
        [("targets", .integers view.step.targets)] ++
        member? "dit" (view.step.dit?.map Json.int) ++
        member? "operand" (if includeOperands then
          view.step.keys.head?.map fun key => .string (operandId key) else none) ++
        [("name", .string view.step.name)]) := by
  obtain ⟨origin, kind, ip, step⟩ := view
  cases step with
  | gate step =>
    by_cases hcontrols : step.controls = [] <;> cases includeOperands <;>
      simp [entry, member?, writtenControls, hcontrols, Step.controls, Step.dit?, Step.keys]
  | measure step =>
    cases includeOperands <;> cases hkeys : step.keys <;>
      simp [entry, member?, writtenControls, hkeys, Step.controls, Step.dit?, Step.keys]

theorem lookup_member? (name other : String) (value : Option Json) (rest : List (String × Json)) :
    (member? name value ++ rest).lookup other =
      if other = name then value.or (rest.lookup other) else rest.lookup other := by
  cases value with
  | none => simp [member?]
  | some value =>
    by_cases h : other = name
    · simp [member?, h]
    · simp [member?, List.lookup_cons, h, beq_false_of_ne h]

@[simp] theorem get?_step : (view.entry includeOperands).get? "step" = some (.int view.ip) := by
  rw [entry_eq]
  rfl

@[simp] theorem get?_type :
    (view.entry includeOperands).get? "type" = some (.string view.step.kindName) := by
  rw [entry_eq]
  rfl

/-- Controls are left out where there are none. -/
@[simp] theorem get?_controls :
    (view.entry includeOperands).get? "controls" = writtenControls view.step.controls := by
  simp [entry_eq, Json.get?, lookup_member?, List.lookup_cons]

@[simp] theorem get?_targets :
    (view.entry includeOperands).get? "targets" = some (.integers view.step.targets) := by
  simp [entry_eq, Json.get?, lookup_member?, List.lookup_cons]

@[simp] theorem get?_dit :
    (view.entry includeOperands).get? "dit" = view.step.dit?.map Json.int := by
  simp [entry_eq, Json.get?, lookup_member?, List.lookup_cons]

@[simp] theorem get?_operand :
    (view.entry includeOperands).get? "operand" =
      if includeOperands then view.step.keys.head?.map fun key => .string (operandId key)
      else none := by
  simp [entry_eq, Json.get?, lookup_member?, List.lookup_cons]

@[simp] theorem get?_name :
    (view.entry includeOperands).get? "name" = some (.string view.step.name) := by
  simp [entry_eq, Json.get?, lookup_member?, List.lookup_cons]

end StepView

/-! ## Names of kinds -/

@[simp] theorem GateKind.ofName?_name (kind : GateKind) : ofName? kind.name = some kind := by
  cases kind with
  | controlled control controls targets =>
    cases control <;> cases controls <;> cases targets <;> decide +kernel
  | controlledCustom control => cases control <;> decide +kernel
  | _ => decide +kernel

@[simp] theorem MeasureKind.ofName?_name (kind : MeasureKind) : ofName? kind.name = some kind := by
  cases kind <;> decide +kernel

/-- The names of the kinds that are controlled by dits, and no others, say so. -/
theorem Step.namesDitControl_kindName (step : Step) :
    namesDitControl step.kindName = step.readsDits := by
  cases step with
  | gate step =>
    show namesDitControl step.kind.name = step.kind.isClassicallyControlled
    cases step.kind with
    | controlled control controls targets =>
      cases control <;> cases controls <;> cases targets <;> decide +kernel
    | controlledCustom control => cases control <;> decide +kernel
    | _ => decide +kernel
  | measure step =>
    show namesDitControl step.kind.name = false
    cases step.kind <;> decide +kernel

/-! ## Reports -/

namespace Circuit

variable {c : Circuit Float} (metadata : List (String × Json)) (includeOperands : Bool)

theorem get?_metadata :
    (c.report metadata includeOperands).get? "metadata" =
      if metadata.isEmpty then none else some (.object metadata) := by
  cases includeOperands <;> cases metadata <;> rfl

theorem get?_endian :
    (c.report metadata includeOperands).get? "endian" = some (.string "little") := by
  cases includeOperands <;> cases metadata <;> rfl

theorem isIndexList_naturals {n : Nat} {indices : List Nat} (h : ∀ i ∈ indices, i < n) :
    IsIndexList n (.naturals indices) := by
  refine ⟨indices.map Nat.cast, ?_, fun i hi => ?_⟩
  · rw [Json.naturals, Json.integers, List.map_map]
    rfl
  · obtain ⟨j, hj, rfl⟩ := List.mem_map.mp hi
    have := h j hj
    omega

/-- The controls of a recorded step are in the range that its kind asks for. -/
theorem controls_inRange {S : Type} {c : Circuit S} {step : Step} (h : step.Recorded c) :
    ∀ i ∈ step.controls, InRange (if step.readsDits then c.dits else c.qudits) i := by
  cases step with
  | gate step =>
    have hfit := GateStep.Recorded.controls h
    show ∀ i ∈ step.controls,
      InRange (if step.kind.control? == some .classical then c.dits else c.qudits) i
    unfold ControlsFit at hfit
    generalize step.kind.control? = control? at hfit ⊢
    rcases control? with _ | _ | _
    · simp [show step.controls = [] from hfit]
    · exact hfit.2.1
    · exact hfit
  | measure step => exact nofun

/-- A recorded step is written as the layout asks. -/
theorem stepLayout_entry {S : Type} {c : Circuit S} {step : Step} (h : step.Recorded c)
    (serial index : Nat) :
    StepLayout c.qudits c.dits index ((step.view serial index).entry includeOperands) where
  object := ⟨_, StepView.entry_eq _ _⟩
  number := ⟨_, StepView.get?_step _ _, by simp [Step.view, Json.isInteger, Json.number?, Json.int]⟩
  kind := ⟨_, StepView.get?_type _ _⟩
  name := ⟨_, StepView.get?_name _ _⟩
  targets := by
    refine ⟨_, StepView.get?_targets _ _, _, rfl, ?_⟩
    cases step with
    | gate step => exact (GateStep.Recorded.targets h).inRange
    | measure step => exact (MeasureStep.Recorded.targets h).inRange
  dit := by
    rw [StepView.get?_dit]
    intro dit hdit
    cases step with
    | gate step => cases hdit
    | measure step =>
      cases hdit
      exact ⟨step.dit, rfl, MeasureStep.Recorded.dit h⟩
  controls := by
    have hrange := controls_inRange h
    rw [StepView.get?_controls, StepView.get?_type]
    show ∀ controls ∈ StepView.writtenControls step.controls, IsIndexList
      (if namesDitControl step.kindName then _ else _) controls
    rw [Step.namesDitControl_kindName]
    unfold StepView.writtenControls
    intro controls hcontrols
    split at hcontrols
    · cases hcontrols
    · cases hcontrols
      rw [← apply_ite Nat.cast]
      exact ⟨_, rfl, hrange⟩
  operand := by
    rw [StepView.get?_operand]
    intro operand hoperand
    split at hoperand
    · obtain ⟨key, -, rfl⟩ := Option.map_eq_some_iff.mp hoperand
      exact ⟨_, rfl⟩
    · cases hoperand

/-- The report of a well-formed circuit follows the layout. -/
theorem reportLayout_report (h : c.WellFormed) (hqudits : 1 ≤ c.qudits) (hdim : 2 ≤ c.dim) :
    ReportLayout (c.report metadata includeOperands) where
  object := ⟨_, rfl⟩
  version := rfl
  integers := by
    intro field hfield
    simp only [integerFields, List.mem_cons, List.not_mem_nil, or_false] at hfield
    rcases hfield with rfl | rfl | rfl | rfl | rfl
    · exact ⟨c.qudits, rfl, by omega⟩
    · exact ⟨c.dits, rfl, by omega⟩
    · exact ⟨c.dim, rfl, by omega⟩
    · exact ⟨c.gateCounts.total, rfl, by omega⟩
    · exact ⟨c.measureCounts.total, rfl, by omega⟩
  name := by
    rintro _ ⟨⟩
    exact ⟨c.name, rfl⟩
  steps := by
    refine ⟨_, rfl, fun index entry hentry => ?_⟩
    rw [views_eq h.ordered, List.getElem?_map, List.getElem?_mapIdx] at hentry
    cases hstep : c.log[index]? with
    | none =>
      rw [hstep] at hentry
      cases hentry
    | some step =>
      rw [hstep] at hentry
      cases hentry
      exact stepLayout_entry includeOperands (h.recorded step (List.mem_of_getElem? hstep)) _ _
  measured := by
    refine ⟨_, rfl, isIndexList_naturals fun q hq => ?_⟩
    unfold measuredQudits at hq
    split at hq
    · cases hq
    · exact List.mem_range.mp (List.mem_of_mem_filter hq)
  nonMeasured := by
    refine ⟨_, rfl, isIndexList_naturals fun q hq => ?_⟩
    exact List.mem_range.mp (List.mem_of_mem_filter hq)
  operands := by
    cases includeOperands with
    | false =>
      have hnone : (c.report metadata false).get? "operands" = none := by
        cases metadata <;> rfl
      rw [hnone]
      exact nofun
    | true =>
      rintro _ ⟨⟩
      refine ⟨_, rfl, fun member hmember => ?_⟩
      obtain ⟨entry, -, rfl⟩ := List.mem_map.mp hmember
      rfl
  metadata := by
    rw [get?_metadata]
    split
    · exact nofun
    · rintro _ ⟨⟩
      exact ⟨metadata, rfl⟩
  endian := by
    rw [get?_endian]
    rintro _ ⟨⟩
    decide

end Circuit

end QuditSim
