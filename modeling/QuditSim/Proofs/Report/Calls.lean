import QuditSim.Proofs.Circuit.Replay
import QuditSim.Proofs.Report.Layout
import QuditSim.Report.Rebuild

/-!
# The calls that steps are read as

A step of a report that follows the layout is read as the call for an entry with the kind, the
controls and the targets that the step gives, or it is refused because the kind is none to ask for,
an index is missing, or there is no operator.

- `Report.Reads` is what stands in the fields of a step.
- `Report.callOf_gate_eq_ok` and `Report.callOf_measurement_eq_ok` say which steps are read, and as
  what.
- `Report.replay_eq_ok`: replaying steps makes their calls one after the other.
-/

namespace QuditSim

open Fallible

/-- Whether a gate of a kind can be asked for with the given indices. -/
def GateKind.Replayable (kind : GateKind) (controls targets : List Int) : Prop :=
  match kind with
  | .none | .fourier | .inverseFourier => False
  | .controlled _ one other => (one = .single → controls ≠ []) ∧ (other = .single → targets ≠ [])
  | _ => True

namespace Report

open Circuit

/-- What stands in the fields of a step: the text of its kind, the indices, the dit if there is
one, and the name. -/
structure Reads (entry : Json) (kind : String) (controls targets : List Int) (dit : Option Int)
    (name : String) : Prop where
  /-- The kind. -/
  kind_eq : entry.get? "type" = some (.string kind)
  /-- The controls, of which there are none if they are left out. -/
  controls_eq : itemsOf (entry.get? "controls") = controls.map Json.int
  /-- The targets. -/
  targets_eq : entry.get? "targets" = some (.integers targets)
  /-- The dit. -/
  dit_eq : (entry.get? "dit").map Json.integral? = dit.map some
  /-- The name. -/
  name_eq : entry.get? "name" = some (.string name)

theorem itemsOf_integers (indices : List Int) :
    itemsOf (some (.integers indices)) = indices.map Json.int := rfl

/-- A step that follows the layout has its fields. -/
theorem StepLayout.reads {qudits dits : Int} {index : Nat} {entry : Json}
    (h : StepLayout qudits dits index entry) :
    ∃ kind controls targets dit name, Reads entry kind controls targets dit name := by
  obtain ⟨kind, hkind⟩ := h.kind
  obtain ⟨name, hname⟩ := h.name
  obtain ⟨_, htargets, targets, rfl, -⟩ := h.targets
  obtain ⟨controls, hcontrols⟩ : ∃ controls : List Int,
      itemsOf (entry.get? "controls") = controls.map Json.int := by
    cases hgiven : entry.get? "controls" with
    | none => exact ⟨[], rfl⟩
    | some given =>
      obtain ⟨controls, rfl, -⟩ := h.controls given hgiven
      exact ⟨controls, itemsOf_integers controls⟩
  obtain ⟨dit, hdit⟩ : ∃ dit : Option Int,
      (entry.get? "dit").map Json.integral? = dit.map some := by
    cases hgiven : entry.get? "dit" with
    | none => exact ⟨none, rfl⟩
    | some given =>
      obtain ⟨i, hi, -⟩ := h.dit given hgiven
      exact ⟨some i, by simp [hi]⟩
  exact ⟨kind, controls, targets, dit, name, hkind, hcontrols, htargets, hdit, hname⟩

/-! ## Arguments -/

theorem ofJson_int (i : Int) : IndexItem.ofJson (.int i) = .int i := rfl

theorem ofJson_integers (indices : List Int) :
    (indices.map Json.int).map IndexItem.ofJson = indices.map .int := by
  rw [List.map_map]
  rfl

theorem ofJson_array (indices : List Int) :
    IndexArg.ofJson (.array (indices.map Json.int)) = .ofList indices :=
  congrArg IndexArg.many (ofJson_integers indices)

theorem ofJson_of_integral? {value : Json} {i : Int} (h : value.integral? = some i) :
    IndexItem.ofJson value = .int i := by
  unfold IndexItem.ofJson
  rw [h]

theorem indexArg_eq_ok {extent : Extent} {indices : List Int} {arg : IndexArg} :
    indexArg extent (indices.map Json.int) = .ok arg ↔
      (extent = .single → indices ≠ []) ∧ .ofExtent extent indices = arg := by
  cases extent with
  | single =>
    cases indices with
    | nil => simp [indexArg, firstIndex, Except.map]
    | cons i rest =>
      show Except.ok (IndexArg.ofInt i) = .ok arg ↔ _
      simp [IndexArg.ofExtent]
  | multiple =>
    show Except.ok (IndexArg.ofJson (.array (indices.map Json.int))) = .ok arg ↔ _
    simp [ofJson_array, IndexArg.ofExtent]

theorem firstIndex_eq_ok {indices : List Int} {item : Json} :
    firstIndex (indices.map Json.int) = .ok item ↔
      indices ≠ [] ∧ .int (indices.headD 0) = item := by
  cases indices with
  | nil => simp [firstIndex]
  | cons i rest => simp [firstIndex]

variable {operands : Operands} {entry : Json} {kind name : String} {controls targets : List Int}
  {dit : Option Int} {call : Call Float}

/-- The argument that a step is given as its operator is an operator of the report. -/
theorem operandOf_eq_ok {arg : OperatorArg Float} :
    operandOf operands entry = .ok arg ↔
      ∃ op, operands.lookup (textOf ((entry.get? "operand").getD .null)) = some op ∧
        .operator op = arg := by
  unfold operandOf
  cases operands.lookup (textOf ((entry.get? "operand").getD .null)) with
  | none => simp
  | some op => simp

theorem exists_operandOf {p : OperatorArg Float → Prop} :
    (∃ arg, operandOf operands entry = .ok arg ∧ p arg) ↔
      ∃ op, operandOf operands entry = .ok (.operator op) ∧ p (.operator op) := by
  constructor
  · rintro ⟨arg, harg, hp⟩
    obtain ⟨op, -, rfl⟩ := operandOf_eq_ok.mp harg
    exact ⟨op, harg, hp⟩
  · rintro ⟨op, hop, hp⟩
    exact ⟨_, hop, hp⟩

/-- A step without a dit is read as the call for a gate of its kind with its indices. -/
theorem callOf_gate_eq_ok (h : Reads entry kind controls targets none name) :
    callOf operands entry = .ok call ↔
      ∃ gate, GateKind.ofName? kind = some gate ∧
        ∃ op, operandOf operands entry = .ok (.operator op) ∧ gate.Replayable controls targets ∧
          (Entry.gate gate op controls targets name 1).call = call := by
  have hdit : entry.get? "dit" = none := by
    simpa using h.dit_eq
  unfold callOf
  rw [hdit]
  unfold gateOf
  rw [h.kind_eq, h.name_eq, h.targets_eq, h.controls_eq]
  simp only [Option.getD_some, textOf, itemsOf_integers]
  cases GateKind.ofName? kind with
  | none => simp [throw_eq_ok]
  | some gate =>
    simp only [Option.some.injEq, exists_eq_left']
    rw [bind_eq_ok, exists_operandOf]
    refine exists_congr fun op => and_congr_right fun _ => ?_
    -- an index is asked for by itself where the kind has one, which is where one can be missing
    cases gate with
    | none => simp [throw_eq_ok, GateKind.Replayable]
    | fourier => simp [throw_eq_ok, GateKind.Replayable]
    | inverseFourier => simp [throw_eq_ok, GateKind.Replayable]
    | controlled control one other =>
      cases control <;>
        simp only [bind_eq_ok, pure_eq_ok, indexArg_eq_ok, GateKind.Replayable, Entry.call, and_assoc,
          exists_and_left, exists_eq_left']
    | controlledCustom control =>
      cases control <;>
        simp only [pure_eq_ok, ofJson_array, GateKind.Replayable, Entry.call, true_and]
    | custom => simp only [pure_eq_ok, ofJson_array, GateKind.Replayable, Entry.call, true_and]
    | fan => simp only [pure_eq_ok, ofJson_array, GateKind.Replayable, Entry.call, true_and]
    | _ => simp only [pure_eq_ok, ofJson_integers, GateKind.Replayable, Entry.call, true_and]

/-- What a measurement of a kind needs besides its dit: a target for the kinds that name it by
itself, and a basis that the step names for those that have one. -/
def MeasureReplayable (operands : Operands) (entry : Json) (kind : MeasureKind)
    (basis : Option (Operator Float)) (targets : List Int) : Prop :=
  match kind, basis with
  | .standard, none => targets ≠ []
  | .basis, some op => operandOf operands entry = .ok (.operator op) ∧ targets ≠ []
  | .jointBasis, some op => operandOf operands entry = .ok (.operator op)
  | _, _ => False

/-- A step with a dit is read as the call for a measurement of its kind with its targets. -/
theorem callOf_measurement_eq_ok {i : Int} (h : Reads entry kind controls targets (some i) name) :
    callOf operands entry = .ok call ↔
      ∃ measurement, MeasureKind.ofName? kind = some measurement ∧
        ∃ basis, MeasureReplayable operands entry measurement basis targets ∧
          (Entry.measurement measurement basis targets i name).call = call := by
  obtain ⟨value, hvalue, hi⟩ : ∃ value, entry.get? "dit" = some value ∧ value.integral? = some i := by
    simpa using h.dit_eq
  unfold callOf
  rw [hvalue]
  unfold measurementOf
  rw [h.kind_eq, h.name_eq, h.targets_eq]
  simp only [Option.getD_some, textOf, itemsOf_integers]
  cases MeasureKind.ofName? kind with
  | none => simp [throw_eq_ok]
  | some measurement =>
    simp only [Option.some.injEq, exists_eq_left', Option.exists]
    cases measurement with
    | none => simp [throw_eq_ok, MeasureReplayable]
    | standard =>
      simp only [bind_eq_ok, pure_eq_ok, firstIndex_eq_ok, ofJson_of_integral? hi, and_assoc,
        exists_and_left, exists_eq_left', MeasureReplayable, Entry.call, ofJson_int, false_and,
        exists_false, or_false]
    | basis =>
      simp only [bind_eq_ok, pure_eq_ok, exists_operandOf, indexArg_eq_ok, ofJson_of_integral? hi,
        and_assoc, exists_and_left, exists_eq_left', MeasureReplayable, Entry.call, false_and,
        false_or, true_implies]
    | jointBasis =>
      simp only [bind_eq_ok, pure_eq_ok, exists_operandOf, indexArg_eq_ok, ofJson_of_integral? hi,
        exists_eq_left', MeasureReplayable, Entry.call, false_and, false_or, reduceCtorEq,
        false_implies, true_and]
      rfl

/-! ## Steps one after the other -/

theorem replay_cons (c : Circuit Float) (entries : List Json) :
    replay operands c (entry :: entries) = (do
      let call ← callOf operands entry
      let next ← (c.append call).mapError .circuit
      replay operands next entries) := by
  show (callOf operands entry >>= _) = _
  refine bind_congr fun call => ?_
  cases c.append call <;> rfl

/-- Replaying steps makes the calls that they are read as, one after the other. -/
theorem replay_eq_ok {entries : List Json} {c c' : Circuit Float} :
    replay operands c entries = .ok c' ↔
      ∃ calls, entries.mapM (callOf operands) = .ok calls ∧ c.appendAll calls = .ok c' := by
  induction entries generalizing c with
  | nil =>
    show Except.ok c = .ok c' ↔ ∃ calls, Except.ok [] = .ok calls ∧ _
    simp [appendAll, pure, Except.pure]
  | cons entry entries ih =>
    simp only [replay_cons, bind_eq_ok, mapError_eq_ok, ih, mapM_cons_eq_ok]
    constructor
    · rintro ⟨call, hcall, next, hnext, calls, hcalls, hrest⟩
      exact ⟨_, ⟨call, calls, hcall, hcalls, rfl⟩, appendAll_cons_eq_ok.mpr ⟨next, hnext, hrest⟩⟩
    · rintro ⟨_, ⟨call, calls, hcall, hcalls, rfl⟩, happend⟩
      obtain ⟨next, hnext, hrest⟩ := appendAll_cons_eq_ok.mp happend
      exact ⟨call, hcall, next, hnext, calls, hcalls, hrest⟩

end Report

end QuditSim
