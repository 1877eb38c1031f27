import QuditSim.Proofs.Circuit.Acceptance
import QuditSim.Proofs.Circuit.Fidelity
import QuditSim.Proofs.Report.Calls

/-!
# What malformed reports are refused with

A report that no circuit can be made of is refused, and the one who handed it in expects to be told
that a value is not allowed. Most refusals say so, and this module finds the ones that say something
else.

- `RebuildFault.IsValue` says which faults are those of a value that is not allowed.
- `Circuit.append_escapes_iff`: of the refusals of calls, only those of gates on too many qudits and
  those of operators with the key of an unequal one are not.
- `Report.callOf_escapes_iff`: of the steps that are no calls, only those that lack an index are not.
- `Report.rebuild_escapes_iff`: which reports are refused with another fault, and with which one.
- `Report.rebuild_escapes` is such a report.
-/

namespace QuditSim

open Fallible

/-! ## Faults of values -/

/-- A cause is that of a value that is not allowed. -/
def Cause.IsValue (cause : Cause) : Prop := .value ∈ cause.family.broader

/-- An extent is too large in a way that is that of a value that is not allowed. -/
def ExtentFault.IsValue : ExtentFault → Prop
  | uncountableMatrix => True
  | longList | uncountableList | largeMatrix => False

/-- An error without a place is that of a value that is not allowed. -/
def PlainFault.IsValue : PlainFault → Prop
  | manyDigits => True
  | raised _ => False

/-- A fault of a circuit is that of a value that is not allowed. -/
def CircuitFault.IsValue : CircuitFault → Prop
  | located failure => failure.cause.IsValue
  | plain fault => fault.IsValue
  | notNumber => True
  | extent fault => fault.IsValue
  | manyTargets _ | unusedName | unusedKey | wrongKind | infinite => False

/-- An object is no operator because of a value that is not allowed. -/
def MatrixFault.IsValue : MatrixFault → Prop
  | entry .uneven | entry .noWord => True
  | _ => False

/-- A report is refused for a value that is not allowed. -/
def RebuildFault.IsValue : RebuildFault → Prop
  | matrix fault => fault.IsValue
  | circuit fault => fault.IsValue
  | noIndex => False
  | report _ | noOperands | unknownKind | unknownOperand _ | gateKind .. | measureKind .. => True

/-- A kind of gate is named for the number of its targets. -/
def GateKind.IsCounted : GateKind → Prop
  | single | two | three => True
  | _ => False

theorem GateKind.IsCounted.replayable {kind : GateKind} {controls targets : List Int}
    (h : kind.IsCounted) : kind.Replayable controls targets := by
  cases kind with
  | single | two | three => trivial
  | _ => exact h.elim

theorem PlainFault.ofIntegers_ne_raised (integers : List Int) (kind : String) :
    ofIntegers integers ≠ some (.raised kind) := by
  unfold ofIntegers
  split <;> simp

namespace IndexArg

/-- Integers raise no error. -/
@[simp] theorem plain?_map_int (indices : List Int) :
    (many (indices.map .int)).plain? = none := by
  have hfind : (indices.map IndexItem.int).find? (fun item => item.value?.isNone) = none :=
    List.find?_eq_none.mpr (by simp [IndexItem.value?])
  simp only [plain?, hfind, Option.bind_none]

@[simp] theorem plain?_int (i : Int) : (many [.int i]).plain? = none := plain?_map_int [i]

@[simp] theorem plain?_ofList (indices : List Int) : (ofList indices).plain? = none :=
  plain?_map_int indices

@[simp] theorem plain?_ofExtent (extent : Extent) (indices : List Int) :
    (ofExtent extent indices).plain? = none := by
  cases extent with
  | single =>
    cases indices with
    | nil => exact plain?_ofList []
    | cons i rest => rfl
  | multiple => exact plain?_ofList indices

end IndexArg

namespace Circuit

variable {S : Type} [Scalar S] {c : Circuit S} {call : Call S}

/-! ## Refusals of calls -/

omit [Scalar S] in
/-- The arguments of a call are of no class but that of indices, or that of too many targets. -/
theorem kind_of_mem_arguments {request : Request S} (hrequest : c.request? call = some request) :
    ∀ condition ∈ request.arguments,
      condition.kind = .manyTargets ∨ condition.kind = .located .invalidIndex := by
  cases call <;> cases hrequest <;> simp [Condition.few, Condition.list, Condition.indices]

/-- A call that is not reserved is refused for a value, or for the key of its operator. -/
theorem isValue_or_of_plan {request : Request S} {cause : Cause}
    (hrequest : c.request? call = some request) (hfew : manyTargets? call = none)
    (h : c.plan call = .error cause) :
    cause.IsValue ∨ ¬ ∀ operator ∈ request.operator, ∀ op, operator.1 = .operator op → ∀ known,
      c.operands.get? (c.operands.keyOf op) = some known → known.same op = true := by
  have hsettles := c.plan_settles call hfew
  rw [h] at hsettles
  obtain ⟨condition, hfails, hkind, -⟩ := hsettles
  obtain ⟨hmem, hnot⟩ := hfails.mem_and_not
  have hvalue : ∀ {family : Family}, condition.kind = .located family → .value ∈ family.broader →
      cause.IsValue := by
    intro family hfamily hbroader
    rw [hfamily] at hkind
    cases hkind
    exact hbroader
  rcases (mem_conditions hrequest).mp hmem with harguments | ⟨_, -, rfl⟩ | ⟨_, -, rfl⟩ | rfl |
    ⟨_, -, rfl⟩ | rfl | ⟨operator, hop, rfl | rfl⟩
  · rcases kind_of_mem_arguments hrequest condition harguments with hmany | hindex
    · rw [hmany] at hkind
      cases hkind
    · exact .inl (hvalue hindex (by decide))
  -- of all other conditions, only the last one is not on a value
  iterate 6 exact .inl (hvalue rfl (by decide))
  exact .inr fun hall => hnot (hall operator hop)

/-- The operator of a call has the key of an operator that is not equal to it. -/
structure Taken (c : Circuit S) (call : Call S) (op known : Operator S) : Prop where
  /-- The call is given the operator. -/
  operator_eq : call.operator? = some op
  /-- There is an operator under its key. -/
  known_eq : c.operands.get? (c.operands.keyOf op) = some known
  /-- The two are not equal. -/
  not_same : known.same op = false

/-- An entry is only held back for a key that is taken. -/
theorem taken_of_checkKey {entry : Entry S} {cause : Cause} (h : c.checkKey entry = .error cause) :
    ∃ op known, entry.operator? = some op ∧
      c.operands.get? (c.operands.keyOf op) = some known ∧ known.same op = false ∧
      cause = .keyTaken (c.operands.keyOf op) known.shape := by
  unfold checkKey at h
  split at h
  · next op hop =>
    rcases bind_eq_error.mp h with hkey | ⟨_, -, hpure⟩
    · unfold OperandTable.keyFor at hkey
      dsimp only at hkey
      split at hkey
      · next known hknown =>
        split at hkey
        · cases hkey
        · next hsame =>
          cases hkey
          exact ⟨op, known, hop, hknown, by simpa using hsame, rfl⟩
      · cases hkey
    · cases hpure
  · cases h

/-- A call that is refused for no value is one whose operator has a key that is taken, and nothing else
is wrong with it. -/
theorem taken_of_plan {cause : Cause} (hrequest : c.request? call ≠ none)
    (hfew : manyTargets? call = none) (h : c.plan call = .error cause) (hcause : ¬ cause.IsValue) :
    ∃ op known after, c.Taken call op known ∧ c.cleared.append call = .ok after ∧
      cause = .keyTaken (c.operands.keyOf op) known.shape := by
  obtain ⟨request, hrequest⟩ := Option.ne_none_iff_exists'.mp hrequest
  rw [plan_eq_bind_checkKey] at h
  rcases bind_eq_error.mp h with hfree | ⟨entry, hentry, hkey⟩
  · -- where all keys are free, none is taken
    rcases isValue_or_of_plan (c := c.cleared) hrequest hfew hfree with hvalue | hkey
    · exact (hcause hvalue).elim
    · exact (hkey fun _ _ _ _ known hknown => nomatch hknown).elim
  · obtain ⟨op, known, hop, hknown, hsame, rfl⟩ := taken_of_checkKey hkey
    have hop' := (planned_of_plan hentry).operator?_eq.symm.trans hop
    exact ⟨op, known, _, ⟨hop', hknown, hsame⟩, append_eq_ok.mpr ⟨entry, hfew, hentry, rfl⟩, rfl⟩

/-- Reading the arguments of a call passes on no error of theirs. -/
def Readable (c : Circuit S) (call : Call S) : Prop :=
  ∀ condition ∈ c.conditions call, ∀ kind, condition.plain? ≠ some (.raised kind)

/-- A cause with an error in its place is refused for a value, where arguments are readable. -/
theorem Readable.isValue_ofFailure (hreadable : c.Readable call) (hfew : manyTargets? call = none)
    {cause : Cause} (h : c.plan call = .error cause) (hcause : cause.IsValue) :
    (CircuitFault.ofFailure (.atStep call.operation c.stepCount cause)).IsValue := by
  have hsettles := c.plan_settles call hfew
  rw [h] at hsettles
  obtain ⟨condition, hfails, -, hplain⟩ := hsettles
  have hreads := hreadable condition hfails.mem_and_not.1
  rw [hplain] at hreads
  unfold CircuitFault.ofFailure
  rw [Failure.cause_atStep]
  cases hseen : cause.plain? with
  | none => exact hcause
  | some plain =>
    cases plain with
    | raised kind => exact (hreads kind hseen).elim
    | manyDigits => trivial

/-- A call that can be read and is not reserved is refused with a fault that is not of a value in two
cases: it is a gate on too many qudits, or nothing is wrong with it but that the key of its operator is
taken. -/
theorem append_escapes_iff {fault : CircuitFault} (hrequest : c.request? call ≠ none)
    (hreadable : c.Readable call) :
    (c.append call = .error fault ∧ ¬ fault.IsValue) ↔
      (∃ count, manyTargets? call = some count ∧ fault = .manyTargets count) ∨
        ∃ op known after, c.Taken call op known ∧ c.cleared.append call = .ok after ∧
          fault = .located (.atStep call.operation c.stepCount
            (.keyTaken (c.operands.keyOf op) known.shape)) := by
  constructor
  · rintro ⟨h, hfault⟩
    cases hmany : manyTargets? call with
    | some count =>
      unfold append at h
      rw [hmany] at h
      cases h
      exact .inl ⟨count, rfl, rfl⟩
    | none =>
      cases hplan : c.plan call with
      | ok entry =>
        rw [append_eq_ok.mpr ⟨entry, hmany, hplan, rfl⟩] at h
        cases h
      | error cause =>
        rw [append_of_plan_error hmany hplan] at h
        cases h
        have hcause : ¬ cause.IsValue := fun hvalue =>
          hfault (hreadable.isValue_ofFailure hmany hplan hvalue)
        obtain ⟨op, known, after, htaken, hfree, rfl⟩ := taken_of_plan hrequest hmany hplan hcause
        exact .inr ⟨op, known, after, htaken, hfree, rfl⟩
  · rintro (⟨count, hmany, rfl⟩ | ⟨op, known, after, htaken, hfree, rfl⟩)
    · refine ⟨?_, id⟩
      unfold append
      rw [hmany]
    · refine ⟨append_of_taken htaken.operator_eq htaken.known_eq htaken.not_same hfree, ?_⟩
      simp [CircuitFault.IsValue, Cause.IsValue, Cause.family, Family.broader]

/-- A call is readable if no argument raises an error, and its operator is one. -/
theorem readable_of_request {request : Request S} (hrequest : c.request? call = some request)
    (harguments : ∀ condition ∈ request.arguments, condition.plain? = none)
    (hop : ∀ operator ∈ request.operator, ∃ op, operator.1 = .operator op) : c.Readable call := by
  intro condition hmem kind
  rcases (mem_conditions hrequest).mp hmem with hargument | ⟨_, -, rfl⟩ |
    ⟨⟨bound, indices⟩, -, rfl⟩ | rfl | ⟨_, -, rfl⟩ | rfl | ⟨operator, hgiven, rfl | rfl⟩
  · rw [harguments condition hargument]
    nofun
  · nofun
  · unfold Condition.inRange
    cases indices.find? (outside bound) with
    | none => nofun
    | some i => exact PlainFault.ofIntegers_ne_raised _ kind
  · unfold Condition.live
    cases (request.controls ++ request.targets).find? c.isMeasured with
    | none => nofun
    | some q => exact PlainFault.ofIntegers_ne_raised _ kind
  · exact PlainFault.ofIntegers_ne_raised _ kind
  · exact PlainFault.ofIntegers_ne_raised _ kind
  · obtain ⟨op, hop⟩ := hop operator hgiven
    rw [hop]
    unfold Condition.operator
    dsimp only
    split
    · exact PlainFault.ofIntegers_ne_raised _ kind
    · nofun
  · nofun

/-- The call for an entry is readable. -/
theorem readable_call (c : Circuit S) (entry : Entry S) : c.Readable entry.call := by
  have hreserved : ∀ condition ∈ [Condition.unreserved], ∀ kind,
      condition.plain? ≠ some (.raised kind) :=
    List.forall_mem_singleton.mpr nofun
  cases entry with
  | gate kind op controls targets name increment =>
    cases kind with
    | fourier | inverseFourier => exact hreserved
    | controlled control one other =>
      cases control <;>
        exact readable_of_request rfl (by simp [Condition.indices]) (by simp)
    | controlledCustom control =>
      cases control <;>
        exact readable_of_request rfl (by simp [Condition.list]) (by simp)
    | _ => exact readable_of_request rfl (by simp [Condition.list, Condition.few]) (by simp)
  | measurement kind basis targets dit name =>
    cases kind <;> cases basis <;>
      exact readable_of_request rfl (by simp [Condition.indices, Condition.list]) (by simp)

end Circuit

namespace Report

open Circuit

variable {operands : Operands} {entry : Json} {kind name : String} {controls targets : List Int}
  {dit : Option Int}

/-! ## Steps that are no calls -/

/-- A step lacks an index that its kind takes by itself. The operator of the step is looked up
before. -/
inductive LacksIndex (operands : Operands) (entry : Json) :
    String → List Int → List Int → Option Int → Prop
  /-- A measurement of digits without a target. -/
  | standard {kind : String} {controls : List Int} {i : Int}
    (hkind : MeasureKind.ofName? kind = some .standard) :
    LacksIndex operands entry kind controls [] (some i)
  /-- A measurement in a basis of one qudit, without a target. -/
  | basis {kind : String} {controls : List Int} {i : Int} {op : Operator Float}
    (hkind : MeasureKind.ofName? kind = some .basis)
    (hop : operandOf operands entry = .ok (.operator op)) :
    LacksIndex operands entry kind controls [] (some i)
  /-- A gate under one control, without a control. -/
  | control {kind : String} {targets : List Int} {control : Control} {other : Extent}
    {op : Operator Float} (hkind : GateKind.ofName? kind = some (.controlled control .single other))
    (hop : operandOf operands entry = .ok (.operator op)) :
    LacksIndex operands entry kind [] targets none
  /-- A controlled gate on one target, without a target. -/
  | target {kind : String} {controls : List Int} {control : Control} {one : Extent}
    {op : Operator Float} (hkind : GateKind.ofName? kind = some (.controlled control one .single))
    (hop : operandOf operands entry = .ok (.operator op)) :
    LacksIndex operands entry kind controls [] none

/-- An operator that is not there is a value that is not allowed. -/
theorem isValue_of_operandOf {fault : RebuildFault} (h : operandOf operands entry = .error fault) :
    fault.IsValue := by
  unfold operandOf at h
  split at h <;> cases h
  trivial

theorem indexArg_eq_error {extent : Extent} {indices : List Int} {fault : RebuildFault} :
    indexArg extent (indices.map Json.int) = .error fault ↔
      fault = .noIndex ∧ extent = .single ∧ indices = [] := by
  cases extent with
  | single => cases indices <;> simp [indexArg, firstIndex, Except.map, eq_comm]
  | multiple => simp [indexArg]

theorem firstIndex_eq_error {indices : List Int} {fault : RebuildFault} :
    firstIndex (indices.map Json.int) = .error fault ↔ fault = .noIndex ∧ indices = [] := by
  cases indices <;> simp [firstIndex, eq_comm]

/-- A stage behind the operator of a step fails for another reason than a value just if the operator
is there and it does. -/
theorem operandOf_bind_escapes {α : Type} {f : OperatorArg Float → Except RebuildFault α}
    {fault : RebuildFault} :
    ((operandOf operands entry >>= f) = .error fault ∧ ¬ fault.IsValue) ↔
      ∃ op, operandOf operands entry = .ok (.operator op) ∧
        f (.operator op) = .error fault ∧ ¬ fault.IsValue := by
  rw [bind_eq_error, exists_operandOf]
  constructor
  · rintro ⟨hnone | ⟨op, hop, h⟩, hfault⟩
    · exact (hfault (isValue_of_operandOf hnone)).elim
    · exact ⟨op, hop, h, hfault⟩
  · rintro ⟨op, hop, h, hfault⟩
    exact ⟨.inr ⟨op, hop, h⟩, hfault⟩

theorem callOf_gate_escapes_iff {fault : RebuildFault}
    (h : Reads entry kind controls targets none name) :
    (callOf operands entry = .error fault ∧ ¬ fault.IsValue) ↔
      fault = .noIndex ∧ LacksIndex operands entry kind controls targets none := by
  have hdit : entry.get? "dit" = none := by
    simpa using h.dit_eq
  unfold callOf
  rw [hdit]
  unfold gateOf
  rw [h.kind_eq, h.name_eq, h.targets_eq, h.controls_eq]
  simp only [Option.getD_some, textOf, itemsOf_integers]
  cases hkind : GateKind.ofName? kind with
  | none =>
    constructor
    · rintro ⟨hthrow, hfault⟩
      cases hthrow
      exact (hfault trivial).elim
    · rintro ⟨-, hlacks⟩
      cases hlacks <;> simp_all
  | some gate =>
    rw [operandOf_bind_escapes]
    constructor
    · rintro ⟨op, hop, hrest, hfault⟩
      cases gate with
      | controlled control one other =>
        have hmissing : fault = .noIndex ∧
            (one = .single ∧ controls = [] ∨ other = .single ∧ targets = []) := by
          cases control <;>
            · simp only [bind_eq_error, indexArg_eq_error, reduceCtorEq, and_false, exists_false,
                or_false, pure, Except.pure] at hrest
              rcases hrest with ⟨rfl, hnone⟩ | ⟨_, -, rfl, hnone⟩
              · exact ⟨rfl, .inl hnone⟩
              · exact ⟨rfl, .inr hnone⟩
        obtain ⟨rfl, ⟨rfl, rfl⟩ | ⟨rfl, rfl⟩⟩ := hmissing
        · exact ⟨rfl, .control hkind hop⟩
        · exact ⟨rfl, .target hkind hop⟩
      | controlledCustom control => cases control <;> cases hrest
      | none | fourier | inverseFourier =>
        cases hrest
        exact (hfault trivial).elim
      | _ => cases hrest
    · rintro ⟨rfl, hlacks⟩
      cases hlacks with
      | @control _ control _ op hkind' hop =>
        cases hkind.symm.trans hkind'
        refine ⟨op, hop, ?_, id⟩
        cases control <;> exact bind_eq_error.mpr (.inl (indexArg_eq_error.mpr ⟨rfl, rfl, rfl⟩))
      | @target _ control one op hkind' hop =>
        cases hkind.symm.trans hkind'
        refine ⟨op, hop, ?_, id⟩
        -- the control is looked for first, and may be missing as well
        cases control <;> cases one <;> cases controls <;> rfl

theorem callOf_measurement_escapes_iff {i : Int} {fault : RebuildFault}
    (h : Reads entry kind controls targets (some i) name) :
    (callOf operands entry = .error fault ∧ ¬ fault.IsValue) ↔
      fault = .noIndex ∧ LacksIndex operands entry kind controls targets (some i) := by
  obtain ⟨value, hvalue, hi⟩ : ∃ value, entry.get? "dit" = some value ∧ value.integral? = some i := by
    simpa using h.dit_eq
  unfold callOf
  rw [hvalue]
  unfold measurementOf
  rw [h.kind_eq, h.name_eq, h.targets_eq]
  simp only [Option.getD_some, textOf, itemsOf_integers]
  cases hkind : MeasureKind.ofName? kind with
  | none =>
    constructor
    · rintro ⟨hthrow, hfault⟩
      cases hthrow
      exact (hfault trivial).elim
    · rintro ⟨-, hlacks⟩
      cases hlacks <;> simp_all
  | some measurement =>
    cases measurement with
    | none =>
      constructor
      · rintro ⟨hthrow, hfault⟩
        cases hthrow
        exact (hfault trivial).elim
      · rintro ⟨-, hlacks⟩
        cases hlacks <;> simp_all
    | standard =>
      simp only [bind_eq_error, firstIndex_eq_error, pure, Except.pure, reduceCtorEq, and_false,
        exists_false, or_false]
      constructor
      · rintro ⟨⟨rfl, rfl⟩, -⟩
        exact ⟨rfl, .standard hkind⟩
      · rintro ⟨rfl, hlacks⟩
        cases hlacks with
        | standard => exact ⟨⟨rfl, rfl⟩, id⟩
        | basis hkind' => cases hkind.symm.trans hkind'
    | basis =>
      rw [operandOf_bind_escapes]
      simp only [bind_eq_error, indexArg_eq_error, pure, Except.pure, reduceCtorEq, and_false,
        exists_false, or_false, true_and]
      constructor
      · rintro ⟨op, hop, ⟨rfl, rfl⟩, -⟩
        exact ⟨rfl, .basis hkind hop⟩
      · rintro ⟨rfl, hlacks⟩
        cases hlacks with
        | standard hkind' => cases hkind.symm.trans hkind'
        | basis _ hop => exact ⟨_, hop, ⟨rfl, rfl⟩, id⟩
    | jointBasis =>
      rw [operandOf_bind_escapes]
      simp only [bind_eq_error, indexArg_eq_error, pure, Except.pure, reduceCtorEq, false_and,
        and_false, exists_false, or_false, false_iff, not_and]
      rintro - hlacks
      cases hlacks <;> simp_all

/-- A step that is read as no call for another reason than a value lacks an index. -/
theorem callOf_escapes_iff {fault : RebuildFault}
    (h : Reads entry kind controls targets dit name) :
    (callOf operands entry = .error fault ∧ ¬ fault.IsValue) ↔
      fault = .noIndex ∧ LacksIndex operands entry kind controls targets dit := by
  cases dit with
  | none => exact callOf_gate_escapes_iff h
  | some i => exact callOf_measurement_escapes_iff h

/-- The calls that steps are read as are not reserved. -/
theorem request?_ne_none_of_callOf {c : Circuit Float} {call : Call Float}
    (h : Reads entry kind controls targets dit name) (hcall : callOf operands entry = .ok call) :
    c.request? call ≠ none := by
  cases dit with
  | none =>
    obtain ⟨gate, -, op, -, hreplayable, rfl⟩ := (callOf_gate_eq_ok h).mp hcall
    cases gate with
    | controlled control _ _ => cases control <;> nofun
    | controlledCustom control => cases control <;> nofun
    | none | fourier | inverseFourier => exact hreplayable.elim
    | _ => nofun
  | some i =>
    obtain ⟨measurement, -, basis, -, rfl⟩ := (callOf_measurement_eq_ok h).mp hcall
    cases measurement <;> cases basis <;> nofun

/-- The calls that steps are read as are readable. -/
theorem readable_of_callOf {c : Circuit Float} {call : Call Float}
    (h : Reads entry kind controls targets dit name) (hcall : callOf operands entry = .ok call) :
    c.Readable call := by
  cases dit with
  | none =>
    obtain ⟨gate, -, op, -, -, rfl⟩ := (callOf_gate_eq_ok h).mp hcall
    exact c.readable_call _
  | some i =>
    obtain ⟨measurement, -, basis, -, rfl⟩ := (callOf_measurement_eq_ok h).mp hcall
    exact c.readable_call _

/-- A step is read as the call for a gate on too many qudits just if it lists them for a kind that
is named for the number of its targets. -/
theorem manyTargets?_of_callOf {call : Call Float} {count : Nat}
    (h : Reads entry kind controls targets dit name) (hcall : callOf operands entry = .ok call) :
    manyTargets? call = some count ↔
      (dit = none ∧ ∃ gate, GateKind.ofName? kind = some gate ∧ gate.IsCounted) ∧
        3 < targets.length ∧ targets.length = count := by
  cases dit with
  | none =>
    obtain ⟨gate, hgate, op, -, hreplayable, rfl⟩ := (callOf_gate_eq_ok h).mp hcall
    simp only [true_and, hgate, Option.some.injEq, exists_eq_left']
    cases gate with
    | none => exact hreplayable.elim
    | controlled control _ _ => cases control <;> simp [Entry.call, manyTargets?, GateKind.IsCounted]
    | controlledCustom control => cases control <;> simp [Entry.call, manyTargets?, GateKind.IsCounted]
    | _ => simp [Entry.call, manyTargets?, GateKind.IsCounted]
  | some i =>
    obtain ⟨measurement, -, basis, -, rfl⟩ := (callOf_measurement_eq_ok h).mp hcall
    cases measurement <;> cases basis <;> simp [Entry.call, manyTargets?]

/-! ## Replaying -/

/-- What rebuilding ends with at a step, for another reason than a value, where the steps before it
gave a circuit. -/
inductive StepEscapes (operands : Operands) (c : Circuit Float) (entry : Json) :
    RebuildFault → Prop
  /-- An index is missing. -/
  | noIndex {kind name : String} {controls targets : List Int} {dit : Option Int}
    (hreads : Reads entry kind controls targets dit name)
    (hlacks : LacksIndex operands entry kind controls targets dit) :
    StepEscapes operands c entry .noIndex
  /-- There are too many targets for a kind that is named for the number of them. -/
  | manyTargets {kind name : String} {gate : GateKind} {controls targets : List Int}
    {op : Operator Float} (hreads : Reads entry kind controls targets none name)
    (hkind : GateKind.ofName? kind = some gate) (hcounted : gate.IsCounted)
    (hop : operandOf operands entry = .ok (.operator op)) (hmany : 3 < targets.length) :
    StepEscapes operands c entry (.circuit (.manyTargets targets.length))
  /-- Nothing is wrong with the call but that the key of its operator is taken. -/
  | keyTaken {call : Call Float} {op known : Operator Float} {after : Circuit Float}
    (hcall : callOf operands entry = .ok call) (htaken : c.Taken call op known)
    (hfree : c.cleared.append call = .ok after) :
    StepEscapes operands c entry (.circuit (.located (.atStep call.operation c.stepCount
      (.keyTaken (c.operands.keyOf op) known.shape))))

/-- The fault that a step ends the replaying with. -/
def StepFails (operands : Operands) (c : Circuit Float) (entry : Json) (fault : RebuildFault) :
    Prop :=
  callOf operands entry = .error fault ∨ ∃ call cause, callOf operands entry = .ok call ∧
    c.append call = .error cause ∧ fault = .circuit cause

theorem stepFails_escapes_iff {c : Circuit Float} {fault : RebuildFault}
    (h : Reads entry kind controls targets dit name) :
    (StepFails operands c entry fault ∧ ¬ fault.IsValue) ↔ StepEscapes operands c entry fault := by
  constructor
  · rintro ⟨hcall | ⟨call, cause, hcall, happend, rfl⟩, hfault⟩
    · obtain ⟨rfl, hlacks⟩ := (callOf_escapes_iff h).mp ⟨hcall, hfault⟩
      exact .noIndex h hlacks
    · have hrequest := request?_ne_none_of_callOf (c := c) h hcall
      have hreadable := readable_of_callOf (c := c) h hcall
      rcases (append_escapes_iff hrequest hreadable).mp ⟨happend, hfault⟩ with
        ⟨count, hmany, rfl⟩ | ⟨op, known, after, htaken, hfree, rfl⟩
      · obtain ⟨⟨rfl, gate, hgate, hcounted⟩, hlength, rfl⟩ := (manyTargets?_of_callOf h hcall).mp hmany
        obtain ⟨gate', hgate', op, hop, -, -⟩ := (callOf_gate_eq_ok h).mp hcall
        exact .manyTargets h hgate hcounted hop hlength
      · exact .keyTaken hcall htaken hfree
  · intro hescapes
    cases hescapes with
    | noIndex hreads hlacks =>
      have hcall := (callOf_escapes_iff hreads).mpr ⟨rfl, hlacks⟩
      exact ⟨.inl hcall.1, hcall.2⟩
    | @manyTargets _ name _ _ targets op hreads hkind hcounted hop hmany =>
      have hcall := (callOf_gate_eq_ok hreads).mpr ⟨_, hkind, op, hop, hcounted.replayable, rfl⟩
      have htoo := (manyTargets?_of_callOf hreads hcall).mpr ⟨⟨rfl, _, hkind, hcounted⟩, hmany, rfl⟩
      have happend := (append_escapes_iff (c := c) (request?_ne_none_of_callOf hreads hcall)
        (readable_of_callOf hreads hcall)).mpr (.inl ⟨_, htoo, rfl⟩)
      exact ⟨.inr ⟨_, _, hcall, happend.1, rfl⟩, happend.2⟩
    | keyTaken hcall htaken hfree =>
      have happend := (append_escapes_iff (request?_ne_none_of_callOf h hcall)
        (readable_of_callOf h hcall)).mpr (.inr ⟨_, _, _, htaken, hfree, rfl⟩)
      exact ⟨.inr ⟨_, _, hcall, happend.1, rfl⟩, happend.2⟩

/-- Replaying ends with a fault just if a step fails with it behind steps that are replayed. -/
theorem replay_eq_error {entries : List Json} {c : Circuit Float} {fault : RebuildFault} :
    replay operands c entries = .error fault ↔
      ∃ before entry behind next, entries = before ++ entry :: behind ∧
        replay operands c before = .ok next ∧ StepFails operands next entry fault := by
  induction entries generalizing c with
  | nil => simp [replay]
  | cons entry entries ih =>
    rw [replay_cons, bind_eq_error]
    constructor
    · rintro (hcall | ⟨call, hcall, hrest⟩)
      · exact ⟨[], entry, entries, c, rfl, rfl, .inl hcall⟩
      rcases bind_eq_error.mp hrest with happend | ⟨next, hnext, hrest⟩
      · obtain ⟨cause, hcause, rfl⟩ := mapError_eq_error.mp happend
        exact ⟨[], entry, entries, c, rfl, rfl, .inr ⟨call, cause, hcall, hcause, rfl⟩⟩
      · obtain ⟨before, last, behind, reached, rfl, hbefore, hlast⟩ := ih.mp hrest
        refine ⟨entry :: before, last, behind, reached, rfl, ?_, hlast⟩
        rw [replay_cons]
        exact bind_eq_ok.mpr ⟨call, hcall, bind_eq_ok.mpr ⟨next, hnext, hbefore⟩⟩
    · rintro ⟨_ | ⟨first, before⟩, last, behind, reached, heq, hbefore, hlast⟩
      · cases heq
        cases hbefore
        rcases hlast with hcall | ⟨call, cause, hcall, hcause, rfl⟩
        · exact .inl hcall
        · exact .inr ⟨call, hcall, bind_eq_error.mpr (.inl (mapError_eq_error.mpr ⟨cause, hcause, rfl⟩))⟩
      · cases heq
        rw [replay_cons] at hbefore
        obtain ⟨call, hcall, hrest⟩ := bind_eq_ok.mp hbefore
        obtain ⟨next, hnext, hrest⟩ := bind_eq_ok.mp hrest
        refine .inr ⟨call, hcall, bind_eq_error.mpr (.inr ⟨next, hnext, ?_⟩)⟩
        exact ih.mpr ⟨before, last, behind, reached, rfl, hrest, hlast⟩

/-! ## Operators and extents -/

theorem readOperands_eq (members : List (String × Json)) :
    readOperands members = members.mapM fun member =>
      ((Operator.decode member.2).map (member.1, ·)).mapError .matrix := by
  unfold readOperands
  congr 1
  funext ⟨key, value⟩
  dsimp only
  cases Operator.decode value <;> rfl

/-- The operators of a report cannot be read just if one of them cannot, behind others that can. -/
theorem readOperands_eq_error {members : List (String × Json)} {fault : RebuildFault} :
    readOperands members = .error fault ↔
      ∃ before key value behind cause, members = before ++ (key, value) :: behind ∧
        (∀ member ∈ before, ∃ op, Operator.decode member.2 = .ok op) ∧
        Operator.decode value = .error cause ∧ fault = .matrix cause := by
  rw [readOperands_eq, mapM_eq_error]
  simp only [mapError_eq_ok, map_eq_ok, mapError_eq_error, map_eq_error]
  constructor
  · rintro ⟨before, ⟨key, value⟩, behind, rfl, hbefore, cause, hvalue, rfl⟩
    refine ⟨before, key, value, behind, cause, rfl, fun member hmember => ?_, hvalue, rfl⟩
    obtain ⟨_, op, hop, -⟩ := hbefore member hmember
    exact ⟨op, hop⟩
  · rintro ⟨before, key, value, behind, cause, rfl, hbefore, hvalue, rfl⟩
    refine ⟨before, (key, value), behind, rfl, fun member hmember => ?_, cause, hvalue, rfl⟩
    obtain ⟨op, hop⟩ := hbefore member hmember
    exact ⟨_, op, hop, rfl⟩

section Limits

variable [Capacity]

/-- The extents of a report are too large for a circuit, in a way that is not that of a value. -/
inductive TooLarge (report : Json) : ExtentFault → Prop
  /-- The Fourier matrix of a qudit has too many entries. -/
  | matrix (hdim : Capacity.rows ≤ integerField report "dim")
    (hword : integerField report "dim" < 2 ^ 63) : TooLarge report .largeMatrix
  /-- There are more qudits than can be counted. -/
  | count (hdim : integerField report "dim" < min Capacity.rows (2 ^ 63))
    (hqudits : 2 ^ 63 ≤ integerField report "n_qudits") : TooLarge report .uncountableList
  /-- There are more qudits than can be held. -/
  | list (hdim : integerField report "dim" < min Capacity.rows (2 ^ 63))
    (hqudits : Capacity.flags ≤ integerField report "n_qudits")
    (hword : integerField report "n_qudits" < 2 ^ 63) : TooLarge report .longList

/-- The usual names are there where the matrices of the dimension are. -/
theorem exists_standardNamer {d : Nat} :
    (∃ namer : Operator Float → String, standardNamer d = .ok namer) ↔
      checkMatrixExtent d = .ok () := by
  simp only [standardNamer, bind_eq_ok, exists_unit, pure_eq_ok]
  exact ⟨fun ⟨_, hextent, _⟩ => hextent, fun hextent => ⟨_, hextent, rfl⟩⟩

theorem standardNamer_eq_error {d : Nat} {cause : ExtentFault} :
    (standardNamer d : Except ExtentFault (Operator Float → String)) = .error cause ↔
      checkMatrixExtent d = .error cause := by
  unfold standardNamer
  rw [bind_eq_error]
  simp [pure, Except.pure]

/-- A circuit of extents that are let pass is not made just if one of them is too large. -/
theorem create?_eq_error {n m d : Int} (hn : 1 ≤ n) (hm : 0 ≤ m) (hd : 2 ≤ d) {serial : Nat}
    {name : String} {keyOf : Operator Float → Int} {fault : CircuitFault} :
    create? serial (.int n) (.int m) (.int d) name standardNamer keyOf = .error fault ↔
      ∃ cause, (checkMatrixExtent d.toNat = .error cause ∨
        checkMatrixExtent d.toNat = .ok () ∧ checkListExtent Capacity.flags n.toNat = .error cause) ∧
        fault = .extent cause := by
  have hextent : ∀ (value bound : Int) (cause : Argument → Cause), bound ≤ value →
      extentNumber (.int value) bound cause = .ok (.int value) := by
    intro value bound cause hle
    simp [extentNumber, Int.not_lt.mpr hle]
  unfold create?
  rw [hextent n 1 _ hn, hextent m 0 _ hm, hextent d 2 _ hd]
  show ((standardNamer d.toNat).mapError CircuitFault.extent >>= fun namer =>
    (checkListExtent Capacity.flags n.toNat).mapError CircuitFault.extent >>= fun _ =>
      pure (empty serial n.toNat m.toNat d.toNat name namer keyOf)) = _ ↔ _
  simp only [bind_eq_error, mapError_eq_error, mapError_eq_ok, standardNamer_eq_error, pure,
    Except.pure, reduceCtorEq, and_false, exists_false, or_false, ← exists_standardNamer]
  constructor
  · rintro (⟨cause, hcause, rfl⟩ | ⟨namer, hnamer, cause, hcause, rfl⟩)
    · exact ⟨cause, .inl hcause, rfl⟩
    · exact ⟨cause, .inr ⟨⟨namer, hnamer⟩, hcause⟩, rfl⟩
  · rintro ⟨cause, hcause | ⟨⟨namer, hnamer⟩, hcause⟩, rfl⟩
    · exact .inl ⟨cause, hcause, rfl⟩
    · exact .inr ⟨namer, hnamer, cause, hcause, rfl⟩

/-- Extents that are refused otherwise than by a value are too large. -/
theorem tooLarge_iff {report : Json} {cause : ExtentFault}
    (hqudits : 1 ≤ integerField report "n_qudits") (hdim : 2 ≤ integerField report "dim") :
    TooLarge report cause ↔ ¬ cause.IsValue ∧
      (checkMatrixExtent (integerField report "dim").toNat = .error cause ∨
        checkMatrixExtent (integerField report "dim").toNat = .ok () ∧
          checkListExtent Capacity.flags (integerField report "n_qudits").toNat = .error cause) := by
  unfold checkMatrixExtent checkListExtent
  constructor
  · rintro (⟨hdim, hword⟩ | ⟨hdim, hqudits⟩ | ⟨hdim, hqudits, hword⟩)
    · refine ⟨id, .inl ?_⟩
      rw [if_neg (by omega), if_pos (by omega)]
    · refine ⟨id, .inr ⟨?_, ?_⟩⟩
      · rw [if_neg (by omega), if_neg (by omega)]
      · rw [if_pos (by omega)]
    · refine ⟨id, .inr ⟨?_, ?_⟩⟩
      · rw [if_neg (by omega), if_neg (by omega)]
      · rw [if_neg (by omega), if_pos (by omega)]
  · rintro ⟨hfault, hmatrix | ⟨hmatrix, hlist⟩⟩
    · split_ifs at hmatrix
      · cases hmatrix
        exact (hfault trivial).elim
      · cases hmatrix
        exact .matrix (by omega) (by omega)
    · split_ifs at hmatrix
      split_ifs at hlist
      · cases hlist
        exact .count (by omega) (by omega)
      · cases hlist
        exact .list (by omega) (by omega) (by omega)

theorem emptyCircuit_escapes_iff (serial : Nat) {report : Json} {fault : RebuildFault}
    (h : ReportLayout report) :
    (emptyCircuit serial report = .error fault ∧ ¬ fault.IsValue) ↔
      ∃ cause, TooLarge report cause ∧ fault = .circuit (.extent cause) := by
  have hleast : ∀ name least, (name, least) ∈ integerFields → least ≤ integerField report name := by
    intro name least hfield
    obtain ⟨n, hn, hle⟩ := h.integers _ hfield
    rw [integerField, hn]
    exact hle
  have hqudits := hleast "n_qudits" 1 (by decide)
  have hdits := hleast "n_dits" 0 (by decide)
  have hdim := hleast "dim" 2 (by decide)
  unfold emptyCircuit
  simp only [mapError_eq_error, create?_eq_error hqudits hdits hdim, tooLarge_iff hqudits hdim]
  constructor
  · rintro ⟨⟨_, ⟨cause, hcause, rfl⟩, rfl⟩, hfault⟩
    exact ⟨cause, ⟨hfault, hcause⟩, rfl⟩
  · rintro ⟨cause, ⟨hfault, hcause⟩, rfl⟩
    exact ⟨⟨_, ⟨cause, hcause, rfl⟩, rfl⟩, hfault⟩

/-! ## Reports -/

/-- What the circuit of a report that follows the layout is refused with, for another reason than a
value. -/
inductive Escapes (serial : Nat) (report : Json) : RebuildFault → Prop
  /-- An operator cannot be read. -/
  | operand {before behind : List (String × Json)} {key : String} {value : Json}
    {cause : MatrixFault}
    (hmembers : report.get? "operands" = some (.object (before ++ (key, value) :: behind)))
    (hbefore : ∀ member ∈ before, ∃ op, Operator.decode member.2 = .ok op)
    (hvalue : Operator.decode value = .error cause) (hcause : ¬ cause.IsValue) :
    Escapes serial report (.matrix cause)
  /-- The extents are too large. -/
  | extents {members : List (String × Json)} {operands : Operands} {cause : ExtentFault}
    (hmembers : report.get? "operands" = some (.object members))
    (hread : readOperands members = .ok operands) (hlarge : TooLarge report cause) :
    Escapes serial report (.circuit (.extent cause))
  /-- A step is at fault. -/
  | step {members : List (String × Json)} {operands : Operands} {start c : Circuit Float}
    {before behind : List Json} {entry : Json} {fault : RebuildFault}
    (hmembers : report.get? "operands" = some (.object members))
    (hread : readOperands members = .ok operands)
    (hstart : emptyCircuit serial report = .ok start)
    (hsteps : report.get? "steps" = some (.array (before ++ entry :: behind)))
    (hbefore : replay operands start before = .ok c)
    (hentry : StepEscapes operands c entry fault) : Escapes serial report fault

/-- The stages at which a report is refused. -/
theorem rebuild_eq_error {serial : Nat} {report : Json} {fault : RebuildFault} :
    rebuild serial report = .error fault ↔
      (∃ cause, validate report = .error cause ∧ fault = .report cause) ∨
      (ReportLayout report ∧ report.get? "operands" = none ∧ fault = .noOperands) ∨
      ReportLayout report ∧ ∃ members, report.get? "operands" = some (.object members) ∧
        (readOperands members = .error fault ∨ ∃ operands, readOperands members = .ok operands ∧
          (emptyCircuit serial report = .error fault ∨
            ∃ start, emptyCircuit serial report = .ok start ∧
              replay operands start (itemsOf (report.get? "steps")) = .error fault)) := by
  cases hvalid : validate report with
  | error cause =>
    have hlayout : ¬ ReportLayout report := fun h => by
      rw [validate_eq_ok.mpr h] at hvalid
      cases hvalid
    have hrebuild : rebuild serial report = .error (.report cause) := by
      unfold rebuild prepare
      rw [hvalid]
      rfl
    simp [hrebuild, hlayout, eq_comm]
  | ok =>
    have hlayout : ReportLayout report := validate_eq_ok.mp hvalid
    cases hgiven : report.get? "operands" with
    | none =>
      have hrebuild : rebuild serial report = .error .noOperands := by
        unfold rebuild prepare
        rw [hvalid, hgiven]
        rfl
      simp [hrebuild, hlayout, eq_comm]
    | some given =>
      obtain ⟨members, rfl, -⟩ := hlayout.operands given hgiven
      have hrebuild : rebuild serial report = (readOperands members >>= fun operands =>
          emptyCircuit serial report >>= fun start =>
            replay operands start (itemsOf (report.get? "steps"))) := by
        unfold rebuild prepare
        rw [hvalid, hgiven]
        show ((readOperands members >>= fun operands => _) >>= _) = _
        cases readOperands members with
        | error => rfl
        | ok operands =>
          show ((emptyCircuit serial report >>= fun start => _) >>= _) = _
          cases emptyCircuit serial report <;> rfl
      simp [hrebuild, hlayout, bind_eq_error]

/-- A report is refused with a fault that is not that of a value just if it follows the layout, and
one of its operators, its extents or one of its steps leads to this fault. -/
theorem rebuild_escapes_iff (serial : Nat) (report : Json) (fault : RebuildFault) :
    (rebuild serial report = .error fault ∧ ¬ fault.IsValue) ↔
      ReportLayout report ∧ Escapes serial report fault := by
  rw [rebuild_eq_error]
  constructor
  · rintro ⟨⟨cause, -, rfl⟩ | ⟨-, -, rfl⟩ | ⟨hlayout, members, hmembers, hrest⟩, hfault⟩
    · exact (hfault trivial).elim
    · exact (hfault trivial).elim
    refine ⟨hlayout, ?_⟩
    rcases hrest with hread | ⟨operands, hread, hempty | ⟨start, hstart, hreplay⟩⟩
    · obtain ⟨before, key, value, behind, cause, rfl, hbefore, hvalue, rfl⟩ :=
        readOperands_eq_error.mp hread
      exact .operand hmembers hbefore hvalue hfault
    · obtain ⟨cause, hlarge, rfl⟩ := (emptyCircuit_escapes_iff serial hlayout).mp ⟨hempty, hfault⟩
      exact .extents hmembers hread hlarge
    · obtain ⟨entries, hentries, hsteps⟩ := hlayout.steps
      rw [hentries] at hreplay
      obtain ⟨before, entry, behind, c, rfl, hbefore, hentry⟩ := replay_eq_error.mp hreplay
      obtain ⟨_, _, _, _, _, hreads⟩ := (hsteps before.length entry (by simp)).reads
      exact .step hmembers hread hstart hentries hbefore
        ((stepFails_escapes_iff hreads).mp ⟨hentry, hfault⟩)
  · rintro ⟨hlayout, hescapes⟩
    cases hescapes with
    | @operand before behind key value cause hmembers hbefore hvalue hcause =>
      have hread : readOperands (before ++ (key, value) :: behind) = .error (.matrix cause) :=
        readOperands_eq_error.mpr ⟨before, key, value, behind, cause, rfl, hbefore, hvalue, rfl⟩
      exact ⟨.inr (.inr ⟨hlayout, _, hmembers, .inl hread⟩), hcause⟩
    | extents hmembers hread hlarge =>
      obtain ⟨hempty, hfault⟩ :=
        (emptyCircuit_escapes_iff serial hlayout).mpr ⟨_, hlarge, rfl⟩
      exact ⟨.inr (.inr ⟨hlayout, _, hmembers, .inr ⟨_, hread, .inl hempty⟩⟩), hfault⟩
    | @step members operands start c before behind entry _ hmembers hread hstart hsteps hbefore
        hentry =>
      obtain ⟨entries, hentries, hlayouts⟩ := hlayout.steps
      obtain rfl := Json.array.inj (Option.some.inj (hentries.symm.trans hsteps))
      obtain ⟨_, _, _, _, _, hreads⟩ := (hlayouts before.length entry (by simp)).reads
      obtain ⟨hfails, hfault⟩ := (stepFails_escapes_iff hreads).mpr hentry
      have hreplay : replay operands start (itemsOf (report.get? "steps")) = .error fault := by
        rw [hsteps]
        exact replay_eq_error.mpr ⟨before, entry, behind, c, rfl, hbefore, hfails⟩
      exact ⟨.inr (.inr ⟨hlayout, _, hmembers, .inr ⟨_, hread, .inr ⟨_, hstart, hreplay⟩⟩⟩), hfault⟩

end Limits

section

attribute [local instance] Capacity.common

/-- A measurement of digits that lists no target follows the layout, and lacks an index. -/
theorem rebuild_escapes :
    let entry : Json := .object [("step", .int 0), ("type", .string "MEASURE_Z"),
      ("targets", .integers []), ("dit", .int 0), ("name", .string "Z")]
    let report : Json := .object [("version", .string version), ("n_qudits", .int 1),
      ("n_dits", .int 1), ("dim", .int 2), ("steps", .array [entry]), ("gate_count", .int 0),
      ("measurement_count", .int 1), ("measured", .integers []), ("non_measured", .integers [0]),
      ("operands", .object [])]
    rebuild 0 report = .error .noIndex ∧ ¬ RebuildFault.noIndex.IsValue := by
  intro entry report
  exact ⟨rfl, id⟩

end

end Report

end QuditSim
