import QuditSim.Proofs.Fallible
import QuditSim.Report.Validation

/-!
# The layout of reports as conditions

`Report.validate` walks over a report and stops at the first thing that is wrong. A report that it
lets pass is one that meets a list of conditions on its fields, and any such report is let pass.

- `Report.StepLayout` and `Report.checkStep_eq_ok` say this of one step.
- `Report.ReportLayout` and `Report.validate_eq_ok` say it of a whole report.
-/

namespace QuditSim

namespace Report

open Fallible

/-- A list of indices in the range below a bound, as a value. -/
def IsIndexList (bound : Int) (value : Json) : Prop :=
  ∃ indices, value = .integers indices ∧ ∀ i ∈ indices, 0 ≤ i ∧ i < bound

/-- What the layout asks of the step at an index. -/
structure StepLayout (qudits dits : Int) (index : Nat) (entry : Json) : Prop where
  /-- The step is an object. -/
  object : ∃ members, entry = .object members
  /-- Its number is its place. -/
  number : ∃ number, entry.get? "step" = some number ∧ number.isInteger index = true
  /-- The kind is a text. -/
  kind : ∃ kind, entry.get? "type" = some (.string kind)
  /-- The name is a text. -/
  name : ∃ name, entry.get? "name" = some (.string name)
  /-- The targets are qudits. -/
  targets : ∃ targets, entry.get? "targets" = some targets ∧ IsIndexList qudits targets
  /-- A dit is one of the dits. -/
  dit : ∀ dit ∈ entry.get? "dit", ∃ i, dit.integral? = some i ∧ 0 ≤ i ∧ i < dits
  /-- Controls are dits or qudits, as the kind says. -/
  controls : ∀ controls ∈ entry.get? "controls", IsIndexList
    (if namesDitControl (textOf ((entry.get? "type").getD .null)) then dits else qudits) controls
  /-- An operator is named by a text. -/
  operand : ∀ operand ∈ entry.get? "operand", ∃ key, operand = .string key

/-- What the layout asks of a report. -/
structure ReportLayout (report : Json) : Prop where
  /-- The report is an object. -/
  object : ∃ members, report = .object members
  /-- The version is the supported one. -/
  version : report.get? "version" = some (.string version)
  /-- The counts are integers from their least values on. -/
  integers : ∀ field ∈ integerFields, ∃ n, report.get? field.1 = some (.int n) ∧ field.2 ≤ n
  /-- A name is a text. -/
  name : ∀ name ∈ report.get? "name", ∃ text, name = .string text
  /-- Each step follows the layout. -/
  steps : ∃ entries, report.get? "steps" = some (.array entries) ∧ ∀ index entry,
    entries[index]? = some entry →
      StepLayout (integerField report "n_qudits") (integerField report "n_dits") index entry
  /-- The measured qudits are qudits. -/
  measured : ∃ qudits, report.get? "measured" = some qudits ∧
    IsIndexList (integerField report "n_qudits") qudits
  /-- The other qudits are qudits. -/
  nonMeasured : ∃ qudits, report.get? "non_measured" = some qudits ∧
    IsIndexList (integerField report "n_qudits") qudits
  /-- The operators have their fields. -/
  operands : ∀ operands ∈ report.get? "operands", ∃ members, operands = .object members ∧
    ∀ member ∈ members, holdsOperator member.2 = true
  /-- The metadata is an object. -/
  metadata : ∀ metadata ∈ report.get? "metadata", ∃ members, metadata = .object members
  /-- The order of bytes is one of the two. -/
  endian : ∀ order ∈ report.get? "endian", isByteOrder order = true

/-! ## Fields -/

theorem field_eq_ok {report value : Json} {place : ReportPlace} {name : String} :
    field report place name = .ok value ↔ report.get? name = some value := by
  unfold field
  cases report.get? name <;> simp

theorem checkObject_eq_ok {place : ReportPlace} {value : Json} :
    checkObject place value = .ok () ↔ ∃ members, value = .object members := by
  cases value <;> simp [checkObject]

theorem isText_eq_true {value : Json} : isText value = true ↔ ∃ text, value = .string text := by
  cases value <;> simp [isText]

theorem integer?_eq_some {value : Json} {n : Int} : value.integer? = some n ↔ value = .int n := by
  cases value with
  | number x => cases x <;> simp [Json.integer?, Json.int]
  | _ => simp [Json.integer?, Json.int]

theorem checkInteger_eq_ok {report : Json} {name : String} {least : Int} :
    checkInteger report name least = .ok () ↔
      ∃ n, report.get? name = some (.int n) ∧ least ≤ n := by
  unfold checkInteger
  simp only [bind_eq_ok, field_eq_ok]
  constructor
  · rintro ⟨value, hvalue, h⟩
    cases hn : value.integer? with
    | none => simp [hn, throw, throwThe, MonadExceptOf.throw] at h
    | some n =>
      simp only [hn] at h
      rw [integer?_eq_some.mp hn] at hvalue
      refine ⟨n, hvalue, Int.not_lt.mp fun hlt => ?_⟩
      rw [if_pos hlt] at h
      cases h
  · rintro ⟨n, hvalue, hle⟩
    refine ⟨_, hvalue, ?_⟩
    show (if n < least then _ else _) = _
    rw [if_neg (Int.not_lt.mpr hle)]
    rfl

theorem checkItems_eq_ok {bound : Int} {items : List Json} {place : Nat} :
    checkItems bound items place = .ok () ↔
      ∃ indices : List Int, items = indices.map Json.int ∧ ∀ i ∈ indices, 0 ≤ i ∧ i < bound := by
  induction items generalizing place with
  | nil => simp [checkItems]
  | cons item items ih =>
    unfold checkItems
    cases hn : item.integer? with
    | none =>
      -- an item that is no integer is not the first one of a list of integers
      simp only [reduceCtorEq, false_iff]
      rintro ⟨_ | ⟨i, indices⟩, hitems, -⟩
      · cases hitems
      · rw [List.map_cons] at hitems
        rw [(List.cons.inj hitems).1] at hn
        cases hn
    | some n =>
      obtain rfl := integer?_eq_some.mp hn
      dsimp only
      split
      · next hrange =>
        simp only [reduceCtorEq, false_iff]
        rintro ⟨_ | ⟨i, indices⟩, hitems, hall⟩
        · cases hitems
        · cases (List.cons.inj hitems).1
          have := hall n List.mem_cons_self
          omega
      · next hrange =>
        rw [ih]
        constructor
        · rintro ⟨indices, rfl, hall⟩
          exact ⟨n :: indices, rfl, List.forall_mem_cons.mpr ⟨by omega, hall⟩⟩
        · rintro ⟨_ | ⟨i, indices⟩, hitems, hall⟩
          · cases hitems
          · exact ⟨indices, (List.cons.inj hitems).2, (List.forall_mem_cons.mp hall).2⟩

theorem checkIndices_eq_ok {place : ReportPlace} {name : String} {bound : Int} {value : Json} :
    checkIndices place name bound value = .ok () ↔ IsIndexList bound value := by
  cases value with
  | array items =>
    simp only [checkIndices, mapError_eq_ok, checkItems_eq_ok, IsIndexList, Json.integers,
      Json.array.injEq]
  | _ => simp [checkIndices, IsIndexList, Json.integers]

theorem checkDit_eq_ok {index : Nat} {dits : Int} {value : Json} :
    checkDit index dits value = .ok () ↔ ∃ i, value.integral? = some i ∧ 0 ≤ i ∧ i < dits := by
  unfold checkDit
  cases value.integral? <;> simp

theorem checkOperands_eq_ok {members : List (String × Json)} :
    checkOperands members = .ok () ↔ ∀ member ∈ members, holdsOperator member.2 = true := by
  induction members with
  | nil => simp [checkOperands]
  | cons member members ih =>
    unfold checkOperands
    by_cases h : holdsOperator member.2 = true
    · simp [h, ih]
    · simp [h]

/-! ## Steps -/

/-- The check of a value that may be missing. -/
def ifGiven {ε α : Type} (given : Option α) (check : α → Except ε Unit) : Except ε Unit :=
  match given with
  | some a => check a
  | none => .ok ()

theorem ifGiven_eq_ok {ε α : Type} {given : Option α} {check : α → Except ε Unit} :
    ifGiven given check = .ok () ↔ ∀ a ∈ given, check a = .ok () := by
  cases given <;> simp [ifGiven]

/-- Refuses a value that does not pass a test. -/
def demand {ε α : Type} (test : α → Bool) (fault : α → ε) (a : α) : Except ε Unit :=
  if !test a then .error (fault a) else .ok ()

theorem demand_eq_ok {ε α : Type} {test : α → Bool} {fault : α → ε} {a : α} :
    demand test fault a = .ok () ↔ test a = true := by
  simp [demand]

theorem checkStep_eq (qudits dits : Int) (index : Nat) (entry : Json) :
    checkStep qudits dits index entry = (do
      let place := ReportPlace.step index
      checkObject place entry
      let number ← field entry place "step"
      let kind ← field entry place "type"
      let targets ← field entry place "targets"
      let name ← field entry place "name"
      if !number.isInteger index then throw (.stepNumber index number.plain)
      if !isText kind then throw (.stepNotText index "type")
      if !isText name then throw (.stepNotText index "name")
      checkIndices place "targets" qudits targets
      ifGiven (entry.get? "dit") (checkDit index dits)
      ifGiven (entry.get? "controls")
        (checkIndices place "controls" (if namesDitControl (textOf kind) then dits else qudits))
      ifGiven (entry.get? "operand") (demand isText fun _ => .stepNotText index "operand")) := by
  -- each of the three fields that may be missing is there or not
  unfold checkStep
  cases entry.get? "dit" <;> cases entry.get? "controls" <;> cases entry.get? "operand" <;> rfl

/-- A step is let pass just if it follows the layout. -/
theorem checkStep_eq_ok {qudits dits : Int} {index : Nat} {entry : Json} :
    checkStep qudits dits index entry = .ok () ↔ StepLayout qudits dits index entry := by
  rw [checkStep_eq]
  simp only [bind_eq_ok, exists_unit, ↓guard_eq_ok, field_eq_ok, checkObject_eq_ok,
    checkIndices_eq_ok, checkDit_eq_ok, ifGiven_eq_ok, demand_eq_ok, Bool.not_eq_true',
    Bool.not_eq_false, isText_eq_true]
  constructor
  · rintro ⟨hobject, number, hnumber, _, hkind, targets, htargets, _, hname, hplace, ⟨kind, rfl⟩,
      ⟨name, rfl⟩, hindices, hdit, hcontrols, hkey⟩
    refine ⟨hobject, ⟨number, hnumber, hplace⟩, ⟨kind, hkind⟩, ⟨name, hname⟩,
      ⟨targets, htargets, hindices⟩, hdit, ?_, hkey⟩
    rw [hkind]
    exact hcontrols
  · rintro ⟨hobject, ⟨number, hnumber, hplace⟩, ⟨kind, hkind⟩, ⟨name, hname⟩,
      ⟨targets, htargets, hindices⟩, hdit, hcontrols, hkey⟩
    rw [hkind] at hcontrols
    exact ⟨hobject, number, hnumber, _, hkind, targets, htargets, _, hname, hplace, ⟨kind, rfl⟩,
      ⟨name, rfl⟩, hindices, hdit, hcontrols, hkey⟩

/-- Steps are let pass just if each of them follows the layout. -/
theorem checkSteps_eq_ok {qudits dits : Int} {entries : List Json} {start : Nat} :
    checkSteps qudits dits entries start = .ok () ↔
      ∀ index entry, entries[index]? = some entry →
        StepLayout qudits dits (start + index) entry := by
  induction entries generalizing start with
  | nil => simp [checkSteps]
  | cons first entries ih =>
    simp only [checkSteps, bind_eq_ok, exists_unit, checkStep_eq_ok, ih]
    constructor
    · rintro ⟨hfirst, hrest⟩ (_ | index) entry hentry
      · cases hentry
        exact hfirst
      · rw [Nat.add_comm index, ← Nat.add_assoc]
        exact hrest index entry hentry
    · intro h
      refine ⟨h 0 first rfl, fun index entry hentry => ?_⟩
      rw [Nat.add_assoc, Nat.add_comm 1]
      exact h (index + 1) entry hentry

/-! ## Reports -/

theorem checkIntegers_eq_ok {report : Json} {fields : List (String × Int)} :
    (fields.forM fun (name, least) => checkInteger report name least) = .ok () ↔
      ∀ field ∈ fields, ∃ n, report.get? field.1 = some (.int n) ∧ field.2 ≤ n := by
  induction fields with
  | nil => simp [pure, Except.pure]
  | cons field fields ih =>
    rw [List.forall_mem_cons, ← ih, ← checkInteger_eq_ok]
    exact bind_eq_ok.trans exists_unit

/-- Refuses a value that is no list of steps that follow the layout. -/
def checkStepList (qudits dits : Int) : Json → Except ReportFault Unit
  | .array entries => checkSteps qudits dits entries 0
  | _ => .error (.notList "steps")

/-- Refuses a value that is no object of operators with their fields. -/
def checkOperandMap : Json → Except ReportFault Unit
  | .object members => checkOperands members
  | _ => .error (.notMap "operands")

/-- Refuses a value that is no object. -/
def checkMetadata : Json → Except ReportFault Unit
  | .object _ => .ok ()
  | _ => .error (.notMap "metadata")

theorem checkStepList_eq_ok {qudits dits : Int} {value : Json} :
    checkStepList qudits dits value = .ok () ↔ ∃ entries, value = .array entries ∧
      ∀ index entry, entries[index]? = some entry → StepLayout qudits dits index entry := by
  cases value with
  | array entries => simp [checkStepList, checkSteps_eq_ok]
  | _ => simp [checkStepList]

theorem checkOperandMap_eq_ok {value : Json} :
    checkOperandMap value = .ok () ↔ ∃ members, value = .object members ∧
      ∀ member ∈ members, holdsOperator member.2 = true := by
  cases value with
  | object members => simp [checkOperandMap, checkOperands_eq_ok]
  | _ => simp [checkOperandMap]

theorem checkMetadata_eq_ok {value : Json} :
    checkMetadata value = .ok () ↔ ∃ members, value = .object members := by
  cases value <;> simp [checkMetadata]

theorem validate_eq (report : Json) :
    validate report = (do
      checkObject .report report
      let given ← field report .report "version"
      if !(isText given && textOf given == version) then throw (.unsupportedVersion given.shown)
      integerFields.forM fun (name, least) => checkInteger report name least
      let qudits := integerField report "n_qudits"
      let dits := integerField report "n_dits"
      ifGiven (report.get? "name") (demand isText fun _ => .notText "name")
      checkStepList qudits dits (← field report .report "steps")
      checkIndices .report "measured" qudits (← field report .report "measured")
      checkIndices .report "non_measured" qudits (← field report .report "non_measured")
      ifGiven (report.get? "operands") checkOperandMap
      ifGiven (report.get? "metadata") checkMetadata
      ifGiven (report.get? "endian") (demand isByteOrder fun order => .unknownOrder order.shown)) := by
  unfold validate
  refine bind_congr fun _ => bind_congr fun given => ite_congr rfl (fun _ => rfl) fun _ => ?_
  refine bind_congr fun _ => ?_
  -- what is left to do behind each match, from the last one to the first
  extract_lets qudits dits order metadata operands steps
  have horder : order () = ifGiven (report.get? "endian")
      (demand isByteOrder fun order => .unknownOrder order.shown) := by
    unfold order
    cases report.get? "endian" <;> rfl
  have hmetadata : metadata () = (do
      ifGiven (report.get? "metadata") checkMetadata
      order ()) := by
    unfold metadata
    cases report.get? "metadata" with
    | none => rfl
    | some value => cases value <;> rfl
  have hoperands : operands () = (do
      checkIndices .report "measured" qudits (← field report .report "measured")
      checkIndices .report "non_measured" qudits (← field report .report "non_measured")
      ifGiven (report.get? "operands") checkOperandMap
      metadata ()) := by
    unfold operands
    refine bind_congr fun _ => bind_congr fun _ => bind_congr fun _ => bind_congr fun _ => ?_
    cases report.get? "operands" with
    | none => rfl
    | some value => cases value <;> rfl
  have hsteps : steps () = (do
      checkStepList qudits dits (← field report .report "steps")
      operands ()) := by
    refine bind_congr fun value => ?_
    cases value <;> rfl
  rw [← horder, ← hmetadata, ← hoperands, ← hsteps]
  cases report.get? "name" with
  | none => rfl
  | some name =>
    show (if !isText name then _ else _) = (if !isText name then _ else _) >>= _
    split <;> rfl

/-- A report is let pass just if it follows the layout. -/
theorem validate_eq_ok {report : Json} : validate report = .ok () ↔ ReportLayout report := by
  have hversion : ∀ value, (isText value && textOf value == version) = true ↔
      value = .string version := by
    intro value
    cases value <;> simp [isText, textOf]
  rw [validate_eq]
  simp only [bind_eq_ok, exists_unit, ↓guard_eq_ok, field_eq_ok, checkObject_eq_ok,
    checkIntegers_eq_ok, ifGiven_eq_ok, demand_eq_ok, checkIndices_eq_ok, checkStepList_eq_ok,
    checkOperandMap_eq_ok, checkMetadata_eq_ok, Bool.not_eq_true', Bool.not_eq_false, hversion,
    isText_eq_true]
  constructor
  · rintro ⟨hobject, _, hgiven, rfl, hintegers, hname, _, hfield, ⟨entries, rfl, hsteps⟩, measured,
      hmeasured, hrange, live, hlive, hliveRange, hoperands, hmetadata, horder⟩
    exact ⟨hobject, hgiven, hintegers, hname, ⟨entries, hfield, hsteps⟩, ⟨measured, hmeasured, hrange⟩,
      ⟨live, hlive, hliveRange⟩, hoperands, hmetadata, horder⟩
  · rintro ⟨hobject, hgiven, hintegers, hname, ⟨entries, hfield, hsteps⟩,
      ⟨measured, hmeasured, hrange⟩, ⟨live, hlive, hliveRange⟩, hoperands, hmetadata, horder⟩
    exact ⟨hobject, _, hgiven, rfl, hintegers, hname, _, hfield, ⟨entries, rfl, hsteps⟩, measured,
      hmeasured, hrange, live, hlive, hliveRange, hoperands, hmetadata, horder⟩

end Report

end QuditSim
