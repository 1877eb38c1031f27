import QuditSim.Proofs.Report.Faithful

/-!
# What the layout documents and what the check asks

The layout of reports documents most of its fields as integers. A document can write other values
that are equal to an integer: a truth value counts as one or zero, and a double can have the value of
an integer. The check of a report asks of counts and indices that they were written as integers. Of
the number of a step it asks that it is equal to the place of the step, and of a dit only that it
counts as one of the dits.

- `Report.Documented` is the layout as it is documented: every integer was written as one and is in
  its range.
- `Report.EqualsPlace` and `Report.CountsAsDit` are the values that the check takes as the number of a
  step and as a dit.
- `Report.documented_iff_integers`: a report that the check lets pass is one of the documented layout
  just if the numbers and the dits of its steps were written as integers.
- `Report.undocumented_passes` is a report that passes without being one.
-/

namespace QuditSim

namespace Report

/-! ## The documented layout -/

/-- The bound of the controls of a step: dits control some kinds of gates, and qudits the others. A
text that is no kind of gate does not tell the two apart. -/
def controlBound (qudits dits : Int) (kind : String) : Int :=
  match GateKind.ofName? kind with
  | some gate => if gate.isClassicallyControlled then dits else qudits
  | none => max qudits dits

/-- What is documented of the step at an index. -/
structure DocumentedStep (qudits dits : Int) (index : Nat) (entry : Json) : Prop where
  /-- The step is an object. -/
  object : ∃ members, entry = .object members
  /-- Its number is the integer of its place. -/
  number : entry.get? "step" = some (.int index)
  /-- The name is a text. -/
  name : ∃ name, entry.get? "name" = some (.string name)
  /-- The kind is a text, and controls are integers in the range that goes with it. -/
  kind : ∃ kind, entry.get? "type" = some (.string kind) ∧
    ∀ controls ∈ entry.get? "controls", IsIndexList (controlBound qudits dits kind) controls
  /-- The targets are integers in the range of the qudits. -/
  targets : ∃ targets, entry.get? "targets" = some targets ∧ IsIndexList qudits targets
  /-- A dit is an integer in the range of the dits. -/
  dit : ∀ dit ∈ entry.get? "dit", ∃ i, dit = .int i ∧ 0 ≤ i ∧ i < dits
  /-- An operator is named by a text. -/
  operand : ∀ operand ∈ entry.get? "operand", ∃ key, operand = .string key

/-- A value is an object with the three fields of an operator. -/
def HasOperatorFields (value : Json) : Prop :=
  ∃ members shape real imag, value = .object members ∧ members.lookup "shape" = some shape ∧
    members.lookup "real" = some real ∧ members.lookup "imag" = some imag

/-- What is documented of a report, with the sizes of its registers and its steps. -/
structure Documented (report : Json) (qudits dits : Int) (entries : List Json) : Prop where
  /-- The number of qudits is an integer from one on. -/
  quditCount : report.get? "n_qudits" = some (.int qudits) ∧ 1 ≤ qudits
  /-- The number of dits is an integer from zero on. -/
  ditCount : report.get? "n_dits" = some (.int dits) ∧ 0 ≤ dits
  /-- The dimension is an integer from two on. -/
  dim : ∃ d, report.get? "dim" = some (.int d) ∧ 2 ≤ d
  /-- The gates are counted by an integer from zero on. -/
  gateCount : ∃ n, report.get? "gate_count" = some (.int n) ∧ 0 ≤ n
  /-- The measurements are counted by an integer from zero on. -/
  measurementCount : ∃ n, report.get? "measurement_count" = some (.int n) ∧ 0 ≤ n
  /-- A name is a text. -/
  name : ∀ name ∈ report.get? "name", ∃ text, name = .string text
  /-- The steps are a list. -/
  steps_eq : report.get? "steps" = some (.array entries)
  /-- Each step is as documented. -/
  steps : ∀ index entry, entries[index]? = some entry → DocumentedStep qudits dits index entry
  /-- The measured qudits are integers in the range of the qudits. -/
  measured : ∃ indices, report.get? "measured" = some indices ∧ IsIndexList qudits indices
  /-- The other qudits are integers in the range of the qudits. -/
  nonMeasured : ∃ indices, report.get? "non_measured" = some indices ∧ IsIndexList qudits indices
  /-- The operators are an object, and each of them has its fields. -/
  operands : ∀ operands ∈ report.get? "operands", ∃ members, operands = .object members ∧
    ∀ member ∈ members, HasOperatorFields member.2

/-! ## What the check takes for an integer -/

/-- A value is equal to the place of a step: it is the integer, a double with its value, or the truth
value that counts as it. -/
def EqualsPlace (index : Nat) (value : Json) : Prop :=
  value = .int index ∨ (∃ x, value = .float x ∧ (x == Float.ofInt index) = true) ∨
    ∃ b : Bool, value = .bool b ∧ b.toNat = index

/-- A value counts as one of the dits: it is the integer or the truth value that counts as it. -/
def CountsAsDit (dits : Int) (value : Json) : Prop :=
  ∃ i, (value = .int i ∨ ∃ b : Bool, value = .bool b ∧ (b.toNat : Int) = i) ∧ 0 ≤ i ∧ i < dits

theorem isInteger_eq_true {value : Json} {index : Nat} :
    value.isInteger index = true ↔ EqualsPlace index value := by
  unfold EqualsPlace
  cases value with
  | number x =>
    cases x with
    | int n => simp [Json.isInteger, Json.number?, Json.int, Json.float]
    | float x =>
      show (x == Float.ofInt index) = true ↔ _
      simp [Json.int, Json.float]
  | bool b =>
    cases b <;>
      simp [Json.isInteger, Json.number?, Json.int, Json.float] <;> omega
  | _ => simp [Json.isInteger, Json.number?, Json.int, Json.float]

theorem integral?_eq_some {value : Json} {i : Int} :
    value.integral? = some i ↔ value = .int i ∨ ∃ b : Bool, value = .bool b ∧ (b.toNat : Int) = i := by
  cases value with
  | number x => cases x <;> simp [Json.integral?, Json.int]
  | bool b => cases b <;> simp [Json.integral?, Json.int]
  | _ => simp [Json.integral?, Json.int]

/-- The numbers of a step were written as integers. -/
def WrittenAsIntegers (index : Nat) (entry : Json) : Prop :=
  entry.get? "step" = some (.int index) ∧ ∀ dit ∈ entry.get? "dit", ∃ i, dit = .int i

/-! ## From the check to the documents -/

theorem hasOperatorFields {value : Json} (h : holdsOperator value = true) :
    HasOperatorFields value := by
  cases value with
  | object members =>
    simp only [holdsOperator, List.all_cons, List.all_nil, Bool.and_true, Bool.and_eq_true,
      Option.isSome_iff_exists] at h
    obtain ⟨⟨shape, hshape⟩, ⟨real, hreal⟩, ⟨imag, himag⟩⟩ := h
    exact ⟨members, shape, real, imag, rfl, hshape, hreal, himag⟩
  | _ => cases h

theorem IsIndexList.mono {bound larger : Int} {value : Json} (h : IsIndexList bound value)
    (hle : bound ≤ larger) : IsIndexList larger value := by
  obtain ⟨indices, rfl, hall⟩ := h
  exact ⟨indices, rfl, fun i hi => ⟨(hall i hi).1, Int.lt_of_lt_of_le (hall i hi).2 hle⟩⟩

/-- The range that the check takes from the text of a kind is that of the kind. -/
theorem le_controlBound (qudits dits : Int) (kind : String) :
    (if namesDitControl kind then dits else qudits) ≤ controlBound qudits dits kind := by
  unfold controlBound
  cases hkind : GateKind.ofName? kind with
  | none =>
    split
    · exact Int.le_max_right _ _
    · exact Int.le_max_left _ _
  | some gate =>
    have hname : namesDitControl gate.name = gate.isClassicallyControlled :=
      Step.namesDitControl_kindName (.gate ⟨gate, 0, [], [], ""⟩)
    exact Int.le_of_eq (by rw [GateKind.name_of_ofName? hkind, hname])

variable {report entry : Json} {qudits dits : Int} {index : Nat}

/-- A step that the check lets pass is as documented just if its numbers were written as integers. -/
theorem StepLayout.documented_iff (h : StepLayout qudits dits index entry) :
    DocumentedStep qudits dits index entry ↔ WrittenAsIntegers index entry := by
  constructor
  · intro hdocumented
    refine ⟨hdocumented.number, fun dit hdit => ?_⟩
    obtain ⟨i, rfl, -⟩ := hdocumented.dit dit hdit
    exact ⟨i, rfl⟩
  · rintro ⟨hnumber, hdit⟩
    refine ⟨h.object, hnumber, h.name, ?_, h.targets, fun dit hgiven => ?_, h.operand⟩
    · obtain ⟨kind, hkind⟩ := h.kind
      refine ⟨kind, hkind, fun controls hcontrols => ?_⟩
      have hrange := h.controls controls hcontrols
      rw [hkind] at hrange
      exact hrange.mono (le_controlBound qudits dits kind)
    · -- the check looks at the integer that a dit counts as, which here is the dit itself
      obtain ⟨i, hi, hrange⟩ := h.dit dit hgiven
      obtain ⟨_, rfl⟩ := hdit dit hgiven
      cases hi
      exact ⟨i, rfl, hrange⟩

/-- A report that the check lets pass has the sizes of its registers as integers. -/
theorem ReportLayout.integerField_eq (h : ReportLayout report) {field : String} {least : Int}
    (hfield : (field, least) ∈ integerFields) :
    report.get? field = some (.int (integerField report field)) ∧
      least ≤ integerField report field := by
  obtain ⟨n, hn, hle⟩ := h.integers _ hfield
  have hvalue : integerField report field = n := by
    rw [integerField, hn]
    rfl
  rw [hvalue]
  exact ⟨hn, hle⟩

/-- Whatever a report says, if the check lets it pass, then it is one of the documented layout just
if the numbers and the dits of its steps were written as integers. In any case the number of a step
is equal to its place, and a dit counts as one of the dits. -/
theorem documented_iff_integers (h : validate report = .ok ()) :
    ∃ qudits dits entries, report.get? "n_qudits" = some (.int qudits) ∧
      report.get? "n_dits" = some (.int dits) ∧ report.get? "steps" = some (.array entries) ∧
      (Documented report qudits dits entries ↔
        ∀ index entry, entries[index]? = some entry → WrittenAsIntegers index entry) ∧
      ∀ index entry, entries[index]? = some entry →
        (∃ number, entry.get? "step" = some number ∧ EqualsPlace index number) ∧
          ∀ dit ∈ entry.get? "dit", CountsAsDit dits dit := by
  have hlayout := validate_eq_ok.mp h
  obtain ⟨entries, hentries, hsteps⟩ := hlayout.steps
  have hmem : ("n_qudits", 1) ∈ integerFields ∧ ("n_dits", 0) ∈ integerFields := by
    simp [integerFields]
  have hqudits := hlayout.integerField_eq hmem.1
  have hdits := hlayout.integerField_eq hmem.2
  refine ⟨_, _, entries, hqudits.1, hdits.1, hentries, ⟨fun hdocumented index entry hentry => ?_,
    fun hwritten => ?_⟩, fun index entry hentry => ?_⟩
  · exact (hsteps index entry hentry).documented_iff.mp (hdocumented.steps index entry hentry)
  · refine ⟨hqudits, hdits, hlayout.integers ("dim", 2) (by simp [integerFields]),
      hlayout.integers ("gate_count", 0) (by simp [integerFields]),
      hlayout.integers ("measurement_count", 0) (by simp [integerFields]), hlayout.name, hentries,
      fun index entry hentry => ?_, hlayout.measured, hlayout.nonMeasured,
      fun operands hoperands => ?_⟩
    · exact (hsteps index entry hentry).documented_iff.mpr (hwritten index entry hentry)
    · obtain ⟨members, rfl, hmembers⟩ := hlayout.operands operands hoperands
      exact ⟨members, rfl, fun member hmember => hasOperatorFields (hmembers member hmember)⟩
  · obtain ⟨number, hnumber, hplace⟩ := (hsteps index entry hentry).number
    refine ⟨⟨number, hnumber, isInteger_eq_true.mp hplace⟩, fun dit hdit => ?_⟩
    obtain ⟨i, hi, hrange⟩ := (hsteps index entry hentry).dit dit hdit
    exact ⟨i, integral?_eq_some.mp hi, hrange⟩

/-- A report of one measurement with a number and a dit that were written as integers is one of the
documented layout. -/
theorem documented_iff_integers_measurement :
    let entry : Json := .object [("step", .int 0), ("type", .string "MEASURE_Z"),
      ("targets", .integers [1]), ("dit", .int 0), ("name", .string "Z")]
    let report : Json := .object [("version", .string version), ("n_qudits", .int 2),
      ("n_dits", .int 1), ("dim", .int 3), ("steps", .array [entry]), ("gate_count", .int 0),
      ("measurement_count", .int 1), ("measured", .integers [1]), ("non_measured", .integers [0])]
    validate report = .ok () ∧ WrittenAsIntegers 0 entry ∧ Documented report 2 1 [entry] := by
  intro entry report
  have hvalid : validate report = .ok () := rfl
  have hentry : WrittenAsIntegers 0 entry := by
    refine ⟨rfl, ?_⟩
    rintro _ ⟨⟩
    exact ⟨0, rfl⟩
  obtain ⟨qudits, dits, entries, hqudits, hdits, hentries, hiff, -⟩ := documented_iff_integers hvalid
  cases hqudits
  cases hdits
  cases hentries
  refine ⟨hvalid, hentry, hiff.mpr fun index entry hindex => ?_⟩
  cases index with
  | zero =>
    cases hindex
    exact hentry
  | succ index => cases hindex

/-- The check lets a report pass in which the number of a gate is the double zero, and the number and
the dit of a measurement are truth values. -/
theorem undocumented_passes :
    let gate : Json := .object [("step", .float 0), ("type", .string "SINGLE"),
      ("targets", .integers [0]), ("name", .string "X")]
    let measurement : Json := .object [("step", .bool true), ("type", .string "MEASURE_Z"),
      ("targets", .integers [0]), ("dit", .bool false), ("name", .string "Z")]
    let report : Json := .object [("version", .string version), ("n_qudits", .int 1),
      ("n_dits", .int 1), ("dim", .int 2), ("steps", .array [gate, measurement]),
      ("gate_count", .int 1), ("measurement_count", .int 1), ("measured", .integers [0]),
      ("non_measured", .integers [])]
    validate report = .ok () ∧ gate.get? "step" = some (.float 0) ∧
      measurement.get? "step" = some (.bool true) ∧ measurement.get? "dit" = some (.bool false) ∧
      ¬ DocumentedStep 1 1 0 gate ∧ ¬ DocumentedStep 1 1 1 measurement ∧
      ∀ qudits dits, ¬ Documented report qudits dits [gate, measurement] := by
  intro gate measurement report
  have hgate (qudits dits : Int) : ¬ DocumentedStep qudits dits 0 gate := by
    intro hstep
    have hnumber : some (Json.float 0) = some (Json.int 0) := hstep.number
    cases hnumber
  refine ⟨rfl, rfl, rfl, rfl, hgate 1 1, fun hstep => ?_, fun qudits dits hreport => ?_⟩
  · obtain ⟨i, hi, -⟩ := hstep.dit (.bool false) rfl
    cases hi
  · exact hgate qudits dits (hreport.steps 0 gate rfl)

end Report

end QuditSim
