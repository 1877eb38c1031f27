import QuditSim.Proofs.Circuit.Checks
import QuditSim.Proofs.Circuit.Log
import QuditSim.Proofs.Numbers

/-!
# Well-formed circuits

Whatever is asked of a circuit, in whatever order, and whether it is accepted or refused, the
program that the circuit records is well formed: every step names qudits and dits that are there,
names none twice, has an operator of the size that it needs, and leaves alone the qudits that an
earlier step measured.

- `GateStep.Recorded` and `MeasureStep.Recorded` say what a recorded step is.
- `Circuit.WellFormed` adds how steps stand to each other and to the marks of measured qudits.
- `Circuit.sound_of_plan` reads off a plan that was made what its checks established, and
  `Circuit.WellFormed.commit` is the step lemma: recording such a plan keeps a circuit well formed.
- `Circuit.wellFormed_attemptAll` is the run lemma, over any sequence of calls.
-/

namespace QuditSim

open Fallible

/-! ## Recorded steps -/

/-- The number of qudits that the operator of a gate acts on, for a number of targets. -/
def GateKind.acted (kind : GateKind) (targets : Nat) : Nat :=
  match kind with
  | .single | .two | .three | .custom | .controlledCustom _ => targets
  | _ => 1

/-- Whether a kind of gates is recorded with the given numbers of controls and targets. -/
def GateKind.Takes (kind : GateKind) (controls targets : Nat) : Prop :=
  match kind with
  | .single => targets = 1
  | .two => targets = 2
  | .three => targets = 3
  | .custom | .fan | .controlledCustom _ => True
  | .controlled _ controlExtent targetExtent =>
    (controlExtent = .single → controls = 1) ∧ (targetExtent = .single → targets = 1)
  | .none | .fourier | .inverseFourier => False

namespace Circuit

variable {S : Type}

/-- There is a square matrix for `k` qudits under a key. -/
def HasOperator (c : Circuit S) (key : Int) (k : Nat) : Prop :=
  ∃ op, c.operands.get? key = some op ∧ op.shape = [c.dim ^ k, c.dim ^ k]

/-- The controls of a gate are what its kind asks for: at least one qudit and no target, dits, or
nothing. -/
def ControlsFit (c : Circuit S) (kind : GateKind) (controls targets : List Int) : Prop :=
  match kind.control? with
  | some .quantum =>
    controls ≠ [] ∧ (∀ q ∈ controls, InRange c.qudits q) ∧ ∀ q ∈ controls, q ∉ targets
  | some .classical => ∀ i ∈ controls, InRange c.dits i
  | none => controls = []

end Circuit

/-- What is true of a gate that a circuit recorded. -/
structure GateStep.Recorded {S : Type} (c : Circuit S) (step : GateStep) : Prop where
  /-- The targets are different qudits of the circuit. -/
  targets : TargetList c.qudits step.targets
  /-- No control is named twice. -/
  controls_nodup : step.controls.Nodup
  /-- The controls are of the sort that the kind asks for. -/
  controls : c.ControlsFit step.kind step.controls step.targets
  /-- The kind goes with the numbers of controls and targets. -/
  takes : step.kind.Takes step.controls.length step.targets.length
  /-- The operator has the size for the qudits that it acts on. -/
  operator : c.HasOperator step.key (step.kind.acted step.targets.length)

/-- What is true of a measurement that a circuit recorded. -/
structure MeasureStep.Recorded {S : Type} (c : Circuit S) (step : MeasureStep) : Prop where
  /-- The targets are different qudits of the circuit. -/
  targets : TargetList c.qudits step.targets
  /-- The dit is one of the circuit. -/
  dit : InRange c.dits step.dit
  /-- A measurement of digits has one target and no basis; any other has one basis, which has the
  size for its targets. -/
  basis : match step.kind with
    | .none => False
    | .standard => step.targets.length = 1 ∧ step.keys = []
    | .basis => step.targets.length = 1 ∧
        ∃ key, step.keys = [key] ∧ c.HasOperator key step.targets.length
    | .jointBasis => ∃ key, step.keys = [key] ∧ c.HasOperator key step.targets.length

/-- A recorded measurement reads the digit of one qudit, or its targets in a basis of its own. -/
theorem MeasureStep.Recorded.standard_or_inBasis {S : Type} {c : Circuit S} {step : MeasureStep}
    (h : step.Recorded c) :
    (step.kind = .standard ∧ ∃ q, step.targets = [q]) ∨
      (step.kind = .basis ∨ step.kind = .jointBasis) ∧
        ∃ key, step.keys = [key] ∧ c.HasOperator key step.targets.length := by
  have hbasis := h.basis
  cases hkind : step.kind with
  | none =>
    rw [hkind] at hbasis
    exact hbasis.elim
  | standard =>
    rw [hkind] at hbasis
    exact .inl ⟨rfl, List.length_eq_one_iff.mp hbasis.1⟩
  | basis =>
    rw [hkind] at hbasis
    exact .inr ⟨.inl rfl, hbasis.2⟩
  | jointBasis =>
    rw [hkind] at hbasis
    exact .inr ⟨.inr rfl, hbasis⟩

/-- What is true of a step that a circuit recorded. -/
def Step.Recorded {S : Type} (c : Circuit S) : Step → Prop
  | .gate step => step.Recorded c
  | .measure step => step.Recorded c

/-- The qudits that a step refers to: its targets, and its controls if they are qudits. -/
def Step.qudits : Step → List Int
  | .gate step =>
    if step.kind.isQuantumControlled then step.controls ++ step.targets else step.targets
  | .measure step => step.targets

/-- A step refers to its targets. -/
theorem Step.mem_qudits_of_mem_targets (step : Step) {q : Int} (h : q ∈ step.targets) :
    q ∈ step.qudits := by
  cases step with
  | gate step =>
    show q ∈ if step.kind.isQuantumControlled then step.controls ++ step.targets else step.targets
    split
    · exact List.mem_append_right _ h
    · exact h
  | measure step => exact h

/-- A gate under control of qudits refers to its controls as well. -/
theorem Step.qudits_of_quantum {step : GateStep} (h : step.kind.control? = some .quantum) :
    (Step.gate step).qudits = step.controls ++ step.targets := by
  simp [Step.qudits, GateKind.isQuantumControlled, h]

/-- Any other gate refers to its targets only. -/
theorem Step.qudits_of_not_quantum {step : GateStep} (h : step.kind.control? ≠ some .quantum) :
    (Step.gate step).qudits = step.targets := by
  simp [Step.qudits, GateKind.isQuantumControlled, h]

/-- The qudits that a step measures. -/
def Step.retired : Step → List Int
  | .gate _ => []
  | .measure step => step.targets

@[simp] theorem Step.retired_gate (step : GateStep) : (Step.gate step).retired = [] := rfl

@[simp] theorem Step.retired_measure (step : MeasureStep) :
    (Step.measure step).retired = step.targets := rfl

namespace Circuit

variable {S : Type}

/-- The program that a circuit records is well formed. -/
structure WellFormed (c : Circuit S) : Prop where
  /-- The lists of gates, measurements and sorts fit together. -/
  ordered : c.Ordered
  /-- Every step is as its kind asks. -/
  recorded : ∀ step ∈ c.log, step.Recorded c
  /-- No step refers to a qudit that an earlier step measured. -/
  apart : c.log.Pairwise fun earlier later => ∀ q ∈ earlier.retired, q ∉ later.qudits
  /-- The qudits marked as measured are the targets of the measurements. -/
  measured_eq : c.measured = c.log.flatMap Step.retired

/-- A circuit without steps is well formed. -/
theorem wellFormed_empty (serial qudits dits dim : Nat) (name : String)
    (namer : Operator S → String) (keyOf : Operator S → Int) :
    (empty serial qudits dits dim name namer keyOf).WellFormed where
  ordered := ⟨rfl, rfl, rfl⟩
  recorded := by simp [log, empty, interleave]
  apart := List.Pairwise.nil
  measured_eq := rfl

/-! ## Calls that are accepted -/

/-- The circuit after a call: with one more step, or as it was when the call is refused. -/
def attempt [Scalar S] (c : Circuit S) (call : Call S) : Circuit S :=
  match c.append call with
  | .ok c' => c'
  | .error _ => c

/-- The circuit after a sequence of calls, of which each is accepted or refused. -/
def attemptAll [Scalar S] (c : Circuit S) (calls : List (Call S)) : Circuit S :=
  calls.foldl attempt c

/-- The step that an entry is recorded as. -/
def stepOf (c : Circuit S) : Entry S → Step
  | .gate kind op controls targets name _ =>
    .gate ⟨kind, c.operands.keyOf op, controls, targets, name⟩
  | .measurement kind basis targets dit name =>
    .measure ⟨kind, (basis.map c.operands.keyOf).toList, targets, dit, name⟩

/-- An operator can be stored for `k` qudits: it has the size for them, and no other operator has
its key. -/
def Storable [Scalar S] (c : Circuit S) (op : Operator S) (k : Nat) : Prop :=
  op.shape = [c.dim ^ k, c.dim ^ k] ∧
    ∀ known, c.operands.get? (c.operands.keyOf op) = some known → known.same op = true

/-- What the checks of a call establish of the entry that they let pass. -/
def Sound [Scalar S] (c : Circuit S) : Entry S → Prop
  | .gate kind op controls targets _ _ =>
    TargetList c.qudits targets ∧ controls.Nodup ∧ c.ControlsFit kind controls targets ∧
      kind.Takes controls.length targets.length ∧ c.Storable op (kind.acted targets.length) ∧
      ∀ q ∈ (if kind.isQuantumControlled then controls ++ targets else targets), q ∉ c.measured
  | .measurement kind basis targets dit _ =>
    TargetList c.qudits targets ∧ InRange c.dits dit ∧ (∀ q ∈ targets, q ∉ c.measured) ∧
      match kind, basis with
      | .standard, none => targets.length = 1
      | .basis, some op => targets.length = 1 ∧ c.Storable op targets.length
      | .jointBasis, some op => c.Storable op targets.length
      | _, _ => False

section Plans

variable [Scalar S] {c : Circuit S}

theorem storable_of_checkOperand {arg : OperatorArg S} {acted : Nat} {op : Operator S}
    (h : c.checkOperand arg acted = .ok op) : c.Storable op acted :=
  (checkOperand_eq_ok.mp h).2

/-- The number of indices of an argument that is one index is one. -/
theorem length_indices {arg : IndexArg} {indices : List Int} (h : arg.indices = .ok indices)
    (hone : arg.extent = .single) : indices.length = 1 := by
  cases arg with
  | one value kind =>
    cases h
    rfl
  | many items => cases hone
  | foreign kind | raising error => cases hone

theorem length_indicesOf {items : List IndexItem} {indices : List Int}
    (h : indicesOf items = .ok indices) : indices.length = items.length := by
  induction items generalizing indices with
  | nil =>
    cases h
    rfl
  | cons item rest ih =>
    simp only [indicesOf, bind_eq_ok, pure_eq_ok] at h
    obtain ⟨i, -, js, hjs, rfl⟩ := h
    simp [ih hjs]

/-- What the checks of a controlled gate establish. -/
theorem sound_of_planControlled {control : Control} {kind : GateKind} {arg : OperatorArg S}
    {controls targets : List Int} {acted : Nat} {name : String} {entry : Entry S}
    (h : c.planControlled control kind arg controls targets acted name = .ok entry)
    (hcontrol : kind.control? = some control) (hacted : kind.acted targets.length = acted)
    (htakes : kind.Takes controls.length targets.length) : c.Sound entry := by
  cases control with
  | quantum =>
    simp only [planControlled, bind_eq_ok, exists_unit, pure_eq_ok, checkNonempty_eq_ok,
      checkQuantum_eq_ok] at h
    obtain ⟨hcontrols, htargets, ⟨hrc, hrt, hlive, hnc, hnt, hdisjoint⟩, op, hop, rfl⟩ := h
    refine ⟨⟨htargets, hnt, hrt⟩, hnc, ?_, htakes, hacted ▸ storable_of_checkOperand hop, ?_⟩
    · simpa [ControlsFit, hcontrol] using ⟨hcontrols, hrc, hdisjoint⟩
    · simpa [GateKind.isQuantumControlled, hcontrol] using hlive
  | classical =>
    simp only [planControlled, bind_eq_ok, exists_unit, pure_eq_ok, checkNonempty_eq_ok,
      checkClassical_eq_ok] at h
    obtain ⟨htargets, ⟨hrd, hrt, hlive, hnd, hnt⟩, op, hop, rfl⟩ := h
    refine ⟨⟨htargets, hnt, hrt⟩, hnd, ?_, htakes, hacted ▸ storable_of_checkOperand hop, ?_⟩
    · simpa [ControlsFit, hcontrol] using hrd
    · simpa [GateKind.isQuantumControlled, hcontrol] using hlive

/-- What the checks of a gate without controls establish. -/
theorem sound_of_uncontrolled {kind : GateKind} {arg : OperatorArg S} {op : Operator S}
    {targets : List Int} {acted : Nat} (name : String) (increment : Nat) (hne : targets ≠ [])
    (hquantum : c.checkQuantum [] targets = .ok ()) (hop : c.checkOperand arg acted = .ok op)
    (hcontrol : kind.control? = none) (hacted : kind.acted targets.length = acted)
    (htakes : kind.Takes 0 targets.length) : c.Sound (.gate kind op [] targets name increment) := by
  rw [checkQuantum_eq_ok] at hquantum
  obtain ⟨-, hrt, hlive, -, hnt, -⟩ := hquantum
  refine ⟨⟨hne, hnt, hrt⟩, List.nodup_nil, ?_, htakes, hacted ▸ storable_of_checkOperand hop, ?_⟩
  · simp [ControlsFit, hcontrol]
  · simpa [GateKind.isQuantumControlled, hcontrol] using hlive

/-- A joint gate on one, two or three qudits has the kind for that number. -/
theorem takes_jointKind {count : Nat} (hpos : count ≠ 0) (hthree : count ≤ 3) :
    (jointKind count).Takes 0 count := by
  obtain rfl | rfl | rfl : count = 1 ∨ count = 2 ∨ count = 3 := by omega
  · rfl
  · rfl
  · rfl

theorem control?_jointKind (count : Nat) : (jointKind count).control? = none := by
  unfold jointKind
  split <;> rfl

theorem acted_jointKind (count targets : Nat) : (jointKind count).acted targets = targets := by
  unfold jointKind
  split <;> rfl

/-- An extent that is single goes with one index. -/
theorem takes_controlled {control : Control} {controls targets : IndexArg} {cs ts : List Int}
    (hcs : controls.indices = .ok cs) (hts : targets.indices = .ok ts) :
    (GateKind.controlled control controls.extent targets.extent).Takes cs.length ts.length :=
  ⟨length_indices hcs, length_indices hts⟩

/-- A plan that was made is sound: each call checks all that has to hold of its step. -/
theorem sound_of_plan {call : Call S} {entry : Entry S} (hmany : manyTargets? call = none)
    (h : c.plan call = .ok entry) : c.Sound entry := by
  cases call with
  | gate arg items name =>
    simp only [plan, bind_eq_ok, exists_unit, pure_eq_ok, checkNonempty_eq_ok,
      readIndices_eq_ok] at h
    obtain ⟨hitems, targets, htargets, hquantum, op, hop, rfl⟩ := h
    -- the number of targets is checked on the items, before their indices are read
    have hlength : targets.length = items.length := length_indicesOf htargets
    have hpos : targets.length ≠ 0 := by
      rw [hlength]
      simpa using hitems
    have hthree : targets.length ≤ 3 := by
      rw [hlength]
      simpa [manyTargets?] using hmany
    exact sound_of_uncontrolled _ _ (List.length_eq_zero_iff.not.mp hpos) hquantum hop
      (control?_jointKind _) (acted_jointKind _ _) (takes_jointKind hpos hthree)
  | gateFan arg given name =>
    cases given with
    | none =>
      simp only [plan, bind_eq_ok, exists_unit, pure_eq_ok, checkNonempty_eq_ok] at h
      obtain ⟨targets, -, hne, hquantum, op, hop, rfl⟩ := h
      exact sound_of_uncontrolled _ _ hne hquantum hop rfl rfl trivial
    | some given =>
      simp only [plan, bind_eq_ok, exists_unit, pure_eq_ok, checkNonempty_eq_ok] at h
      obtain ⟨targets, -, hne, hquantum, op, hop, rfl⟩ := h
      exact sound_of_uncontrolled _ _ hne hquantum hop rfl rfl trivial
  | gateCustom arg given name =>
    simp only [plan, bind_eq_ok, exists_unit, pure_eq_ok, checkNonempty_eq_ok] at h
    obtain ⟨targets, -, hne, hquantum, op, hop, rfl⟩ := h
    exact sound_of_uncontrolled _ _ hne hquantum hop rfl rfl trivial
  | qft => cases h
  | tfq => cases h
  | ctrl arg controls targets name =>
    simp only [plan, bind_eq_ok, readIndices_eq_ok] at h
    obtain ⟨cs, hcs, ts, hts, h⟩ := h
    exact sound_of_planControlled h rfl rfl (takes_controlled hcs hts)
  | ctrlCustom arg controls targets name =>
    simp only [plan, bind_eq_ok] at h
    obtain ⟨cs, -, ts, -, h⟩ := h
    exact sound_of_planControlled h rfl rfl trivial
  | cctrl arg controls targets name =>
    simp only [plan, bind_eq_ok, readIndices_eq_ok] at h
    obtain ⟨cs, hcs, ts, hts, h⟩ := h
    exact sound_of_planControlled h rfl rfl (takes_controlled hcs hts)
  | cctrlCustom arg controls targets name =>
    simp only [plan, bind_eq_ok] at h
    obtain ⟨cs, -, ts, -, h⟩ := h
    exact sound_of_planControlled h rfl rfl trivial
  | measureZ target dit name =>
    simp only [plan, bind_eq_ok, exists_unit, pure_eq_ok, readIndices_eq_ok, checkQudits_eq_ok,
      checkDits_eq_ok, checkLive_eq_ok] at h
    obtain ⟨targets, htargets, i, -, hrt, hdit, hlive, rfl⟩ := h
    -- a measurement of digits is asked for with one index, so it has one target
    have hone : targets.length = 1 := length_indicesOf htargets
    obtain ⟨q, rfl⟩ := List.length_eq_one_iff.mp hone
    exact ⟨⟨List.cons_ne_nil _ _, List.pairwise_singleton _ _, hrt⟩,
      hdit i (List.mem_singleton_self _),
      hlive, rfl⟩
  | measureV arg given dit name =>
    simp only [plan, bind_eq_ok, exists_unit, pure_eq_ok, readIndices_eq_ok,
      checkNonempty_eq_ok, checkQudits_eq_ok, checkDits_eq_ok, checkLive_eq_ok,
      checkDistinct_eq_ok] at h
    obtain ⟨targets, htargets, i, -, hne, hrt, hdit, hlive, hnt, op, hop,
      rfl⟩ := h
    refine ⟨⟨hne, hnt, hrt⟩, hdit i (List.mem_singleton_self _), hlive, ?_⟩
    have hstorable := storable_of_checkOperand hop
    -- one index makes a measurement of one qudit, a list makes one of several
    cases hextent : given.extent with
    | single => exact ⟨length_indices htargets hextent, hstorable⟩
    | multiple => exact hstorable

end Plans

/-! ## Recording a step -/

/-- A circuit goes on from another one: the registers are the same, and no operator is lost. -/
structure GoesOn (c c' : Circuit S) : Prop where
  /-- There are the same qudits. -/
  qudits_eq : c'.qudits = c.qudits
  /-- There are the same dits. -/
  dits_eq : c'.dits = c.dits
  /-- The qudits have the same dimension. -/
  dim_eq : c'.dim = c.dim
  /-- Every operator is kept under its key. -/
  operands : ∀ key op, c.operands.get? key = some op → c'.operands.get? key = some op

section Recording

variable {c c' : Circuit S}

theorem HasOperator.goesOn {key : Int} {k : Nat} (h : c.HasOperator key k) (hc : c.GoesOn c') :
    c'.HasOperator key k := by
  obtain ⟨op, hop, hshape⟩ := h
  exact ⟨op, hc.operands key op hop, by rw [hc.dim_eq, hshape]⟩

theorem ControlsFit.goesOn {kind : GateKind} {controls targets : List Int}
    (h : c.ControlsFit kind controls targets) (hc : c.GoesOn c') :
    c'.ControlsFit kind controls targets := by
  unfold ControlsFit at h ⊢
  rw [hc.qudits_eq, hc.dits_eq]
  exact h

/-- What is true of a recorded step stays true. -/
theorem recorded_goesOn {step : Step} (h : step.Recorded c) (hc : c.GoesOn c') :
    step.Recorded c' := by
  cases step with
  | gate step =>
    have h : step.Recorded c := h
    refine ⟨?_, h.controls_nodup, h.controls.goesOn hc, h.takes, h.operator.goesOn hc⟩
    rw [hc.qudits_eq]
    exact h.targets
  | measure step =>
    obtain ⟨htargets, hdit, hbasis⟩ : step.Recorded c := h
    refine ⟨?_, ?_, ?_⟩
    · rw [hc.qudits_eq]
      exact htargets
    · rw [hc.dits_eq]
      exact hdit
    -- only a basis is looked up in the table of operators
    · cases hkind : step.kind with
      | none => simp only [hkind] at hbasis
      | standard => simpa only [hkind] using hbasis
      | basis =>
        simp only [hkind] at hbasis
        obtain ⟨hone, key, hkey, hop⟩ := hbasis
        exact ⟨hone, key, hkey, hop.goesOn hc⟩
      | jointBasis =>
        simp only [hkind] at hbasis
        obtain ⟨key, hkey, hop⟩ := hbasis
        exact ⟨key, hkey, hop.goesOn hc⟩

/-- Recording a step goes on from the circuit. -/
theorem goesOn_commit (c : Circuit S) (entry : Entry S) : c.GoesOn (c.commit entry) := by
  cases entry with
  | gate kind op controls targets name increment =>
    exact ⟨rfl, rfl, rfl, fun key known h => OperandTable.get?_insert_of_some op h⟩
  | measurement kind basis targets dit name =>
    refine ⟨rfl, rfl, rfl, fun key known h => ?_⟩
    cases basis with
    | none => exact h
    | some op => exact OperandTable.get?_insert_of_some op h

/-- Recording an entry appends its step to the log. -/
theorem Ordered.commit (h : c.Ordered) (entry : Entry S) :
    (c.commit entry).log = c.log ++ [c.stepOf entry] ∧ (c.commit entry).Ordered := by
  cases entry with
  | gate kind op controls targets name increment =>
    exact log_append_step h rfl rfl (List.append_nil _).symm
  | measurement kind basis targets dit name =>
    exact log_append_step h rfl (List.append_nil _).symm rfl

variable [Scalar S]

/-- An operator that can be stored is there once it was stored. -/
theorem Storable.hasOperator {op : Operator S} {k : Nat} (h : c.Storable op k)
    (hdim : c'.dim = c.dim) (hoperands : c'.operands = c.operands.insert op) :
    c'.HasOperator (c.operands.keyOf op) k := by
  obtain ⟨hshape, hsame⟩ := h
  refine ⟨(c.operands.get? (c.operands.keyOf op)).getD op, ?_, ?_⟩
  · rw [hoperands, OperandTable.get?_insert]
  · rw [hdim, ← hshape]
    -- under the key is the operator or one of the same entries, so of the same shape
    cases hknown : c.operands.get? (c.operands.keyOf op) with
    | none => rfl
    | some known => exact Tensor.shape_eq_of_same (hsame known hknown)

/-- The step of a sound entry is as its kind asks. -/
theorem Sound.recorded {entry : Entry S} (h : c.Sound entry) :
    (c.stepOf entry).Recorded (c.commit entry) := by
  cases entry with
  | gate kind op controls targets name increment =>
    obtain ⟨htargets, hnc, hcontrols, htakes, hstorable, -⟩ := h
    exact ⟨htargets, hnc, hcontrols.goesOn (goesOn_commit c _), htakes,
      hstorable.hasOperator rfl rfl⟩
  | measurement kind basis targets dit name =>
    obtain ⟨htargets, hdit, -, hbasis⟩ := h
    refine ⟨htargets, hdit, ?_⟩
    -- a kind of measurements and a basis that do not go together are not sound
    cases kind with
    | none => simp at hbasis
    | standard =>
      cases basis with
      | none => exact ⟨hbasis, rfl⟩
      | some op => simp at hbasis
    | basis =>
      cases basis with
      | none => simp at hbasis
      | some op => exact ⟨hbasis.1, _, rfl, hbasis.2.hasOperator rfl rfl⟩
    | jointBasis =>
      cases basis with
      | none => simp at hbasis
      | some op => exact ⟨_, rfl, hbasis.hasOperator rfl rfl⟩

/-- A sound entry refers to no qudit that is marked as measured. -/
theorem Sound.live {entry : Entry S} (h : c.Sound entry) :
    ∀ q ∈ (c.stepOf entry).qudits, q ∉ c.measured := by
  cases entry with
  | gate kind op controls targets name increment => exact h.2.2.2.2.2
  | measurement kind basis targets dit name => exact h.2.2.1

/-- Recording a sound entry keeps a circuit well formed. -/
theorem WellFormed.commit {entry : Entry S} (h : c.WellFormed) (hentry : c.Sound entry) :
    (c.commit entry).WellFormed := by
  obtain ⟨hlog, hordered⟩ := h.ordered.commit entry
  refine ⟨hordered, ?_, ?_, ?_⟩
  · rw [hlog]
    intro step hstep
    rcases List.mem_append.mp hstep with hold | hnew
    · exact recorded_goesOn (h.recorded step hold) (goesOn_commit c entry)
    · rw [List.mem_singleton.mp hnew]
      exact hentry.recorded
  -- earlier steps are apart already; the new step comes after all of them
  · rw [hlog, List.pairwise_append]
    refine ⟨h.apart, List.pairwise_singleton _ _, ?_⟩
    intro earlier hearlier later hlater q hq hq'
    -- what an earlier step measured is marked, and the checks refuse marked qudits
    have hmarked : q ∈ c.measured := by
      rw [h.measured_eq]
      exact List.mem_flatMap.mpr ⟨earlier, hearlier, hq⟩
    rw [List.mem_singleton.mp hlater] at hq'
    exact hentry.live q hq' hmarked
  -- marks are made for the targets of a measurement only
  · rw [hlog, List.flatMap_append, ← h.measured_eq]
    cases entry with
    | gate kind op controls targets name increment => exact (List.append_nil _).symm
    | measurement kind basis targets dit name => simp [Circuit.commit, stepOf]

/-- An accepted call keeps a circuit well formed. -/
theorem WellFormed.append {call : Call S} (h : c.WellFormed) (hcall : c.append call = .ok c') :
    c'.WellFormed := by
  unfold Circuit.append at hcall
  split at hcall
  · cases hcall
  · next hmany =>
    split at hcall
    · next entry hentry =>
      obtain ⟨⟩ := hcall
      exact h.commit (sound_of_plan hmany hentry)
    · cases hcall

/-- A call keeps a circuit well formed, whether it is accepted or refused. -/
theorem WellFormed.attempt (h : c.WellFormed) (call : Call S) : (c.attempt call).WellFormed := by
  unfold Circuit.attempt
  split
  · next hcall => exact h.append hcall
  · exact h

/-- Any sequence of calls keeps a circuit well formed. -/
theorem WellFormed.attemptAll (h : c.WellFormed) (calls : List (Call S)) :
    (c.attemptAll calls).WellFormed := by
  induction calls generalizing c with
  | nil => exact h
  | cons call calls ih => exact ih (h.attempt call)

end Recording

/-- A circuit that was made has no steps. -/
theorem create?_eq_ok [Capacity] {serial : Nat} {qudits dits dim : Argument} {name : String}
    {namerFor : Nat → Except ExtentFault (Operator S → String)} {keyOf : Operator S → Int}
    {c : Circuit S} (h : create? serial qudits dits dim name namerFor keyOf = .ok c) :
    ∃ n m d namer, c = empty serial n m d name namer keyOf := by
  simp only [create?, bind_eq_ok, pure_eq_ok] at h
  obtain ⟨-, -, -, -, -, -, n, -, m, -, d, -, namer, -, -, -, rfl⟩ := h
  exact ⟨n, m, d, namer, rfl⟩

/-- The whole part of an extent that was let pass is that of a number not below the bound. -/
theorem wholeExtent_of_extentNumber {given : Argument} {bound : Int} {cause : Argument → Cause}
    {x : Number} {n : Nat} (hx : extentNumber given bound cause = .ok x)
    (hn : wholeExtent x = .ok n) :
    x.below bound = false ∧ ∃ value, x.truncate? = some value ∧ n = value.toNat := by
  constructor
  · unfold extentNumber at hx
    split at hx
    · cases hx
    · split at hx
      · cases hx
      · next hbelow =>
        cases hx
        simpa using hbelow
  · unfold wholeExtent at hn
    split at hn
    · next value hvalue =>
      cases hn
      exact ⟨value, hvalue, rfl⟩
    · split at hn <;> cases hn

/-- A circuit that was made has a qudit at least, and the dimension of its qudits is two or more.
Its extents are such that it can be held. -/
theorem extents_of_create? [Capacity] {serial : Nat} {qudits dits dim : Argument} {name : String}
    {namerFor : Nat → Except ExtentFault (Operator S → String)} {keyOf : Operator S → Int}
    {c : Circuit S} (h : create? serial qudits dits dim name namerFor keyOf = .ok c) :
    1 ≤ c.qudits ∧ 2 ≤ c.dim ∧ namerFor c.dim = .ok c.namer ∧
      checkListExtent Capacity.flags c.qudits = .ok () := by
  simp only [create?, bind_eq_ok, pure_eq_ok, mapError_eq_ok, exists_unit] at h
  obtain ⟨x, hx, -, -, y, hy, n, hn, -, -, d, hd, namer, hnamer, hflags, rfl⟩ := h
  obtain ⟨hxbelow, i, hi, rfl⟩ := wholeExtent_of_extentNumber hx hn
  obtain ⟨hybelow, j, hj, rfl⟩ := wholeExtent_of_extentNumber hy hd
  have hone := Number.one_le_of_truncate? hxbelow hi
  have htwo := Number.two_le_of_truncate? hybelow hj
  exact ⟨show 1 ≤ i.toNat by omega, show 2 ≤ j.toNat by omega, hnamer, hflags⟩

/-- A circuit is made anew from its extents, where there is a source of names for its dimension. -/
theorem create?_natCast_eq_ok [Capacity] {n d : Nat} (hn : 1 ≤ n) (hd : 2 ≤ d)
    (hflags : checkListExtent Capacity.flags n = .ok ()) {serial m : Nat} {name : String}
    {namerFor : Nat → Except ExtentFault (Operator S → String)} {keyOf : Operator S → Int}
    {c : Circuit S} :
    create? serial (.int n) (.int m) (.int d) name namerFor keyOf = .ok c ↔
      ∃ namer, namerFor d = .ok namer ∧ empty serial n m d name namer keyOf = c := by
  have hextent : ∀ (value : Nat) (bound : Int) (cause : Argument → Cause), bound ≤ value →
      extentNumber (.int value) bound cause = .ok (.int value) := by
    intro value bound cause hle
    simp [extentNumber, Int.not_lt.mpr hle]
  have hwhole : ∀ value : Nat, wholeExtent (.int value) = .ok value := fun _ => rfl
  simp only [create?, bind_eq_ok, pure_eq_ok, mapError_eq_ok, exists_unit, hflags, true_and,
    hextent n 1 _ (by omega), hextent m 0 _ (by omega), hextent d 2 _ (by omega), hwhole,
    Except.ok.injEq, exists_eq_left']

/-- Whatever is asked of a new circuit, the program that it records is well formed. -/
theorem wellFormed_attemptAll [Capacity] [Scalar S] {serial : Nat} {qudits dits dim : Argument}
    {name : String} {namerFor : Nat → Except ExtentFault (Operator S → String)}
    {keyOf : Operator S → Int} {c : Circuit S}
    (h : create? serial qudits dits dim name namerFor keyOf = .ok c) (calls : List (Call S)) :
    (c.attemptAll calls).WellFormed := by
  obtain ⟨n, m, d, namer, rfl⟩ := create?_eq_ok h
  exact (wellFormed_empty serial n m d name namer keyOf).attemptAll calls

section

attribute [local instance] Capacity.common

/-- On two qubits, a controlled gate and a measurement are recorded, and a gate on the measured
qubit is refused. -/
theorem wellFormed_attemptAll_pair :
    let c : Circuit Float := empty 0 2 1 2 "" (fun _ => "") fun _ => 0
    let op : OperatorArg Float := .operator (.identity 2)
    let calls : List (Call Float) :=
      [.ctrl op (.ofInt 0) (.ofInt 1) "", .measureZ (.int 1) (.int 0) "",
        .gate op [.int 1] ""]
    create? 0 (.int 2) (.int 1) (.int 2) "" (fun _ => .ok fun _ => "") (fun _ => 0) = .ok c ∧
      (c.attemptAll calls).log.map Step.qudits = [[0, 1], [1]] ∧
        (c.attemptAll calls).WellFormed := by
  intro c op calls
  have hc : create? 0 (.int 2) (.int 1) (.int 2) "" (fun _ => .ok fun _ => "") (fun _ => 0) =
      .ok c := rfl
  exact ⟨hc, rfl, wellFormed_attemptAll hc calls⟩

end

end Circuit

end QuditSim
