import QuditSim.Proofs.Report.RoundTrip

/-!
# What a rebuilt circuit has of its report

A report that follows the layout can still say things that no circuit does: a gate on one qudit can
list two targets, a gate without control can list controls, a step can name no operator. Some of
these reports are refused while they are replayed. Of the others a circuit is made in which steps
are not what the report says: indices are left out, the kind is the one for the number of targets,
and the operator is the one under the empty text.

- `Report.Faithful` says that a recorded step is what a step of the report says, and `Report.Fits`
  that the step of the report has the lists and the operator that go with its kind.
- `Report.faithful_iff` is the lemma for one step: what is recorded for the call of a step of the
  report is faithful just where that step fits.
- `Report.rebuild_faithful_iff`: a circuit that is rebuilt has one step for each step of the report,
  and it is faithful just where the step of the report fits.
-/

namespace QuditSim

open Fallible

/-- Lists that are related to a list in the middle are related to each other. -/
theorem forall₂_comp {α β γ : Type} {R : α → β → Prop} {S : β → γ → Prop} {T : α → γ → Prop}
    {xs : List α} {ys : List β} {zs : List γ} (hR : List.Forall₂ R xs ys)
    (hS : List.Forall₂ S ys zs) (h : ∀ x ∈ xs, ∀ y z, R x y → S y z → T x z) :
    List.Forall₂ T xs zs := by
  induction hR generalizing zs with
  | nil =>
    cases hS
    exact .nil
  | cons hxy _ ih =>
    cases hS with
    | cons hyz hS =>
      obtain ⟨hhead, htail⟩ := List.forall_mem_cons.mp h
      exact .cons (hhead _ _ hxy hyz) (ih hS htail)

/-! ## What the calls for steps record -/

/-- The kind that a gate is recorded as when it is replayed with a number of targets. -/
def GateKind.replayed (kind : GateKind) (targets : Nat) : GateKind :=
  match kind with
  | .single | .two | .three => Circuit.jointKind targets
  | kind => kind

/-- The controls that are recorded when a gate is replayed: those that its kind has. -/
def GateKind.replayedControls (kind : GateKind) (controls : List Int) : List Int :=
  match kind with
  | .controlled _ one _ => one.taken controls
  | .controlledCustom _ => controls
  | _ => []

/-- The targets that are recorded when a gate is replayed. -/
def GateKind.replayedTargets (kind : GateKind) (targets : List Int) : List Int :=
  match kind with
  | .controlled _ _ other => other.taken targets
  | _ => targets

/-- The targets that are recorded when a measurement is replayed. -/
def MeasureKind.replayedTargets (kind : MeasureKind) (targets : List Int) : List Int :=
  match kind with
  | .none | .jointBasis => targets
  | .standard | .basis => Extent.single.taken targets

namespace Circuit

variable {before c : Circuit Float} {entry : Entry Float} {controls targets : List Int}
  {name : String}

theorem eq_of_indicesOf {indices found : List Int} (h : indicesOf (indices.map .int) = .ok found) :
    indices = found := by
  rw [indicesOf_map_int] at h
  exact Except.ok.inj h

/-- What is recorded when a gate is asked for again. -/
theorem Planned.gate_eq {kind : GateKind} {op : Operator Float} {increment : Nat}
    (h : before.Planned (Entry.gate kind op controls targets name increment).call entry)
    (hreplayable : kind.Replayable controls targets) :
    ∃ name increment, entry = .gate (kind.replayed targets.length) op
      (kind.replayedControls controls) (kind.replayedTargets targets) name increment := by
  cases kind with
  | none => exact hreplayable.elim
  | fourier => exact hreplayable.elim
  | inverseFourier => exact hreplayable.elim
  | single =>
    cases h with
    | gate htargets =>
      rw [eq_of_indicesOf htargets]
      exact ⟨_, _, rfl⟩
  | two =>
    cases h with
    | gate htargets =>
      rw [eq_of_indicesOf htargets]
      exact ⟨_, _, rfl⟩
  | three =>
    cases h with
    | gate htargets =>
      rw [eq_of_indicesOf htargets]
      exact ⟨_, _, rfl⟩
  | custom =>
    cases h with
    | custom htargets =>
      rw [eq_of_indicesOf htargets]
      exact ⟨_, _, rfl⟩
  | fan =>
    cases h with
    | fan htargets =>
      rw [eq_of_indicesOf htargets]
      exact ⟨_, _, rfl⟩
  | controlled control one other =>
    obtain ⟨hone, hleft⟩ := IndexArg.ofExtent_taken hreplayable.1
    obtain ⟨hother, hright⟩ := IndexArg.ofExtent_taken hreplayable.2
    cases control with
    | quantum =>
      cases h with
      | ctrl hcontrols htargets =>
        rw [hleft] at hcontrols
        rw [hright] at htargets
        cases hcontrols
        cases htargets
        rw [hone, hother]
        exact ⟨_, _, rfl⟩
    | classical =>
      cases h with
      | cctrl hcontrols htargets =>
        rw [hleft] at hcontrols
        rw [hright] at htargets
        cases hcontrols
        cases htargets
        rw [hone, hother]
        exact ⟨_, _, rfl⟩
  | controlledCustom control =>
    cases control with
    | quantum =>
      cases h with
      | ctrlCustom hcontrols htargets =>
        rw [eq_of_indicesOf hcontrols, eq_of_indicesOf htargets]
        exact ⟨_, _, rfl⟩
    | classical =>
      cases h with
      | cctrlCustom hcontrols htargets =>
        rw [eq_of_indicesOf hcontrols, eq_of_indicesOf htargets]
        exact ⟨_, _, rfl⟩

/-- What is recorded when a measurement is asked for again. -/
theorem Planned.measurement_eq {operands : Report.Operands} {given : Json} {kind : MeasureKind}
    {basis : Option (Operator Float)} {dit : Int}
    (h : before.Planned (Entry.measurement kind basis targets dit name).call entry)
    (hreplayable : Report.MeasureReplayable operands given kind basis targets) :
    ∃ name, entry = .measurement kind basis (kind.replayedTargets targets) dit name := by
  cases kind with
  | none => cases basis <;> exact hreplayable.elim
  | standard =>
    cases basis with
    | some op => exact hreplayable.elim
    | none =>
      cases h with
      | measureZ htarget hdit =>
        cases htarget
        cases hdit
        obtain ⟨q, rest, rfl⟩ := List.exists_cons_of_ne_nil hreplayable
        exact ⟨_, rfl⟩
  | basis =>
    cases basis with
    | none => exact hreplayable.elim
    | some op =>
      obtain ⟨hextent, hindices⟩ := @IndexArg.ofExtent_taken .single _ fun _ => hreplayable.2
      cases h with
      | measureV htargets hdit =>
        rw [hindices] at htargets
        cases htargets
        cases hdit
        rw [hextent]
        exact ⟨_, rfl⟩
  | jointBasis =>
    cases basis with
    | none => exact hreplayable.elim
    | some op =>
      cases h with
      | measureV htargets hdit =>
        rw [eq_of_indicesOf htargets]
        cases hdit
        exact ⟨_, rfl⟩

/-- A gate is recorded as it was asked for just if it was asked for as its kind takes it. -/
theorem replayed_eq_iff {kind : GateKind} {op : Operator Float} {increment : Nat}
    (hreplayable : kind.Replayable controls targets)
    (hshaped : Shaped (.gate (kind.replayed targets.length) op (kind.replayedControls controls)
      (kind.replayedTargets targets) name increment)) :
    kind.replayed targets.length = kind ∧ kind.replayedControls controls = controls ∧
        kind.replayedTargets targets = targets ↔
      kind.Takes controls.length targets.length ∧ (kind.control? = none → controls = []) := by
  constructor
  · rintro ⟨hkind, hcontrols, htargets⟩
    rw [hkind, hcontrols, htargets] at hshaped
    exact hshaped
  · rintro ⟨htakes, hnone⟩
    -- only an index by itself leaves some out, only a joint gate changes its kind
    cases kind with
    | none => exact hreplayable.elim
    | fourier => exact hreplayable.elim
    | inverseFourier => exact hreplayable.elim
    | controlled control one other =>
      exact ⟨rfl, (Extent.taken_eq_self hreplayable.1).mpr htakes.1,
        (Extent.taken_eq_self hreplayable.2).mpr htakes.2⟩
    | controlledCustom control => exact ⟨rfl, rfl, rfl⟩
    | custom => exact ⟨rfl, (hnone rfl).symm, rfl⟩
    | fan => exact ⟨rfl, (hnone rfl).symm, rfl⟩
    | single => exact ⟨congrArg jointKind htakes, (hnone rfl).symm, rfl⟩
    | two => exact ⟨congrArg jointKind htakes, (hnone rfl).symm, rfl⟩
    | three => exact ⟨congrArg jointKind htakes, (hnone rfl).symm, rfl⟩

end Circuit

/-! ## Steps that are what the report says -/

/-- The lists of a gate are those that its kind takes, and it names an operator. -/
def GateKind.Fits (kind : GateKind) (controls targets : List Int) (operand : Option Json) : Prop :=
  kind.Takes controls.length targets.length ∧ (kind.control? = .none → controls = []) ∧
    operand.isSome

/-- The lists of a measurement are those that its kind takes, and it names an operator just if it
is not a measurement of digits. -/
def MeasureKind.Fits (kind : MeasureKind) (controls targets : List Int) (operand : Option Json) :
    Prop :=
  controls = [] ∧ match kind with
    | .none => False
    | .standard => targets.length = 1 ∧ operand = .none
    | .basis => targets.length = 1 ∧ operand.isSome
    | .jointBasis => operand.isSome

namespace Report

open Circuit

/-- A step of a report names an operator: it has the key of a member of the report's operators, and
that member holds the operator. -/
def Names (report entry : Json) (op : Operator Float) : Prop :=
  ∃ key value, entry.get? "operand" = some (.string key) ∧
    (report.get? "operands").bind (·.get? key) = some value ∧ Operator.decode value = .ok op

/-- A recorded step is what a step of a report says. -/
structure Faithful (report entry : Json) (c : Circuit Float) (step : Step) : Prop where
  /-- Its kind, its controls, its targets and its dit are what stands in the fields. -/
  reads : ∃ name, Reads entry step.kindName step.controls step.targets step.dit? name
  /-- Its operator is the one that is named, up to equal entries, and it has none if none is
  named. -/
  operator_eq : match step.keys.head? with
    | none => entry.get? "operand" = none
    | some key => ∃ op known, Names report entry op ∧ c.operands.get? key = some known ∧
        (known = op ∨ known.same op = true)

/-- What a step of a report needs so that it is rebuilt as it is: the lists that its kind takes, no
controls but for a controlled gate, and an operator just where its kind has one. -/
def Fits (entry : Json) : Prop :=
  ∃ kind controls targets dit name, Reads entry kind controls targets dit name ∧
    match dit with
    | none => ∃ gate, GateKind.ofName? kind = some gate ∧
        gate.Fits controls targets (entry.get? "operand")
    | some _ => ∃ measurement, MeasureKind.ofName? kind = some measurement ∧
        measurement.Fits controls targets (entry.get? "operand")

variable {report entry : Json} {c : Circuit Float} {operands : Operands}
  {members : List (String × Json)}

/-- An operator that was read is found under its key, and so is the value that it was read from. -/
theorem lookup_readOperands (h : readOperands members = .ok operands) {key : String}
    {op : Operator Float} (hop : operands.lookup key = some op) :
    ∃ value, members.lookup key = some value ∧ Operator.decode value = .ok op := by
  induction members generalizing operands with
  | nil =>
    cases h
    cases hop
  | cons member members ih =>
    obtain ⟨known, value⟩ := member
    obtain ⟨entry, rest, hentry, hrest, rfl⟩ := mapM_cons_eq_ok.mp h
    cases hdecode : Operator.decode value with
    | error fault => simp [hdecode] at hentry
    | ok found =>
      simp only [hdecode, Except.ok.injEq] at hentry
      subst hentry
      rw [List.lookup_cons] at hop ⊢
      cases hkey : key == known with
      | true =>
        rw [hkey] at hop
        exact ⟨value, rfl, hdecode.trans (congrArg Except.ok (Option.some.inj hop))⟩
      | false =>
        rw [hkey] at hop
        exact ih hrest hop

/-- A step that can be read has one thing in each of its fields. -/
theorem Reads.eq {kind kind' name name' : String} {controls controls' targets targets' : List Int}
    {dit dit' : Option Int} (h : Reads entry kind controls targets dit name)
    (h' : Reads entry kind' controls' targets' dit' name') :
    kind = kind' ∧ controls = controls' ∧ targets = targets' ∧ dit = dit' := by
  have hint : Function.Injective (List.map Json.int) := by
    refine List.map_injective_iff.mpr fun i j hij => ?_
    cases hij
    rfl
  have hkind := h.kind_eq.symm.trans h'.kind_eq
  have hcontrols := hint (h.controls_eq.symm.trans h'.controls_eq)
  have htargets := h.targets_eq.symm.trans h'.targets_eq
  have hdit := h.dit_eq.symm.trans h'.dit_eq
  simp only [Option.some.injEq, Json.string.injEq] at hkind
  simp only [Option.some.injEq, Json.integers, Json.array.injEq] at htargets
  exact ⟨hkind, hcontrols, hint htargets, Option.map_injective (fun _ _ => Option.some.inj) hdit⟩

section Steps

variable {kind name : String} {controls targets : List Int} {dit : Option Int}

theorem exists_reads_iff (h : Reads entry kind controls targets dit name) {kind' : String}
    {controls' targets' : List Int} {dit' : Option Int} :
    (∃ name', Reads entry kind' controls' targets' dit' name') ↔
      kind = kind' ∧ controls = controls' ∧ targets = targets' ∧ dit = dit' := by
  constructor
  · rintro ⟨name', h'⟩
    exact h.eq h'
  · rintro ⟨rfl, rfl, rfl, rfl⟩
    exact ⟨name, h⟩

theorem GateKind.name_of_ofName? {gate : GateKind} (h : GateKind.ofName? kind = some gate) :
    kind = gate.name := by
  have hfound := List.find?_some h
  exact (beq_iff_eq.mp hfound).symm

theorem MeasureKind.name_of_ofName? {measurement : MeasureKind}
    (h : MeasureKind.ofName? kind = some measurement) : kind = measurement.name := by
  have hfound := List.find?_some h
  exact (beq_iff_eq.mp hfound).symm

theorem GateKind.name_inj {a b : GateKind} (h : a.name = b.name) : a = b := by
  have hfound := congrArg GateKind.ofName? h
  rwa [GateKind.ofName?_name, GateKind.ofName?_name, Option.some.injEq] at hfound

/-- Where an operator was found for a step, the recorded one is the one that is named just if one
is named at all. -/
theorem exists_names_iff {op known : Operator Float} {key : Int}
    (hmembers : report.get? "operands" = some (.object members))
    (hread : readOperands members = .ok operands)
    (htext : ∀ operand ∈ entry.get? "operand", ∃ key, operand = .string key)
    (hop : operandOf operands entry = .ok (.operator op))
    (hknown : c.operands.get? key = some known) (hsame : known = op ∨ known.same op = true) :
    (∃ op known, Names report entry op ∧ c.operands.get? key = some known ∧
        (known = op ∨ known.same op = true)) ↔ (entry.get? "operand").isSome := by
  constructor
  · rintro ⟨_, _, ⟨key, _, hkey, -, -⟩, -, -⟩
    rw [hkey]
    rfl
  · intro hgiven
    obtain ⟨operand, hoperand⟩ := Option.isSome_iff_exists.mp hgiven
    obtain ⟨text, rfl⟩ := htext operand hoperand
    obtain ⟨found, hlookup, hfound⟩ := operandOf_eq_ok.mp hop
    cases hfound
    rw [hoperand] at hlookup
    obtain ⟨value, hvalue, hdecode⟩ := lookup_readOperands hread hlookup
    refine ⟨op, known, ⟨text, value, hoperand, ?_, hdecode⟩, hknown, hsame⟩
    rw [hmembers]
    exact hvalue

theorem fits_gate_iff {gate : GateKind} (hreads : Reads entry kind controls targets none name)
    (hgate : GateKind.ofName? kind = some gate) :
    Fits entry ↔ gate.Fits controls targets (entry.get? "operand") := by
  constructor
  · rintro ⟨kind', controls', targets', dit', _, hreads', hfits⟩
    obtain ⟨rfl, rfl, rfl, rfl⟩ := hreads.eq hreads'
    obtain ⟨gate', hgate', hfits⟩ := hfits
    obtain rfl : gate = gate' := Option.some.inj (hgate.symm.trans hgate')
    exact hfits
  · intro hfits
    exact ⟨_, _, _, _, _, hreads, gate, hgate, hfits⟩

theorem fits_measurement_iff {i : Int} {measurement : MeasureKind}
    (hreads : Reads entry kind controls targets (some i) name)
    (hkind : MeasureKind.ofName? kind = some measurement) :
    Fits entry ↔ measurement.Fits controls targets (entry.get? "operand") := by
  constructor
  · rintro ⟨kind', controls', targets', dit', _, hreads', hfits⟩
    obtain ⟨rfl, rfl, rfl, rfl⟩ := hreads.eq hreads'
    obtain ⟨measurement', hkind', hfits⟩ := hfits
    obtain rfl : measurement = measurement' := Option.some.inj (hkind.symm.trans hkind')
    exact hfits
  · intro hfits
    exact ⟨_, _, _, _, _, hreads, measurement, hkind, hfits⟩

/-- A gate is rebuilt as it is just if its step fits. -/
theorem faithful_gate_iff {call : Call Float} {step : Step}
    (hmembers : report.get? "operands" = some (.object members))
    (hread : readOperands members = .ok operands)
    (htext : ∀ operand ∈ entry.get? "operand", ∃ key, operand = .string key)
    (hreads : Reads entry kind controls targets none name)
    (hcall : callOf operands entry = .ok call) (hrecorded : c.RecordedFor call step) :
    Faithful report entry c step ↔ Fits entry := by
  obtain ⟨gate, hgate, op, hop, hreplayable, rfl⟩ := (callOf_gate_eq_ok hreads).mp hcall
  obtain ⟨before, e, hplanned, hshaped, rfl, hstored⟩ := hrecorded
  obtain ⟨name', increment, rfl⟩ := hplanned.gate_eq hreplayable
  obtain ⟨known, hknown, hsame⟩ := hstored op rfl
  have hlists := replayed_eq_iff hreplayable hshaped
  have hoperator := exists_names_iff hmembers hread htext hop hknown hsame
  rw [fits_gate_iff hreads hgate]
  obtain rfl := GateKind.name_of_ofName? hgate
  -- the fields agree if the lists fit the kind, and the operator if one is named
  constructor
  · rintro ⟨hfields, hnames⟩
    obtain ⟨hkind, hcontrols, htargets, -⟩ := (exists_reads_iff hreads).mp hfields
    obtain ⟨htakes, hnone⟩ :=
      hlists.mp ⟨(GateKind.name_inj hkind).symm, hcontrols.symm, htargets.symm⟩
    exact ⟨htakes, hnone, hoperator.mp hnames⟩
  · rintro ⟨htakes, hnone, hgiven⟩
    obtain ⟨hkind, hcontrols, htargets⟩ := hlists.mpr ⟨htakes, hnone⟩
    exact ⟨(exists_reads_iff hreads).mpr
      ⟨congrArg GateKind.name hkind.symm, hcontrols.symm, htargets.symm, rfl⟩, hoperator.mpr hgiven⟩

/-- A measurement is rebuilt as it is just if its step fits. -/
theorem faithful_measurement_iff {i : Int} {call : Call Float} {step : Step}
    (hmembers : report.get? "operands" = some (.object members))
    (hread : readOperands members = .ok operands)
    (htext : ∀ operand ∈ entry.get? "operand", ∃ key, operand = .string key)
    (hreads : Reads entry kind controls targets (some i) name)
    (hcall : callOf operands entry = .ok call) (hrecorded : c.RecordedFor call step) :
    Faithful report entry c step ↔ Fits entry := by
  obtain ⟨measurement, hkind, basis, hreplayable, rfl⟩ :=
    (callOf_measurement_eq_ok hreads).mp hcall
  obtain ⟨before, e, hplanned, -, rfl, hstored⟩ := hrecorded
  obtain ⟨name', rfl⟩ := hplanned.measurement_eq hreplayable
  -- the kind and the dit are what they are; the lists and the operator are to be compared
  have hfaithful : Faithful report entry c (c.stepOf
        (.measurement measurement basis (measurement.replayedTargets targets) i name')) ↔
      (controls = [] ∧ targets = measurement.replayedTargets targets) ∧
        match (basis.map c.operands.keyOf).toList.head? with
        | none => entry.get? "operand" = none
        | some key => ∃ op known, Names report entry op ∧ c.operands.get? key = some known ∧
            (known = op ∨ known.same op = true) := by
    constructor
    · rintro ⟨hfields, hnames⟩
      obtain ⟨-, hcontrols, htargets, -⟩ := (exists_reads_iff hreads).mp hfields
      exact ⟨⟨hcontrols, htargets⟩, hnames⟩
    · rintro ⟨⟨hcontrols, htargets⟩, hnames⟩
      exact ⟨(exists_reads_iff hreads).mpr
        ⟨MeasureKind.name_of_ofName? hkind, hcontrols, htargets, rfl⟩, hnames⟩
  have hsingle : targets ≠ [] → (targets = Extent.single.taken targets ↔ targets.length = 1) := by
    intro hne
    rw [eq_comm, Extent.taken_eq_self fun _ => hne]
    simp
  rw [hfaithful, fits_measurement_iff hreads hkind, and_assoc]
  refine and_congr_right fun _ => ?_
  cases measurement with
  | none => cases basis <;> exact hreplayable.elim
  | standard =>
    cases basis with
    | some op => exact hreplayable.elim
    | none => exact and_congr_left fun _ => hsingle hreplayable
  | basis =>
    cases basis with
    | none => exact hreplayable.elim
    | some op =>
      obtain ⟨known, hknown, hsame⟩ := hstored op rfl
      exact and_congr (hsingle hreplayable.2)
        (exists_names_iff hmembers hread htext hreplayable.1 hknown hsame)
  | jointBasis =>
    cases basis with
    | none => exact hreplayable.elim
    | some op =>
      obtain ⟨known, hknown, hsame⟩ := hstored op rfl
      exact (and_iff_right rfl).trans
        (exists_names_iff hmembers hread htext hreplayable hknown hsame)

/-- A recorded step is what its step of the report says just if that step fits. -/
theorem faithful_iff {qudits dits : Int} {index : Nat} {call : Call Float} {step : Step}
    (hmembers : report.get? "operands" = some (.object members))
    (hread : readOperands members = .ok operands)
    (hlayout : StepLayout qudits dits index entry)
    (hcall : callOf operands entry = .ok call) (hrecorded : c.RecordedFor call step) :
    Faithful report entry c step ↔ Fits entry := by
  obtain ⟨kind, controls, targets, dit, name, hreads⟩ := hlayout.reads
  cases dit with
  | none => exact faithful_gate_iff hmembers hread hlayout.operand hreads hcall hrecorded
  | some i => exact faithful_measurement_iff hmembers hread hlayout.operand hreads hcall hrecorded

end Steps

/-! ## Rebuilt circuits -/

theorem rebuild_eq_ok [Capacity] {serial : Nat} (h : rebuild serial report = .ok c) :
    ReportLayout report ∧ ∃ members operands start,
      report.get? "operands" = some (.object members) ∧ readOperands members = .ok operands ∧
        emptyCircuit serial report = .ok start ∧
        replay operands start (itemsOf (report.get? "steps")) = .ok c := by
  obtain ⟨⟨operands, start⟩, hprepare, hreplay⟩ := bind_eq_ok.mp h
  unfold prepare at hprepare
  simp only [bind_eq_ok, exists_unit, mapError_eq_ok, validate_eq_ok] at hprepare
  obtain ⟨hlayout, hprepare⟩ := hprepare
  refine ⟨hlayout, ?_⟩
  cases hgiven : report.get? "operands" with
  | none =>
    rw [hgiven] at hprepare
    cases hprepare
  | some given =>
    obtain ⟨members, rfl, -⟩ := hlayout.operands given hgiven
    rw [hgiven] at hprepare
    simp only [bind_eq_ok, pure_eq_ok] at hprepare
    obtain ⟨_, hread, _, hempty, heq⟩ := hprepare
    cases heq
    exact ⟨members, operands, start, rfl, hread, hempty, hreplay⟩

theorem emptyCircuit_log [Capacity] {serial : Nat} {start : Circuit Float}
    (h : emptyCircuit serial report = .ok start) : start.log = [] ∧ start.Ordered := by
  obtain ⟨n, m, d, namer, rfl⟩ := create?_eq_ok (mapError_eq_ok.mp h)
  exact ⟨rfl, (wellFormed_empty serial n m d _ namer _).ordered⟩

/-- A circuit that is rebuilt from a report has one step for each step of the report, and a step is
what the report says just if the step of the report fits. -/
theorem rebuild_faithful_iff [Capacity] {serial : Nat} (h : rebuild serial report = .ok c) :
    ∃ entries, report.get? "steps" = some (.array entries) ∧ c.stepCount = entries.length ∧
      List.Forall₂ (fun entry step => Faithful report entry c step ↔ Fits entry) entries c.log := by
  obtain ⟨hlayout, members, operands, start, hmembers, hread, hempty, hreplay⟩ := rebuild_eq_ok h
  obtain ⟨entries, hentries, hsteps⟩ := hlayout.steps
  rw [hentries] at hreplay
  obtain ⟨calls, hcalls, happend⟩ := replay_eq_ok.mp hreplay
  obtain ⟨hlog, hordered⟩ := emptyCircuit_log hempty
  obtain ⟨⟨steps, hrecords, hsteps'⟩, hordered', -, -⟩ := appendAll_records hordered happend
  rw [hlog, List.nil_append] at hrecords
  subst hrecords
  have hall : List.Forall₂ (fun entry step => Faithful report entry c step ↔ Fits entry)
      entries c.log := by
    -- from the steps of the report to their calls, and from the calls to what they record
    refine forall₂_comp (forall₂_of_mapM_eq_ok hcalls) hsteps'
      fun entry hentry call step hcall hstep => ?_
    obtain ⟨index, hindex⟩ := List.getElem?_of_mem hentry
    exact faithful_iff hmembers hread (hsteps index entry hindex) hcall hstep
  exact ⟨entries, hentries, hordered'.length_log ▸ hall.length_eq.symm, hall⟩

section

attribute [local instance] Capacity.common

/-- A measurement of the first of two qubits is rebuilt. -/
theorem rebuild_faithful_iff_measurement :
    let library : GateLibrary String Float := .standard 2 GateLibrary.standardTolerance
    let entry : Json := .object [("step", .int 0), ("type", .string "MEASURE_Z"),
      ("targets", .integers [0]), ("dit", .int 0), ("name", .string "Z")]
    let report : Json := .object [("version", .string version), ("n_qudits", .int 2),
      ("n_dits", .int 1), ("dim", .int 2), ("steps", .array [entry]), ("gate_count", .int 0),
      ("measurement_count", .int 1), ("measured", .integers [0]), ("non_measured", .integers [1]),
      ("operands", .object [])]
    let c : Circuit Float := (empty 0 2 1 2 "" library.nameOf Operator.contentKey).commit
      (.measurement .standard none [0] 0 "Z")
    rebuild 0 report = .ok c ∧
      ∃ entries, report.get? "steps" = some (.array entries) ∧ c.stepCount = entries.length ∧
        List.Forall₂ (fun entry step => Faithful report entry c step ↔ Fits entry) entries c.log := by
  intro library entry report c
  have hrebuild : rebuild 0 report = .ok c := rfl
  exact ⟨hrebuild, rebuild_faithful_iff hrebuild⟩

/-- A gate that names no operator is rebuilt with the one under the empty text, and a measurement of
digits that lists two targets is rebuilt with the first of them. -/
theorem rebuild_unfaithful :
    let library : GateLibrary String Float := .standard 2 GateLibrary.standardTolerance
    let gate : Json := .object [("step", .int 0), ("type", .string "SINGLE"),
      ("targets", .integers [0]), ("name", .string "U")]
    let measurement : Json := .object [("step", .int 1), ("type", .string "MEASURE_Z"),
      ("targets", .integers [1, 0]), ("dit", .int 0), ("name", .string "Z")]
    let report : Json := .object [("version", .string version), ("n_qudits", .int 2),
      ("n_dits", .int 1), ("dim", .int 2), ("steps", .array [gate, measurement]),
      ("gate_count", .int 1), ("measurement_count", .int 1), ("measured", .integers [0, 1]),
      ("non_measured", .integers []), ("operands", .object [("", Operator.encoded (.identity 2))])]
    let c : Circuit Float := ((empty 0 2 1 2 "" library.nameOf Operator.contentKey).commit
      (.gate .single (.identity 2) [] [0] "U" 1)).commit (.measurement .standard none [1] 0 "Z")
    let key : Int := Operator.contentKey (.identity 2)
    rebuild 0 report = .ok c ∧
      c.log = [.gate ⟨.single, key, [], [0], "U"⟩, .measure ⟨.standard, [], [1], 0, "Z"⟩] ∧
      ¬ Faithful report gate c (.gate ⟨.single, key, [], [0], "U"⟩) ∧
      ¬ Faithful report measurement c (.measure ⟨.standard, [], [1], 0, "Z"⟩) := by
  intro library gate measurement report c key
  refine ⟨rfl, rfl, fun hgate => ?_, fun hmeasurement => ?_⟩
  · obtain ⟨_, _, ⟨_, _, hoperand, -, -⟩, -, -⟩ := hgate.operator_eq
    have hnone : gate.get? "operand" = none := rfl
    rw [hnone] at hoperand
    cases hoperand
  · obtain ⟨_, hreads⟩ := hmeasurement.reads
    have htargets : some (Json.integers [1, 0]) = some (Json.integers [1]) := hreads.targets_eq
    simp [Json.integers] at htargets

end

end Report

end QuditSim
