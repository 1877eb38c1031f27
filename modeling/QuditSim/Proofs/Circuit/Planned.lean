import QuditSim.Proofs.Circuit.WellFormed

/-!
# What accepted calls record

A call that is accepted records one step. What the step is can be read off the arguments of the
call, without the checks that it passed.

- `Circuit.Planned` says what a call records, operation by operation, and `Circuit.planned_of_plan`
  that it does.
- `Circuit.attemptAll_keeps` is the run lemma for calls of which some are refused: what recording an
  entry keeps is kept by all of them.
- `Circuit.appendAll_records` is the run lemma for calls that are all accepted: each of them
  records one step, and what is recorded stays.
-/

namespace QuditSim

open Fallible

/-! ## Operators that are given -/

/-- The operator of an argument, if it is one. -/
def OperatorArg.operator? {S : Type} : OperatorArg S → Option (Operator S)
  | operator op => some op
  | foreign _ | raising _ => none

/-- The operator that a call is given, if it is given one. -/
def Call.operator? {S : Type} : Call S → Option (Operator S)
  | gate arg .. | gateFan arg .. | gateCustom arg .. | ctrl arg .. | ctrlCustom arg .. |
    cctrl arg .. | cctrlCustom arg .. | measureV arg .. => arg.operator?
  | qft | tfq | measureZ .. => none

/-- The operator of an entry, if it has one. -/
def Entry.operator? {S : Type} : Entry S → Option (Operator S)
  | .gate _ op .. => some op
  | .measurement _ basis .. => basis

namespace Circuit

variable {S : Type} {c c' c'' : Circuit S}

/-! ## What calls record -/

/-- The kind of a measurement in a basis, for an argument that names its qudits. -/
def basisKind : Extent → MeasureKind
  | .single => .basis
  | .multiple => .jointBasis

/-- What a call records once it is accepted: the operator that it was given, and the indices that
its arguments are read as. -/
inductive Planned (c : Circuit S) : Call S → Entry S → Prop
  | gate {op : Operator S} {items : List IndexItem} {targets : List Int} {name : String}
      (htargets : indicesOf items = .ok targets) :
    Planned c (.gate (.operator op) items name)
      (.gate (jointKind targets.length) op [] targets (c.nameFor op name) 1)
  | fanAll {op : Operator S} {targets : List Int} {name : String} :
    Planned c (.gateFan (.operator op) none name)
      (.gate .fan op [] targets (c.nameFor op name) targets.length)
  | fan {op : Operator S} {given : IndexArg} {targets : List Int} {name : String}
      (htargets : given.listed = .ok targets) :
    Planned c (.gateFan (.operator op) (some given) name)
      (.gate .fan op [] targets (c.nameFor op name) targets.length)
  | custom {op : Operator S} {given : IndexArg} {targets : List Int} {name : String}
      (htargets : given.listed = .ok targets) :
    Planned c (.gateCustom (.operator op) given name)
      (.gate .custom op [] targets (c.nameFor op name) 1)
  | ctrl {op : Operator S} {one other : IndexArg} {controls targets : List Int} {name : String}
      (hcontrols : one.indices = .ok controls) (htargets : other.indices = .ok targets) :
    Planned c (.ctrl (.operator op) one other name)
      (.gate (.controlled .quantum one.extent other.extent) op controls targets
        (c.controlledName op name .quantum) 1)
  | ctrlCustom {op : Operator S} {one other : IndexArg} {controls targets : List Int}
      {name : String} (hcontrols : one.listed = .ok controls)
      (htargets : other.listed = .ok targets) :
    Planned c (.ctrlCustom (.operator op) one other name)
      (.gate (.controlledCustom .quantum) op controls targets
        (c.controlledName op name .quantum) 1)
  | cctrl {op : Operator S} {one other : IndexArg} {controls targets : List Int} {name : String}
      (hcontrols : one.indices = .ok controls) (htargets : other.indices = .ok targets) :
    Planned c (.cctrl (.operator op) one other name)
      (.gate (.controlled .classical one.extent other.extent) op controls targets
        (c.controlledName op name .classical) 1)
  | cctrlCustom {op : Operator S} {one other : IndexArg} {controls targets : List Int}
      {name : String} (hcontrols : one.listed = .ok controls)
      (htargets : other.listed = .ok targets) :
    Planned c (.cctrlCustom (.operator op) one other name)
      (.gate (.controlledCustom .classical) op controls targets
        (c.controlledName op name .classical) 1)
  | measureZ {target dit : IndexItem} {q i : Int} {name : String}
      (htarget : target.index = .ok q) (hdit : dit.index = .ok i) :
    Planned c (.measureZ target dit name)
      (.measurement .standard none [q] i (if name = "" then "Z" else name))
  | measureV {op : Operator S} {given : IndexArg} {dit : IndexItem} {targets : List Int} {i : Int}
      {name : String} (htargets : given.indices = .ok targets) (hdit : dit.index = .ok i) :
    Planned c (.measureV (.operator op) given dit name)
      (.measurement (basisKind given.extent) (some op) targets i (c.nameFor op name))

/-- The operator that a call records is the one that it was given. -/
theorem Planned.operator? {call : Call S} {entry : Entry S} (h : c.Planned call entry) :
    ∀ op ∈ entry.operator?, op ∈ call.operator? := by
  cases h with
  | measureZ htarget hdit => exact nofun
  | _ =>
    rintro _ ⟨⟩
    rfl

/-- Whether an entry has the operator, the targets and the controls that its kind needs. -/
def Shaped : Entry S → Prop
  | .gate kind _ controls targets _ _ =>
    kind.Takes controls.length targets.length ∧ (kind.control? = none → controls = [])
  | .measurement kind basis targets _ _ =>
    match kind, basis with
    | .standard, none => targets.length = 1
    | .basis, some _ => targets.length = 1
    | .jointBasis, some _ => True
    | _, _ => False

section Plans

variable [Scalar S]

theorem planned_of_planControlled {control : Control} {kind : GateKind} {arg : OperatorArg S}
    {controls targets : List Int} {acted : Nat} {name : String} {entry : Entry S}
    (h : c.planControlled control kind arg controls targets acted name = .ok entry) :
    ∃ op, arg = .operator op ∧
      entry = .gate kind op controls targets (c.controlledName op name control) 1 := by
  cases control with
  | quantum =>
    simp only [planControlled, bind_eq_ok, pure_eq_ok] at h
    obtain ⟨-, -, -, -, -, -, op, hop, rfl⟩ := h
    exact ⟨op, (checkOperand_eq_ok.mp hop).1, rfl⟩
  | classical =>
    simp only [planControlled, bind_eq_ok, pure_eq_ok] at h
    obtain ⟨-, -, -, -, op, hop, rfl⟩ := h
    exact ⟨op, (checkOperand_eq_ok.mp hop).1, rfl⟩

/-- A plan that was made is what the call records. -/
theorem planned_of_plan {call : Call S} {entry : Entry S} (h : c.plan call = .ok entry) :
    Planned c call entry := by
  cases call with
  | gate arg items name =>
    simp only [plan, bind_eq_ok, pure_eq_ok, readIndices_eq_ok] at h
    obtain ⟨-, -, targets, htargets, -, -, op, hop, rfl⟩ := h
    obtain ⟨rfl, -⟩ := checkOperand_eq_ok.mp hop
    exact .gate htargets
  | gateFan arg given name =>
    cases given with
    | none =>
      simp only [plan, bind_eq_ok, pure_eq_ok] at h
      obtain ⟨targets, -, -, -, -, -, op, hop, rfl⟩ := h
      obtain ⟨rfl, -⟩ := checkOperand_eq_ok.mp hop
      exact .fanAll
    | some given =>
      simp only [plan, bind_eq_ok, pure_eq_ok, readIndices_eq_ok] at h
      obtain ⟨targets, htargets, -, -, -, -, op, hop, rfl⟩ := h
      obtain ⟨rfl, -⟩ := checkOperand_eq_ok.mp hop
      exact .fan htargets
  | gateCustom arg given name =>
    simp only [plan, bind_eq_ok, pure_eq_ok, readIndices_eq_ok] at h
    obtain ⟨targets, htargets, -, -, -, -, op, hop, rfl⟩ := h
    obtain ⟨rfl, -⟩ := checkOperand_eq_ok.mp hop
    exact .custom htargets
  | qft => cases h
  | tfq => cases h
  | ctrl arg one other name =>
    simp only [plan, bind_eq_ok, readIndices_eq_ok] at h
    obtain ⟨controls, hcontrols, targets, htargets, h⟩ := h
    obtain ⟨op, rfl, rfl⟩ := planned_of_planControlled h
    exact .ctrl hcontrols htargets
  | ctrlCustom arg one other name =>
    simp only [plan, bind_eq_ok, readIndices_eq_ok] at h
    obtain ⟨controls, hcontrols, targets, htargets, h⟩ := h
    obtain ⟨op, rfl, rfl⟩ := planned_of_planControlled h
    exact .ctrlCustom hcontrols htargets
  | cctrl arg one other name =>
    simp only [plan, bind_eq_ok, readIndices_eq_ok] at h
    obtain ⟨controls, hcontrols, targets, htargets, h⟩ := h
    obtain ⟨op, rfl, rfl⟩ := planned_of_planControlled h
    exact .cctrl hcontrols htargets
  | cctrlCustom arg one other name =>
    simp only [plan, bind_eq_ok, readIndices_eq_ok] at h
    obtain ⟨controls, hcontrols, targets, htargets, h⟩ := h
    obtain ⟨op, rfl, rfl⟩ := planned_of_planControlled h
    exact .cctrlCustom hcontrols htargets
  | measureZ target dit name =>
    simp only [plan, bind_eq_ok, pure_eq_ok, readIndices_eq_ok, mapError_eq_ok, indicesOf] at h
    obtain ⟨_, ⟨q, hq, _, ⟨⟩, rfl⟩, i, hi, -, -, -, -, -, -, rfl⟩ := h
    exact .measureZ hq hi
  | measureV arg given dit name =>
    simp only [plan, bind_eq_ok, pure_eq_ok, readIndices_eq_ok, mapError_eq_ok] at h
    obtain ⟨targets, htargets, i, hi, -, -, -, -, -, -, -, -, -, -, op, hop, rfl⟩ := h
    obtain ⟨rfl, -⟩ := checkOperand_eq_ok.mp hop
    exact .measureV htargets hi

/-- The operator of a sound entry can be stored. -/
theorem Sound.storable {entry : Entry S} (h : c.Sound entry) :
    ∀ op ∈ entry.operator?, ∃ k, c.Storable op k := by
  cases entry with
  | gate kind op controls targets name increment =>
    rintro _ ⟨⟩
    exact ⟨_, h.2.2.2.2.1⟩
  | measurement kind basis targets dit name =>
    rintro op ⟨⟩
    have hkind := h.2.2.2
    cases kind with
    | none => exact hkind.elim
    | standard => exact hkind.elim
    | basis => exact ⟨_, hkind.2⟩
    | jointBasis => exact ⟨_, hkind⟩

theorem Sound.shaped {entry : Entry S} (h : c.Sound entry) : Shaped entry := by
  cases entry with
  | gate kind op controls targets name increment =>
    obtain ⟨-, -, hcontrols, htakes, -, -⟩ := h
    refine ⟨htakes, fun hcontrol => ?_⟩
    simpa only [ControlsFit, hcontrol] using hcontrols
  | measurement kind basis targets dit name =>
    have hkind := h.2.2.2
    cases basis with
    | none => cases kind <;> exact hkind
    | some op =>
      cases kind with
      | basis => exact hkind.1
      | jointBasis => trivial
      | none => exact hkind.elim
      | standard => exact hkind.elim

theorem append_eq_ok {call : Call S} :
    c.append call = .ok c' ↔
      ∃ entry, manyTargets? call = none ∧ c.plan call = .ok entry ∧ c.commit entry = c' := by
  unfold append
  cases manyTargets? call with
  | some count => simp
  | none => cases c.plan call <;> simp

theorem append_of_plan_error {call : Call S} {cause : Cause} (hfew : manyTargets? call = none)
    (hplan : c.plan call = .error cause) :
    c.append call = .error (.ofFailure (.atStep call.operation c.stepCount cause)) := by
  unfold append
  rw [hfew, hplan]

end Plans

/-! ## What recording leaves as it is -/

theorem keyOf_commit (c : Circuit S) (entry : Entry S) :
    (c.commit entry).operands.keyOf = c.operands.keyOf := by
  cases entry with
  | gate kind op controls targets name increment => exact OperandTable.keyOf_insert _ _
  | measurement kind basis targets dit name =>
    cases basis with
    | none => rfl
    | some op => exact OperandTable.keyOf_insert _ _

/-- Entries are the same steps on circuits with the same keys. -/
theorem stepOf_eq_of_keyOf (h : c'.operands.keyOf = c.operands.keyOf) :
    c'.stepOf = c.stepOf := by
  funext entry
  cases entry <;> simp only [stepOf, h]

/-- Under the key of an operator that was recorded there is the operator, or another one that was
there before. -/
theorem get?_commit (c : Circuit S) (entry : Entry S) : ∀ op ∈ entry.operator?,
    (c.commit entry).operands.get? (c.operands.keyOf op) =
      some ((c.operands.get? (c.operands.keyOf op)).getD op) := by
  cases entry with
  | gate kind op controls targets name increment =>
    rintro _ ⟨⟩
    exact OperandTable.get?_insert _ _
  | measurement kind basis targets dit name =>
    rintro op ⟨⟩
    exact OperandTable.get?_insert _ _

theorem GoesOn.trans (h : c.GoesOn c') (h' : c'.GoesOn c'') : c.GoesOn c'' where
  qudits_eq := h'.qudits_eq.trans h.qudits_eq
  dits_eq := h'.dits_eq.trans h.dits_eq
  dim_eq := h'.dim_eq.trans h.dim_eq
  operands key op hop := h'.operands key op (h.operands key op hop)

/-! ## Calls one after the other -/

section Runs

variable [Scalar S]

/-- A call leaves a circuit as it is, or it records an entry. -/
theorem attempt_cases (c : Circuit S) (call : Call S) :
    c.attempt call = c ∨ ∃ entry, c.Sound entry ∧ c.Planned call entry ∧
      c.attempt call = c.commit entry := by
  unfold attempt
  cases h : c.append call with
  | error fault => exact .inl rfl
  | ok c' =>
    obtain ⟨entry, hmany, hplan, rfl⟩ := append_eq_ok.mp h
    exact .inr ⟨entry, sound_of_plan hmany hplan, planned_of_plan hplan, rfl⟩

/-- What is kept when an entry of a call is recorded is kept by calls of which each is accepted or
refused. -/
theorem attemptAll_keeps {P : Circuit S → Prop} {calls : List (Call S)}
    (hkeep : ∀ c, P c → ∀ call ∈ calls, ∀ entry, c.Sound entry → c.Planned call entry →
      P (c.commit entry)) (hc : P c) : P (c.attemptAll calls) := by
  induction calls generalizing c with
  | nil => exact hc
  | cons call calls ih =>
    -- the first call is refused, or its entry is recorded
    refine ih (fun c hc other hother => hkeep c hc other (List.mem_cons_of_mem _ hother)) ?_
    rcases c.attempt_cases call with h | ⟨entry, hsound, hplanned, h⟩
    · rwa [h]
    · rw [h]
      exact hkeep c hc call List.mem_cons_self entry hsound hplanned

theorem appendAll_cons_eq_ok {call : Call S} {calls : List (Call S)} :
    c.appendAll (call :: calls) = .ok c' ↔ ∃ next, c.append call = .ok next ∧
      next.appendAll calls = .ok c' :=
  bind_eq_ok

theorem appendAll_concat {start : Circuit S} {calls : List (Call S)}
    (h : start.appendAll calls = .ok c) (call : Call S) :
    start.appendAll (calls ++ [call]) = c.append call := by
  unfold appendAll at h ⊢
  rw [List.foldlM_append, h]
  show (c.append call >>= pure) = _
  rw [bind_pure]

/-- A step is recorded in a circuit for a call: it is that of an entry that the call asked for, and
the operator of the entry is stored, or one that is equal to it. -/
def RecordedFor (c : Circuit S) (call : Call S) (step : Step) : Prop :=
  ∃ (before : Circuit S) (entry : Entry S), before.Planned call entry ∧ Shaped entry ∧
    step = c.stepOf entry ∧ ∀ op ∈ entry.operator?, ∃ known,
      c.operands.get? (c.operands.keyOf op) = some known ∧ (known = op ∨ known.same op = true)

/-- What was recorded for a call stays recorded for it. -/
theorem RecordedFor.goesOn {call : Call S} {step : Step} (h : c.RecordedFor call step)
    (hc : c.GoesOn c') (hkeyOf : c'.operands.keyOf = c.operands.keyOf) :
    c'.RecordedFor call step := by
  obtain ⟨before, entry, hplanned, hshaped, rfl, hstored⟩ := h
  refine ⟨before, entry, hplanned, hshaped, by rw [stepOf_eq_of_keyOf hkeyOf], fun op hop => ?_⟩
  obtain ⟨known, hknown, hsame⟩ := hstored op hop
  rw [hkeyOf]
  exact ⟨known, hc.operands _ known hknown, hsame⟩

/-- An accepted call records one step. -/
theorem append_records {call : Call S} (hc : c.Ordered) (h : c.append call = .ok c') :
    ∃ step, c'.log = c.log ++ [step] ∧ c'.Ordered ∧ c'.RecordedFor call step ∧ c.GoesOn c' ∧
      c'.operands.keyOf = c.operands.keyOf := by
  obtain ⟨entry, hmany, hplan, rfl⟩ := append_eq_ok.mp h
  obtain ⟨hlog, hordered⟩ := hc.commit entry
  have hkeyOf := keyOf_commit c entry
  have hsound := sound_of_plan hmany hplan
  refine ⟨_, hlog, hordered, ⟨c, entry, planned_of_plan hplan, hsound.shaped, ?_, ?_⟩,
    goesOn_commit c entry, hkeyOf⟩
  · rw [stepOf_eq_of_keyOf hkeyOf]
  · rw [hkeyOf]
    intro op hop
    -- where another operator had the key before, the call was only accepted if the two are equal
    refine ⟨_, get?_commit c entry op hop, ?_⟩
    obtain ⟨k, -, hsame⟩ := hsound.storable op hop
    cases hknown : c.operands.get? (c.operands.keyOf op) with
    | none => exact .inl rfl
    | some known => exact .inr (hsame known hknown)

/-- Accepted calls record one step each, behind those that were recorded before. -/
theorem appendAll_records {calls : List (Call S)} (hc : c.Ordered)
    (h : c.appendAll calls = .ok c') :
    (∃ steps, c'.log = c.log ++ steps ∧ List.Forall₂ c'.RecordedFor calls steps) ∧ c'.Ordered ∧
      c.GoesOn c' ∧ c'.operands.keyOf = c.operands.keyOf := by
  induction calls generalizing c with
  | nil =>
    cases h
    exact ⟨⟨[], (List.append_nil _).symm, .nil⟩, hc, ⟨rfl, rfl, rfl, fun _ _ h => h⟩, rfl⟩
  | cons call calls ih =>
    obtain ⟨next, hnext, hrest⟩ := appendAll_cons_eq_ok.mp h
    obtain ⟨step, hlog, hordered, hstep, hgoes, hkeyOf⟩ := append_records hc hnext
    obtain ⟨⟨steps, hlog', hsteps⟩, hordered', hgoes', hkeyOf'⟩ := ih hordered hrest
    refine ⟨⟨step :: steps, ?_, .cons (hstep.goesOn hgoes' hkeyOf') hsteps⟩, hordered',
      hgoes.trans hgoes', hkeyOf'.trans hkeyOf⟩
    rw [hlog', hlog, List.append_assoc, List.singleton_append]

end Runs

end Circuit

end QuditSim
