import QuditSim.Proofs.Engine.Stages

/-!
# What a recorded step keeps

A step may come at any time: when other steps than those before it in the circuit were carried out,
after dits were set to any values, and after steps that failed when they had acted in part. From
wherever an engine stands, a recorded step on live qudits takes it to a place where it stands again,
and so does one that fails.

- `Engine.Advances` says how an engine that stands is related to one before.
- `Engine.ends_performGate_advances` and `Engine.ends_performMeasurement_advances` are the lemmas
  about the two sorts of steps, and `Engine.ends_execute_advances` is the one about a whole step.
- `EngineFault.Overflows` is the one reason for a failure that is no numeric one: a dit that controls
  a gate has a value that is no exponent.
-/

namespace QuditSim

/-- A fault of a gate under control of dits, one of which has a value that is too large for an
exponent. -/
def EngineFault.Overflows (fault : EngineFault) (dits : List Nat) : Prop :=
  fault = .state .badExponent ∧ ∃ v ∈ dits, 2 ^ 63 ≤ v

namespace Engine

open Execution

variable {S R : Type} {c : Circuit S} {gone : List Int}

/-! ## From one place to another -/

/-- An engine stands without the qudits of a list, and seen from one before, as many dits were
written with a probability, and those that were written have small values. -/
structure Advances (c : Circuit S) (gone : List Int) (before after : Engine S R) : Prop
    extends Stands c gone after where
  /-- There are as many probabilities as before. -/
  length_probs : after.probs.length = before.probs.length
  /-- A dit has a value from before, or a small one. -/
  dits_cases : ∀ v ∈ after.dits, v ∈ before.dits ∨ v < 2 ^ 63

theorem Stands.advances {engine : Engine S R} (h : Stands c gone engine) :
    Advances c gone engine engine where
  toStands := h
  length_probs := rfl
  dits_cases _ hv := .inl hv

theorem Advances.trans {gone' : List Int} {first second third : Engine S R}
    (h : Advances c gone first second) (h' : Advances c gone' second third) :
    Advances c gone' first third where
  toStands := h'.toStands
  length_probs := h'.length_probs.trans h.length_probs
  dits_cases v hv := (h'.dits_cases v hv).elim (h.dits_cases v) .inr

/-- Values that are too large for exponents were there before. -/
theorem Advances.overflows {before after : Engine S R} {fault : EngineFault}
    (h : Advances c gone before after) (hfault : fault.Overflows after.dits) :
    fault.Overflows before.dits := by
  obtain ⟨heq, v, hv, hlarge⟩ := hfault
  refine ⟨heq, v, ?_, hlarge⟩
  rcases h.dits_cases v hv with hold | hsmall
  · exact hold
  · exact absurd hsmall (Nat.not_lt.mpr hlarge)

/-- An engine whose dits are small enough for exponents still is one. -/
theorem Tracks.advance {gone' : List Int} {before after : Engine S R} (h : Tracks c gone before)
    (hadvances : Advances c gone' before after) : Tracks c gone' after where
  toStands := hadvances.toStands
  dits_lt v hv := (hadvances.dits_cases v hv).elim (h.dits_lt v) id

theorem Tracks.not_overflows {engine : Engine S R} {fault : EngineFault} (h : Tracks c gone engine) :
    ¬ fault.Overflows engine.dits := by
  rintro ⟨-, v, hv, hlarge⟩
  exact absurd (h.dits_lt v hv) (Nat.not_lt.mpr hlarge)

theorem robust_advances (before : Engine S R) : Robust c gone (Advances c gone before) where
  stands _ h := h.toStands
  withPreStep _ _ h hpre :=
    { fits := ⟨h.fits.serial_eq, h.fits.size_layout, hpre⟩
      gone_nodup := h.gone_nodup
      gone_inRange := h.gone_inRange
      layout_eq := h.layout_eq
      size_state := h.size_state
      length_dits := h.length_dits
      length_probs := h.length_probs
      dits_cases := h.dits_cases }
  withState _ _ h hsize :=
    { toStands := h.toStands.withState hsize
      length_probs := h.length_probs
      dits_cases := h.dits_cases }

/-- An engine that took over a measurement of live qudits stands without them. -/
theorem Stands.collapsed {gone : List Int} {engine : Engine S R} {step : MeasureStep}
    {state : StateVector R} (h : Stands c gone engine) (htargets : TargetList c.qudits step.targets)
    (hlive : ∀ q ∈ step.targets, q ∉ gone)
    (hsize : state.size = c.dim ^ Layout.place (gone ++ step.targets) c.qudits) (outcome : Nat)
    (prob : S) :
    Stands c (gone ++ step.targets) (engine.collapsed c gone step state outcome prob) where
  fits := ⟨h.fits.serial_eq, Layout.size_without _ _, h.fits.preStep⟩
  gone_nodup := by
    refine List.nodup_append.mpr ⟨h.gone_nodup, htargets.nodup, fun p hp q hq heq => ?_⟩
    exact hlive q hq (heq ▸ hp)
  gone_inRange := List.forall_mem_append.mpr ⟨h.gone_inRange, htargets.inRange⟩
  layout_eq := rfl
  size_state := hsize
  length_dits := (List.length_set ..).trans h.length_dits

/-- An engine that took over a measurement of live qudits has advanced. -/
theorem Stands.advances_collapsed {engine : Engine S R} {step : MeasureStep}
    {state : StateVector R} {outcome : Nat} {prob : S} (h : Stands c gone engine)
    (htargets : TargetList c.qudits step.targets) (hlive : ∀ q ∈ step.targets, q ∉ gone)
    (hsize : state.size = c.dim ^ Layout.place (gone ++ step.targets) c.qudits)
    (houtcome : outcome < 2 ^ 63) :
    Advances c (gone ++ step.targets) engine
      (engine.collapsed c gone step state outcome prob) where
  toStands := h.collapsed htargets hlive hsize outcome prob
  length_probs := List.length_set ..
  dits_cases v hv := by
    rcases List.mem_or_eq_of_mem_set hv with hold | rfl
    · exact .inl hold
    · exact .inr houtcome

/-! ## Gates -/

section Gates

variable [Scalar S]

/-- A gate under control of dits has no acts just for the reason that their common value is too
large for an exponent. -/
theorem classicalActs_eq_error {op : Operator S} {values : List Nat} {targets : List Int} {n : Nat}
    {fault : EngineFault} (hop : op.shape = [n, n])
    (h : classicalActs op values targets = .error fault) : fault.Overflows values := by
  rcases values with _ | ⟨v, rest⟩
  · cases h
  · rw [classicalActs_cons hop] at h
    split at h
    · split at h
      · cases h
      · next hlarge =>
        cases h
        exact ⟨rfl, v, List.mem_cons_self, Nat.not_lt.mp hlarge⟩
    · cases h

/-- A recorded gate has no acts just for the reason that a dit that controls it has a value that is
too large for an exponent. -/
theorem acts_eq_error {dits : List Nat} {step : GateStep} {fault : EngineFault}
    (hstep : step.Recorded c) (hlength : dits.length = c.dits)
    (h : acts c dits step step.controls step.targets = .error fault) : fault.Overflows dits := by
  have hcontrols := hstep.controls
  obtain ⟨op, hop, -⟩ := hstep.operator
  rcases hcontrol : step.kind.control? with _ | _ | _
  · unfold acts at h
    rw [operandOf_eq_ok hop] at h
    cases hkind : step.kind with
    | controlled | controlledCustom =>
      rw [hkind] at hcontrol
      cases hcontrol
    | _ =>
      rw [hkind] at h
      cases h
  · obtain ⟨joint, hjoint, -⟩ := jointOperand_eq_ok hstep (by rw [hcontrol]; rfl)
    rw [acts_of_quantum hcontrol, hjoint] at h
    cases h
  · obtain ⟨joint, hjoint, hshape⟩ := jointOperand_eq_ok hstep (by rw [hcontrol]; rfl)
    unfold Circuit.ControlsFit at hcontrols
    rw [hcontrol] at hcontrols
    rw [acts_of_classical hcontrol, hjoint,
      ditValues_eq_ok (by rw [hlength]; exact hcontrols)] at h
    obtain ⟨heq, v, hv, hlarge⟩ := classicalActs_eq_error hshape h
    refine ⟨heq, v, ?_, hlarge⟩
    -- a value as large as that is not the default, so it was read
    obtain ⟨i, -, rfl⟩ := List.mem_map.mp hv
    rw [List.getD_eq_getElem?_getD] at hlarge ⊢
    cases hget : dits[i.toNat]? with
    | none =>
      rw [hget] at hlarge
      exact absurd hlarge (by decide)
    | some v => exact List.mem_of_getElem? hget

variable [Scalar R] [Rounding S R]

/-- A recorded gate on live qudits leaves an engine standing, also if it acted on some of its targets
only. -/
theorem ends_performGate_advances {checking : Bool} {run : Run S R} {step : GateStep} {ip : Int}
    (hd : 2 ≤ c.dim) (h : Stands c gone run.engine) (hstep : step.Recorded c)
    (hlive : ∀ q ∈ (Step.gate step).qudits, q ∉ gone) :
    Ends (performGate checking c ip step
        (if step.kind.isQuantumControlled then step.controls.map (seat gone) else step.controls)
        (step.targets.map (seat gone))) run
      (fun _ run' => Advances c gone run.engine run'.engine)
      fun fault run' => (fault.IsNumeric ∨ fault.Overflows run.engine.dits) ∧
        Advances c gone run.engine run'.engine := by
  unfold performGate
  rw [ends_bind, ends_current, ends_bind, gateMaps_eq, acts_rename, ends_lift]
  cases hlist : acts c run.engine.dits step step.controls step.targets with
  | error fault => exact ⟨.inr (acts_eq_error hstep h.length_dits hlist), h.advances⟩
  | ok list =>
    have hfit := fit_of_acts_seat hstep hlive hlist
    dsimp only [Except.map]
    rw [ends_bind, ends_tellAll]
    -- every act that is carried out leaves a state of the same register
    refine ends_forM_invariant (fun _ run' => Advances c gone run.engine run'.engine) h.advances ?_
    intro i hi run' hrun'
    rw [List.getElem_map, ends_passThrough]
    obtain ⟨act, hact, heq⟩ := List.mem_map.mp (List.getElem_mem (by simpa using hi :
      i < (list.map (Act.rename (seat gone))).length))
    rw [← heq, Act.kernel_eq hd hrun'.size_state (hfit act hact)]
    rcases StateVector.checked_cases checking
      ((act.rename (seat gone)).total c.dim run'.engine.state) with hok | ⟨cause, hcause, hnorm⟩
    · rw [hok]
      exact (robust_advances _).withState _ _ hrun' ((Act.size_total ..).trans hrun'.size_state)
    · rw [hcause]
      exact ⟨.inl (EngineFault.IsNorm.isNumeric hnorm.2), hrun'⟩

end Gates

/-! ## Measurements -/

section Measurements

variable [Scalar S] [Scalar R] [Rounding S R] [Rounding R S]

/-- A recorded measurement of live qudits that fails leaves the engine as it is. -/
theorem ends_performMeasurement_failing (checking : Bool) {run : Run S R} {step : MeasureStep}
    (ip : Int) (h : Stands c gone run.engine) (hstep : step.Recorded c)
    (hlive : ∀ q ∈ step.targets, q ∉ gone) (targets : List Int) :
    Ends (performMeasurement checking c ip step targets) run (fun _ _ => True)
      fun _ run' => run'.engine = run.engine := by
  refine ends_performMeasurement_of_record (Q := fun _ : Engine S R => True)
    (E := fun engine => engine = run.engine) trivial rfl fun state outcome prob draws => ?_
  -- taking over an outcome meets no fault
  exact (ends_record { run with draws := draws } h hstep hlive ip state outcome prob).mono
    (fun _ _ _ => trivial) fun _ _ hfalse => hfalse.elim

omit [Rounding S R] [Rounding R S] in
/-- A drawing among some branches fails for a numeric reason, and so does the state of the branch
that is drawn. -/
theorem isNumeric_of_drawing {checking : Bool} {weights : List S} {u : S}
    {remaining : Nat → StateVector R} {run run' : Run S R} {fault : EngineFault}
    (hne : weights ≠ [])
    (h : (∃ v, sampleIndex weights u = .ok v ∧ fault.Refuses checking (remaining v)) ∨
      ∃ cause, fault = .state cause ∧ run' = run ∧ sampleIndex weights u = .error cause) :
    fault.IsNumeric := by
  rcases h with ⟨_, -, hrefused⟩ | ⟨cause, rfl, -, hcause⟩
  · exact hrefused.isNorm.2.isNumeric
  · exact isNumeric_of_sampleIndex hne hcause

/-- A recorded measurement of live qudits leaves an engine standing without them, or it fails for a
numeric reason and leaves the engine as it is. -/
theorem ends_performMeasurement_advances {checking : Bool} {run : Run S R} {step : MeasureStep}
    {ip : Int} (hd : 2 ≤ c.dim) (hextent : c.dim ^ c.qudits < 2 ^ 63)
    (h : Stands c gone run.engine) (hstep : step.Recorded c)
    (hlive : ∀ q ∈ step.targets, q ∉ gone) :
    Ends (performMeasurement checking c ip step (step.targets.map (seat gone))) run
      (fun _ run' => Advances c (gone ++ step.targets) run.engine run'.engine)
      fun fault run' => fault.IsNumeric ∧ run'.engine = run.engine := by
  have hfailing := ends_performMeasurement_failing checking ip h hstep hlive
    (step.targets.map (seat gone))
  have hplace := Layout.place_append_list hstep.targets.inRange hlive hstep.targets.nodup
  -- outcomes number the states of some qudits of the register, so they are small
  have hsmall {v : Nat} (hv : v < c.dim ^ step.targets.length) : v < 2 ^ 63 := by
    have hle : Layout.place gone c.qudits ≤ c.qudits := Nat.count_le _
    have hpow : c.dim ^ step.targets.length ≤ c.dim ^ c.qudits :=
      Nat.pow_le_pow_right (by omega) (by omega)
    omega
  rcases hstep.standard_or_inBasis with ⟨hkind, q, htargets⟩ | ⟨hkind, key, hkeys, hoperator⟩
  · have hone : step.targets.length = 1 := by rw [htargets, List.length_singleton]
    have hqlive : q ∉ gone := hlive q (by simp [htargets])
    refine ((ends_measureStandard checking ip hd h hstep hkind htargets hqlive).and hfailing).mono
      (fun _ run' hrun' => ?_) fun fault run' hfault => ?_
    · obtain ⟨⟨v, hv, -, hengine⟩, -⟩ := hrun'
      have hdigit : v < c.dim ^ step.targets.length := by
        rw [hone, Nat.pow_one]
        exact StateVector.lt_of_digitWeights hv
      rw [hengine]
      refine h.advances_collapsed hstep.targets hlive ?_ (hsmall hdigit)
      -- the slice has the state without one qudit
      rw [hone] at hplace
      rw [StateVector.remaining, StateVector.size_divRoot]
      refine StateVector.size_slice (by omega) ?_ _ _
      rw [h.size_state, hplace]
    · refine ⟨isNumeric_of_drawing ?_ hfault.1, hfault.2⟩
      simp only [StateVector.digitWeights, ne_eq, List.map_eq_nil_iff, List.range_eq_nil]
      omega
  · obtain ⟨basis, hkey, hshape⟩ := hoperator
    have hcolumns : (Rounding.round basis : Operator R).columns =
        c.dim ^ step.targets.length := Tensor.columns_of_shape hshape
    refine ((ends_measureInBasis checking ip hd h hstep hkind hkeys hkey hshape hlive).and
      hfailing).mono (fun _ run' hrun' => ?_) fun fault run' hfault => ?_
    · obtain ⟨⟨j, hj, -, hengine⟩, -⟩ := hrun'
      have hcolumn : j < c.dim ^ step.targets.length :=
        hcolumns ▸ StateVector.lt_of_columnWeights hj
      rw [hengine]
      refine h.advances_collapsed hstep.targets hlive ?_ (hsmall hcolumn)
      -- the branch of a column has the state without the targets
      simp only [StateVector.remainingOfColumn, StateVector.size_normalizedBranch,
        StateVector.size_branchOfColumn, List.length_map]
      congr 1
      omega
    · refine ⟨isNumeric_of_drawing ?_ hfault.1, hfault.2⟩
      have hpos : 0 < c.dim ^ step.targets.length := Nat.pow_pos (by omega)
      simp only [StateVector.columnWeights, hcolumns, ne_eq, List.map_eq_nil_iff,
        List.range_eq_nil]
      omega

end Measurements

/-! ## Whole steps -/

section Steps

variable [Scalar S] [Scalar R] [Rounding S R] [Rounding R S]

/-- A recorded step on live qudits takes an engine to where the step leaves it. If it fails, then for
a numeric reason or because a dit is too large for an exponent, and the engine stands. -/
theorem ends_execute_advances {checking : Bool} {run : Run S R} {step : Step} {ip : Nat}
    (hd : 2 ≤ c.dim) (hextent : c.dim ^ c.qudits < 2 ^ 63) (h : Stands c gone run.engine)
    (hstep : step.Recorded c) (hlive : ∀ q ∈ step.qudits, q ∉ gone) :
    Ends (execute checking c (step.view c.serial ip)) run
      (fun _ run' => Advances c (gone ++ step.retired) run.engine run'.engine)
      fun fault run' => (fault.IsNumeric ∨ fault.Overflows run.engine.dits) ∧
        ∃ gone', Advances c gone' run.engine run'.engine := by
  have hchecked {gone' : List Int} {run' : Run S R}
      (h : Advances c gone' run.engine run'.engine) :
      Ends checkNorm run' (fun _ run'' => Advances c gone' run.engine run''.engine)
        fun fault run'' => (fault.IsNumeric ∨ fault.Overflows run.engine.dits) ∧
          ∃ gone', Advances c gone' run.engine run''.engine := by
    refine ((ends_checkNorm run').and (leaves_checkNorm run')).mono (fun _ run'' hrun'' => ?_)
      fun fault run'' hfault => ?_
    · rw [hrun''.1]
      exact h
    · exact ⟨.inl hfault.1.2.isNumeric, gone', hfault.2 ▸ h⟩
  cases step with
  | gate step =>
    refine ends_execute h.fits.serial_eq.symm (resolve_gate h hstep hlive)
      ((ends_prepare rfl hd (robust_advances run.engine) h.advances).mono
        (fun _ run₁ h₁ run₂ heq _ => ?_) fun _ _ hfault => ⟨.inl hfault.1, gone, hfault.2⟩)
    have h₂ : Advances c gone run.engine run₂.engine := heq ▸ h₁
    refine (ends_performGate_advances hd h₂.toStands hstep hlive).mono
      (fun _ run₃ h₃ => hchecked ?_) fun _ run₃ hfault => ?_
    · rw [Step.retired_gate, List.append_nil]
      exact h₂.trans h₃
    · exact ⟨hfault.1.imp_right h₂.overflows, gone, h₂.trans hfault.2⟩
  | measure step =>
    refine ends_execute h.fits.serial_eq.symm (resolve_measure h hstep hlive)
      ((ends_prepare rfl hd (robust_advances run.engine) h.advances).mono
        (fun _ run₁ h₁ run₂ heq _ => ?_) fun _ _ hfault => ⟨.inl hfault.1, gone, hfault.2⟩)
    have h₂ : Advances c gone run.engine run₂.engine := heq ▸ h₁
    -- the noise left the engine where it stood, so the targets are still live
    refine (ends_performMeasurement_advances hd hextent h₂.toStands hstep hlive).mono
      (fun _ run₃ h₃ => hchecked (h₂.trans h₃)) fun _ run₃ hfault => ?_
    exact ⟨.inl hfault.1, gone, hfault.2 ▸ h₂⟩

end Steps

end Engine

end QuditSim
