import QuditSim.Proofs.Circuit.Walking
import QuditSim.Proofs.Engine.Validity
import QuditSim.Proofs.Engine.Weights

/-!
# Engines in use

An engine need not carry out the steps of its circuit in their order. It can be handed any of them at
any time, by a view or by a cursor, and more than once; dits can be set and the engine can be reset in
between; and steps can fail when they have changed something. `Engine.Used` is the closure under all
of this.

- `Engine.Steady` is what a used engine keeps: the sizes of its parts go with the live qudits, which
  are at the first positions in ascending order.
- `Engine.ends_execute_measured`: a step on a measured qudit is refused and changes nothing.
- `Engine.used_reliable`: a used engine is steady, and steps that it is handed are refused for measured
  qudits or fail for their numbers, never for a place that is not there (`Engine.Reliable`).
-/

namespace QuditSim

/-- A fault of a step on a measured qudit. -/
def EngineFault.IsMeasured : EngineFault → Prop
  | located failure => failure.family = .alreadyMeasured
  | _ => False

theorem EngineFault.IsNumeric.not_isMeasured {fault : EngineFault} (h : fault.IsNumeric) :
    ¬ fault.IsMeasured := by
  cases fault with
  | state cause => exact id
  | _ => exact h.elim

theorem EngineFault.Overflows.not_isMeasured {fault : EngineFault} {dits : List Nat}
    (h : fault.Overflows dits) : ¬ fault.IsMeasured := by
  rw [h.1]
  exact id

/-- The views of a circuit are those of the steps of its log. -/
theorem Circuit.mem_views_iff {S : Type} {c : Circuit S} (h : c.Ordered) {view : StepView} :
    view ∈ c.views ↔ ∃ ip, ∃ hip : ip < c.log.length, view = c.log[ip].view c.serial ip := by
  rw [views_eq h, List.mem_mapIdx]
  simp only [eq_comm]

namespace Engine

open Execution Fallible

variable {S R : Type} {c : Circuit S} {gone : List Int}

/-! ## Steps on measured qudits -/

/-- A qudit was measured by an engine. -/
def Lost (engine : Engine S R) (q : Int) : Prop := engine.layout.isMeasured (.int q) = .ok true

theorem Stands.lost_iff {engine : Engine S R} (h : Stands c gone engine) {q : Int}
    (hq : InRange c.qudits q) : engine.Lost q ↔ q ∈ gone := by
  unfold Lost
  rw [h.layout_eq, Layout.isMeasured_without hq]
  simp

/-- The qudits that a recorded step refers to are qudits of the circuit. -/
theorem inRange_of_recorded [Scalar S] {step : Step} (h : step.Recorded c) :
    ∀ q ∈ step.qudits, InRange c.qudits q := by
  cases step with
  | measure step => exact h.targets.inRange
  | gate step =>
    by_cases hcontrol : step.kind.control? = some .quantum
    · have hcontrols := h.controls
      unfold Circuit.ControlsFit at hcontrols
      rw [hcontrol] at hcontrols
      rw [Step.qudits_of_quantum hcontrol]
      exact List.forall_mem_append.mpr ⟨hcontrols.2.1, h.targets.inRange⟩
    · rw [Step.qudits_of_not_quantum hcontrol]
      exact h.targets.inRange

/-- Positions are not found where a qudit was measured. -/
theorem Stands.positions_of_mem {engine : Engine S R} (h : Stands c gone engine) (ip : Int)
    {indices : List Int} (hrange : ∀ q ∈ indices, InRange c.qudits q)
    (hgone : ∃ q ∈ indices, q ∈ gone) :
    ∃ fault : EngineFault, fault.IsMeasured ∧ engine.positions indices ip = .error fault := by
  obtain ⟨q, -, -, hresolve⟩ := Layout.resolve_without_of_mem (some (.int ip)) hrange hgone
  refine ⟨.located ⟨.measured (.int q), some (.string "resolve"), some (.int ip)⟩, rfl, ?_⟩
  unfold positions
  rw [h.layout_eq, hresolve]
  rfl

/-- A recorded step on a measured qudit is not resolved. -/
theorem Stands.resolve_of_mem [Scalar S] {engine : Engine S R} (h : Stands c gone engine)
    {step : Step} (ip : Nat) (hstep : step.Recorded c) (hgone : ∃ q ∈ step.qudits, q ∈ gone) :
    ∃ fault : EngineFault, fault.IsMeasured ∧
      engine.resolve (step.view c.serial ip) = .error fault := by
  have hrange := inRange_of_recorded hstep
  cases step with
  | measure step =>
    have hpositions : ∃ fault : EngineFault, fault.IsMeasured ∧
        engine.positions step.targets ip = .error fault := h.positions_of_mem ip hrange hgone
    obtain ⟨fault, hfault, hpositions⟩ := hpositions
    refine ⟨fault, hfault, ?_⟩
    unfold resolve Step.view
    dsimp only [Step.kind_measure]
    rw [hpositions]
    rfl
  | gate step =>
    unfold resolve Step.view
    dsimp only [Step.kind_gate]
    rw [not_reserved hstep]
    by_cases htargets : ∃ q ∈ step.targets, q ∈ gone
    · obtain ⟨fault, hfault, hpositions⟩ := h.positions_of_mem ip hstep.targets.inRange htargets
      rw [hpositions]
      exact ⟨fault, hfault, rfl⟩
    -- the targets are found, so it is a control that was measured
    · have hlive : ∀ q ∈ step.targets, q ∉ gone := fun q hq hmem => htargets ⟨q, hq, hmem⟩
      by_cases hcontrol : step.kind.control? = some .quantum
      · rw [Step.qudits_of_quantum hcontrol] at hgone hrange
        obtain ⟨q, hq, hmem⟩ := hgone
        have hcontrols : q ∈ step.controls :=
          (List.mem_append.mp hq).resolve_right fun htarget => hlive q htarget hmem
        obtain ⟨fault, hfault, hpositions⟩ := h.positions_of_mem ip
          (fun q hq => hrange q (List.mem_append_left _ hq)) ⟨q, hcontrols, hmem⟩
        have hquantum : step.kind.isQuantumControlled = true := by
          simpa [GateKind.isQuantumControlled] using hcontrol
        rw [h.positions_eq ip hstep.targets.inRange hlive, hquantum, hpositions]
        exact ⟨fault, hfault, rfl⟩
      · rw [Step.qudits_of_not_quantum hcontrol] at hgone
        exact (htargets hgone).elim

/-! ## Steady engines -/

/-- The parts of an engine go with the live qudits and with the registers of its circuit. -/
structure Steady (c : Circuit S) (engine : Engine S R) : Prop where
  /-- The layout is one of the qudits of the circuit. -/
  size_layout : engine.layout.size = c.qudits
  /-- The state is one of the live qudits. -/
  size_state : engine.state.size = c.dim ^ engine.layout.live.length
  /-- The live qudits in ascending order are at the positions from zero on. -/
  positions_eq : engine.layout.live.map (fun q => engine.layout.position? (.nat q)) =
    (List.range engine.layout.live.length).map fun position => .ok (some position)
  /-- There is a value for each dit. -/
  length_dits : engine.dits.length = c.dits
  /-- There is a probability for each dit. -/
  length_probs : engine.probs.length = c.dits

theorem Stands.steady {engine : Engine S R} (h : Stands c gone engine)
    (hprobs : engine.probs.length = c.dits) : Steady c engine where
  size_layout := h.fits.size_layout
  size_state := by
    rw [h.size_state, h.layout_eq, Layout.length_live_without]
  positions_eq := by
    rw [h.layout_eq, Layout.length_live_without, ← Layout.map_place_live, List.map_map]
    refine List.map_congr_left fun q hq => ?_
    rw [Layout.live_without, List.mem_filter, List.mem_range, decide_eq_true_eq] at hq
    exact (Layout.entry_without ⟨Int.natCast_nonneg q, Int.ofNat_lt.mpr hq.1⟩).trans
      (by rw [if_neg hq.2]; rfl)
  length_dits := h.length_dits
  length_probs := hprobs

/-- A cursor over the circuit of an engine shows it one of the views of the circuit, or it is past
the last step. -/
theorem viewAt_cases {engine : Engine S R} (hc : c.Ordered) (hserial : engine.serial = c.serial)
    {cursor : Cursor} (h : cursor.Placed c) :
    (∃ view cursor', engine.viewAt (some c) cursor = .ok (view, cursor') ∧ view ∈ c.views ∧
        cursor'.Placed c) ∨
      ∃ failure, engine.viewAt (some c) cursor = .error failure ∧
        failure.family = .invalidCursor := by
  have hview : engine.viewAt (some c) cursor = cursor.deref (some c) := by
    simp [viewAt, hserial]
  rw [hview]
  by_cases hip : cursor.ip < c.log.length
  · refine .inl ⟨_, _, h.deref hc hip, ?_, Cursor.placed_onStep hc h.ip_le⟩
    exact (Circuit.mem_views_iff hc).mpr ⟨cursor.ip, hip, rfl⟩
  · rw [hc.length_log] at hip
    exact .inr ⟨_, Cursor.deref_atEnd (Nat.not_lt.mp hip), rfl⟩

/-! ## Engines in use -/

variable [Scalar S]

theorem Stands.attempt {engine : Engine S R} (h : Stands c gone engine) (call : Call S) :
    Stands (c.attempt call) gone engine := by
  obtain ⟨-, hqudits, hdits, hdim⟩ := c.attempt_eq call
  refine ⟨h.fits.attempt call, h.gone_nodup, ?_, ?_, ?_, ?_⟩
  · rw [hqudits]
    exact h.gone_inRange
  · rw [hqudits]
    exact h.layout_eq
  · rw [hqudits, hdim]
    exact h.size_state
  · rw [hdits]
    exact h.length_dits

variable [Scalar R] [Rounding S R] [Rounding R S]

/-- A recorded step on a measured qudit is refused, and nothing is changed. -/
theorem ends_execute_measured {checking : Bool} {run : Run S R} {step : Step} {ip : Nat}
    (h : Stands c gone run.engine) (hstep : step.Recorded c)
    (hgone : ∃ q ∈ step.qudits, q ∈ gone) :
    Ends (execute checking c (step.view c.serial ip)) run (fun _ _ => False)
      fun fault run' => fault.IsMeasured ∧ run' = run := by
  obtain ⟨fault, hfault, hresolve⟩ := h.resolve_of_mem ip hstep hgone
  have hserial : (step.view c.serial ip).origin = run.engine.serial := h.fits.serial_eq.symm
  unfold execute
  rw [ends_bind, ends_current]
  dsimp only
  rw [if_neg (not_not_intro hserial), hresolve]
  exact ⟨hfault, rfl⟩

/-- An engine that was made for a circuit and then used in any way, with its circuit as it then is. -/
inductive Used [Capacity] : Circuit S → Engine S R → Prop where
  /-- The engine was just made. -/
  | made {c : Circuit S} {engine : Engine S R} (h : Made c engine) : Used c engine
  /-- The circuit got one more call. -/
  | attempt {c : Circuit S} {engine : Engine S R} (h : Used c engine) (call : Call S) :
    Used (c.attempt call) engine
  /-- A step of the circuit was executed, and it succeeded or failed. -/
  | execute {c : Circuit S} {engine : Engine S R} (h : Used c engine) (checking : Bool)
      {view : StepView} (hview : view ∈ c.views) (draws : Draws S) (events : List Event) :
    Used c ((Engine.execute checking c view).outcome ⟨engine, draws, events⟩).2.engine
  /-- A dit was set. -/
  | setDit {c : Circuit S} {engine engine' : Engine S R} (h : Used c engine)
      {i value : Argument} (hset : engine.setDit i value = .ok engine') : Used c engine'
  /-- The engine was reset. -/
  | reset {c : Circuit S} {engine : Engine S R} (h : Used c engine) : Used c (engine.reset c)

theorem Used.reachable [Capacity] {engine : Engine S R} (h : Used c engine) :
    Reachable c engine := by
  induction h with
  | made h => exact .made h
  | attempt h call ih => exact ih.attempt call
  | execute h checking hview draws events ih => exact ih.execute checking _ draws events
  | setDit h hset ih => exact ih.setDit hset
  | reset h ih => exact ih.reset

theorem Ready.stands [Capacity] {engine : Engine S R} (h : Ready c engine) :
    Stands c [] engine ∧ engine.probs.length = c.dits := by
  obtain ⟨hsane, hstart⟩ := h.sane
  refine ⟨(hstart.tracks hsane.fits).toStands, ?_⟩
  rw [hstart.probs_eq, List.length_replicate]

/-- From where an engine stands, a step of its circuit is refused for a measured qudit, or it takes
the engine to where it stands again. -/
theorem Stands.ends_execute (checking : Bool) (run : Run S R) {view : StepView}
    (h : Stands c gone run.engine) (hsane : Sane c run.engine) (hview : view ∈ c.views) :
    Ends (execute checking c view) run
      (fun _ run' => (¬ ∃ q ∈ view.step.qudits, run.engine.Lost q) ∧
        ∃ gone', Advances c gone' run.engine run'.engine)
      fun fault run' =>
        ((∃ q ∈ view.step.qudits, run.engine.Lost q) ∧ fault.IsMeasured ∧ run' = run) ∨
        (¬ ∃ q ∈ view.step.qudits, run.engine.Lost q) ∧
          (fault.IsNumeric ∨ fault.Overflows run.engine.dits) ∧
            ∃ gone', Advances c gone' run.engine run'.engine := by
  obtain ⟨ip, hip, rfl⟩ := (Circuit.mem_views_iff hsane.wellFormed.ordered).mp hview
  have hstep := hsane.wellFormed.recorded _ (List.getElem_mem hip)
  have hlost : (∃ q ∈ c.log[ip].qudits, run.engine.Lost q) ↔ ∃ q ∈ c.log[ip].qudits, q ∈ gone :=
    exists_congr fun q => and_congr_right fun hq => h.lost_iff (inRange_of_recorded hstep q hq)
  show Ends _ _ (fun _ run' => (¬ ∃ q ∈ c.log[ip].qudits, run.engine.Lost q) ∧ _)
    fun fault run' => ((∃ q ∈ c.log[ip].qudits, run.engine.Lost q) ∧ _) ∨
      (¬ ∃ q ∈ c.log[ip].qudits, run.engine.Lost q) ∧ _
  rw [hlost]
  by_cases hgone : ∃ q ∈ c.log[ip].qudits, q ∈ gone
  · exact (ends_execute_measured h hstep hgone).mono (fun _ _ hfalse => hfalse.elim)
      fun _ _ hfault => .inl ⟨hgone, hfault⟩
  · have hlive : ∀ q ∈ c.log[ip].qudits, q ∉ gone := fun q hq hmem => hgone ⟨q, hq, hmem⟩
    exact (ends_execute_advances hsane.two_le_dim hsane.size_lt h hstep hlive).mono
      (fun _ _ hadvances => ⟨hgone, _, hadvances⟩) fun _ _ hfault => .inr ⟨hgone, hfault⟩

/-- A used engine stands, and there is a probability for each dit. -/
theorem Used.stands [Capacity] {engine : Engine S R} (h : Used c engine) :
    ∃ gone, Stands c gone engine ∧ engine.probs.length = c.dits := by
  induction h with
  | made h => exact ⟨[], (Ready.made h).stands⟩
  | @attempt c engine h call ih =>
    obtain ⟨gone, hstands, hprobs⟩ := ih
    exact ⟨gone, hstands.attempt call, hprobs.trans (c.attempt_eq call).2.2.1.symm⟩
  | @execute c engine h checking view hview draws events ih =>
    obtain ⟨gone, hstands, hprobs⟩ := ih
    have hends := Stands.ends_execute checking ⟨engine, draws, events⟩ hstands h.reachable.sane hview
    have hadvanced {gone' : List Int} {run : Run S R} (h : Advances c gone' engine run.engine) :
        ∃ gone, Stands c gone run.engine ∧ run.engine.probs.length = c.dits :=
      ⟨gone', h.toStands, h.length_probs.trans hprobs⟩
    refine Leaves.holds (P := fun run => ∃ gone, Stands c gone run.engine ∧
      run.engine.probs.length = c.dits) (hends.mono ?_ ?_)
    · rintro _ run ⟨-, gone', hadvances⟩
      exact hadvanced hadvances
    · rintro fault run (⟨-, -, rfl⟩ | ⟨-, -, gone', hadvances⟩)
      · exact ⟨gone, hstands, hprobs⟩
      · exact hadvanced hadvances
  | setDit h hset ih =>
    obtain ⟨gone, hstands, hprobs⟩ := ih
    simp only [Engine.setDit, bind_eq_ok, pure_eq_ok] at hset
    obtain ⟨-, -, value, -, place, -, rfl⟩ := hset
    exact ⟨gone, ⟨⟨hstands.fits.serial_eq, hstands.fits.size_layout, hstands.fits.preStep⟩,
      hstands.gone_nodup, hstands.gone_inRange, hstands.layout_eq, hstands.size_state,
      (List.length_set ..).trans hstands.length_dits⟩, hprobs⟩
  | reset h ih => exact ⟨[], (Ready.reset h.reachable).stands⟩

/-- What an engine does with all that it can be handed. -/
structure Reliable (c : Circuit S) (engine : Engine S R) : Prop extends Steady c engine where
  /-- A value below zero is refused for a dit. -/
  refuses_negative : ∀ (i value : Argument) (x : Number), value.number? = some x →
    x.below 0 = true → ∀ engine', engine.setDit i value ≠ .ok engine'
  /-- A cursor over the circuit shows one of its views or is past the last step. -/
  viewAt_cases : ∀ cursor : Cursor, cursor.Placed c →
    (∃ view cursor', engine.viewAt (some c) cursor = .ok (view, cursor') ∧ view ∈ c.views ∧
        cursor'.Placed c) ∨
      ∃ failure, engine.viewAt (some c) cursor = .error failure ∧ failure.family = .invalidCursor
  /-- A step is refused for a measured qudit just if it refers to one, and then everything is as it
  was. Otherwise it succeeds, or it fails for its numbers. -/
  ends_execute : ∀ (checking : Bool) (draws : Draws S) (events : List Event), ∀ view ∈ c.views,
    Ends (execute checking c view) ⟨engine, draws, events⟩
      (fun _ _ => ¬ ∃ q ∈ view.step.qudits, engine.Lost q)
      fun fault run => (fault.IsMeasured ↔ ∃ q ∈ view.step.qudits, engine.Lost q) ∧
        (fault.IsMeasured → run = ⟨engine, draws, events⟩) ∧
          (¬ fault.IsMeasured → fault.IsNumeric ∨ fault.Overflows engine.dits)

/-- However an engine is used, it is reliable: its parts go with the live qudits, which are at the
positions from zero on, and a step that it is handed fails for a measured qudit, without changing
anything, or for its numbers. -/
theorem used_reliable [Capacity] {engine : Engine S R} (h : Used c engine) : Reliable c engine := by
  have hsane := h.reachable.sane
  obtain ⟨gone, hstands, hprobs⟩ := h.stands
  refine ⟨hstands.steady hprobs, fun i value x hx hbelow engine' hset => ?_,
    fun cursor hcursor => viewAt_cases hsane.wellFormed.ordered hsane.fits.serial_eq hcursor,
    fun checking draws events view hview => ?_⟩
  · have hvalue : ditValue value = .error (.negativeValue value) := by
      unfold ditValue
      rw [hx]
      exact if_pos hbelow
    simp only [setDit, bind_eq_ok, hvalue] at hset
    obtain ⟨-, -, _, hnone, -⟩ := hset
    cases hnone
  · refine (Stands.ends_execute checking ⟨engine, draws, events⟩ hstands hsane hview).mono
      (fun _ run hrun => hrun.1) fun fault run hfault => ?_
    rcases hfault with ⟨hlost, hmeasured, hrun⟩ | ⟨hlive, hcause, -⟩
    · exact ⟨iff_of_true hmeasured hlost, fun _ => hrun, fun hnot => (hnot hmeasured).elim⟩
    · have hnot : ¬ fault.IsMeasured :=
        hcause.elim EngineFault.IsNumeric.not_isMeasured EngineFault.Overflows.not_isMeasured
      exact ⟨iff_of_false hnot hlive, fun hmeasured => (hnot hmeasured).elim, fun _ => hcause⟩

section

attribute [local instance] Capacity.common

/-- A new qubit that is measured, and an engine that has measured it: it is handed the step once
more, and refuses it. -/
theorem used_reliable_qubit :
    let c : Circuit ℝ := (Circuit.empty 0 1 1 2 "" (fun _ => "") fun _ => 0).attemptAll
      [.measureZ (.int 0) (.int 0) ""]
    let view : StepView := (Step.measure ⟨.standard, [], [0], 0, "Z"⟩).view 0 0
    let engine : Engine ℝ ℝ := start c {} .nothing
    let after := ((execute false c view).outcome ⟨engine, .ofList [], []⟩).2.engine
    view ∈ c.views ∧ after.Lost 0 ∧ Used c after ∧ Reliable c after := by
  intro c view engine after
  have hcreate : Circuit.create? 0 (.int 1) (.int 1) (.int 2) "" (fun _ => .ok fun _ => "")
      (fun _ => 0) = .ok (Circuit.empty 0 1 1 2 "" (fun _ => "") fun _ => 0 : Circuit ℝ) := rfl
  have hbuilt : c.Built := ⟨0, .int 1, .int 1, .int 2, "", _, _, _, _, hcreate, rfl⟩
  have hmade : Made c engine :=
    .intro {} none .nothing hbuilt rfl (fun channel hchannel => nomatch hchannel) rfl
  have hview : view ∈ c.views := List.mem_singleton.mpr rfl
  have hused : Used c after := (Used.made hmade).execute false hview _ _
  refine ⟨hview, ?_, hused, used_reliable hused⟩
  have hstep := hmade.sane.wellFormed.recorded view.step (List.mem_singleton.mpr rfl)
  -- the weights of the digits of a new qubit have the sum one, so one of them is drawn
  have hweight : (StateVector.chanceWeight engine.state : ℝ) = 1 := by
    rw [StateVector.chanceWeight_real]
    show ∑ x ∈ Finset.range 2, _ = (1 : ℝ)
    rw [Finset.sum_range_succ, Finset.sum_range_one]
    show Complex.normSq (1 : Amplitude ℝ).toComplex + Complex.normSq (0 : Amplitude ℝ).toComplex = 1
    rw [Amplitude.toComplex_one, Amplitude.toComplex_zero, map_one, map_zero, add_zero]
  have hsum := StateVector.sum_digitWeights (n := 1) (by decide : 0 < 2) (by rfl :
    engine.state.size = 2 ^ 1) (by decide : 0 < 1)
  rw [hweight] at hsum
  have hmeasured : Ends (execute false c view) ⟨engine, .ofList [], []⟩
      (fun _ run => run.engine.Lost 0) fun _ _ => False := by
    have htask : engine.resolve view = .ok (.measurement ⟨.standard, [], [0], 0, "Z"⟩ [0]) := rfl
    refine ends_execute rfl htask ?_
    rw [ends_prepare_nothing rfl]
    intro run hengine hdraws
    have hstands : Stands c [] run.engine := hengine ▸ (Ready.made hmade).stands.1
    have hdrawn : ∃ v, sampleIndex (StateVector.digitWeights c.dim 0 run.engine.state : List ℝ)
        run.draws.current = .ok v := by
      rw [hengine]
      exact (StateVector.sampleIndex_of_sum hsum _).1
    obtain ⟨v, hv⟩ := hdrawn
    refine (ends_measureStandard false 0 (Nat.le_refl 2) hstands hstep rfl rfl
      List.not_mem_nil).mono (fun _ run' hrun' => ?_) fun fault run' hfault => ?_
    · obtain ⟨v, -, -, hcollapsed⟩ := hrun'
      refine (ends_checkNorm run').mono (fun _ run'' hrun'' => ?_) fun _ _ hfault => ?_
      · rw [hrun'', hcollapsed]
        rfl
      · rw [hcollapsed, hengine] at hfault
        exact absurd hfault.1 Bool.false_ne_true
    · rcases hfault with ⟨_, -, hrefused⟩ | ⟨cause, -, -, hcause⟩
      · exact absurd hrefused.isNorm.1 Bool.false_ne_true
      · cases hv.symm.trans hcause
  exact Leaves.holds (P := fun run => run.engine.Lost 0)
    (hmeasured.mono (fun _ _ h => h) fun _ _ hfalse => hfalse.elim)

end

end Engine

end QuditSim
