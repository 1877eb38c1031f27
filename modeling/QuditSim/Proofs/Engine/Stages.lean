import QuditSim.Proofs.Engine.Acts
import QuditSim.Proofs.Engine.Reachable

/-!
# The stages of a recorded step

An engine that carried out the steps of its circuit so far stands as `Engine.Tracks` says: the
layout is that of the qudits that were measured, and state and dits have the sizes that go with it.
For such an engine, each stage of the next recorded step does one thing and can only fail for a
numeric reason:

- `Engine.resolve_gate` and `Engine.resolve_measure` find the positions of the live qudits;
- `Engine.ends_prepare` lets the noise act, which leaves all that does not depend on noise
  (`Engine.Robust`);
- `Engine.ends_performGate` carries out the acts of a gate;
- `Engine.ends_measureStandard` and `Engine.ends_measureInBasis` measure.
-/

namespace QuditSim

/-- A fault of a check of norms. -/
def EngineFault.IsNorm : EngineFault → Prop
  | state fault => fault.IsNorm
  | _ => False

/-- A fault that comes of the values of amplitudes alone. -/
def EngineFault.IsNumeric : EngineFault → Prop
  | state fault => fault.IsNumeric
  | _ => False

theorem EngineFault.IsNorm.isNumeric {fault : EngineFault} (h : fault.IsNorm) :
    fault.IsNumeric := by
  cases fault with
  | state fault => exact StateFault.IsNorm.isNumeric h
  | _ => exact h.elim

/-- A fault is the refusal of a state when its norm is checked. -/
def EngineFault.Refuses {R : Type} [Scalar R] (fault : EngineFault) (checking : Bool)
    (state : StateVector R) : Prop :=
  ∃ cause, fault = .state cause ∧ state.checked checking = .error cause

/-- States are refused for their norms only, and only if these are checked. -/
theorem EngineFault.Refuses.isNorm {R : Type} [Scalar R] {fault : EngineFault} {checking : Bool}
    {state : StateVector R} (h : fault.Refuses checking state) :
    checking = true ∧ fault.IsNorm := by
  obtain ⟨cause, rfl, hchecked⟩ := h
  rcases StateVector.checked_cases checking state with hok | ⟨cause', hcause, hnorm⟩
  · rw [hok] at hchecked
    cases hchecked
  · rw [hcause] at hchecked
    cases hchecked
    exact hnorm

namespace Engine

open Execution

/-! ## Where an engine stands -/

/-- The position of a live qudit, as an index. -/
def seat (gone : List Int) (q : Int) : Int := Layout.place gone q.toNat

/-- An engine of a circuit from whose register the qudits of a list were measured, with any state of
the others and any values of the dits. -/
structure Stands {S R : Type} (c : Circuit S) (gone : List Int) (engine : Engine S R) : Prop where
  /-- The engine is bound to the circuit. -/
  fits : Fits c engine
  /-- The qudits of the list are different ones. -/
  gone_nodup : gone.Nodup
  /-- They are qudits of the circuit. -/
  gone_inRange : ∀ q ∈ gone, InRange c.qudits q
  /-- They have left the register. -/
  layout_eq : engine.layout = .without c.qudits gone
  /-- The state is one of the live qudits. -/
  size_state : engine.state.size = c.dim ^ Layout.place gone c.qudits
  /-- There is a value for each dit. -/
  length_dits : engine.dits.length = c.dits

/-- An engine stands after steps of its circuit that measured the qudits of a list. -/
structure Tracks {S R : Type} (c : Circuit S) (gone : List Int) (engine : Engine S R) : Prop
    extends Stands c gone engine where
  /-- The values of the dits are small enough for exponents. -/
  dits_lt : ∀ v ∈ engine.dits, v < 2 ^ 63

section Seats

variable {n : Nat} {gone : List Int}

theorem toNat_seat (gone : List Int) (q : Int) : (seat gone q).toNat = Layout.place gone q.toNat :=
  Int.toNat_natCast _

/-- The position of a live qudit is one of the state. -/
theorem seat_inRange {q : Int} (hq : InRange n q) (hlive : q ∉ gone) :
    InRange (Layout.place gone n) (seat gone q) := by
  have hnat : (q.toNat : Int) ∉ gone := hq.toNat_not_mem hlive
  exact ⟨Int.natCast_nonneg _, Int.ofNat_lt.mpr (Layout.place_lt hnat hq.toNat_lt)⟩

/-- Different live qudits are at different positions. -/
theorem seat_injective {p q : Int} (hp : InRange n p) (hq : InRange n q) (hplive : p ∉ gone)
    (hqlive : q ∉ gone) (h : seat gone p = seat gone q) : p = q := by
  have hplace : Layout.place gone p.toNat = Layout.place gone q.toNat := Int.ofNat_inj.mp h
  rw [← hp.toNat_eq] at hplive
  rw [← hq.toNat_eq] at hqlive
  rw [← hp.toNat_eq, ← hq.toNat_eq, Layout.place_injective hplive hqlive hplace]

/-- Different live qudits are at a list of different positions. -/
theorem targetList_seat {targets : List Int} (h : TargetList n targets)
    (hlive : ∀ q ∈ targets, q ∉ gone) :
    TargetList (Layout.place gone n) (targets.map (seat gone)) :=
  h.rename (fun q hq => seat_inRange (h.inRange q hq) (hlive q hq)) fun p hp q hq =>
    seat_injective (h.inRange p hp) (h.inRange q hq) (hlive p hp) (hlive q hq)

end Seats

section Stages

variable {S R : Type} {c : Circuit S} {gone : List Int}

/-- An engine stands where it did with other noise that fits. -/
theorem Tracks.withPreStep {engine : Engine S R} {preStep : PreStep S R} (h : Tracks c gone engine)
    (hpre : preStep.Fits c.dim) : Tracks c gone { engine with preStep := preStep } where
  fits := ⟨h.fits.serial_eq, h.fits.size_layout, hpre⟩
  gone_nodup := h.gone_nodup
  gone_inRange := h.gone_inRange
  layout_eq := h.layout_eq
  size_state := h.size_state
  length_dits := h.length_dits
  dits_lt := h.dits_lt

/-- An engine stands where it did with another state of its register. -/
theorem Stands.withState {engine : Engine S R} {state : StateVector R} (h : Stands c gone engine)
    (hsize : state.size = c.dim ^ Layout.place gone c.qudits) :
    Stands c gone { engine with state := state } where
  fits := ⟨h.fits.serial_eq, h.fits.size_layout, h.fits.preStep⟩
  gone_nodup := h.gone_nodup
  gone_inRange := h.gone_inRange
  layout_eq := h.layout_eq
  size_state := hsize
  length_dits := h.length_dits

/-- An engine stands where it did with another state of its register. -/
theorem Tracks.withState {engine : Engine S R} {state : StateVector R} (h : Tracks c gone engine)
    (hsize : state.size = c.dim ^ Layout.place gone c.qudits) :
    Tracks c gone { engine with state := state } where
  toStands := h.toStands.withState hsize
  dits_lt := h.dits_lt

/-- A statement about engines that stand without the qudits of a list, which does not depend on the
noise and on the state of the others. -/
structure Robust (c : Circuit S) (gone : List Int) (I : Engine S R → Prop) : Prop where
  /-- It is one about engines that stand. -/
  stands : ∀ engine, I engine → Stands c gone engine
  /-- It holds with other noise that fits. -/
  withPreStep : ∀ engine (preStep : PreStep S R), I engine → preStep.Fits c.dim →
    I { engine with preStep := preStep }
  /-- It holds with another state of the register. -/
  withState : ∀ engine (state : StateVector R), I engine →
    state.size = c.dim ^ Layout.place gone c.qudits → I { engine with state := state }

/-! ## Positions -/

theorem Stands.positions_eq {engine : Engine S R} (h : Stands c gone engine) (ip : Int)
    {indices : List Int} (hrange : ∀ q ∈ indices, InRange c.qudits q)
    (hlive : ∀ q ∈ indices, q ∉ gone) :
    engine.positions indices ip = .ok (indices.map (seat gone)) := by
  unfold positions
  rw [h.layout_eq, Layout.resolve_without hrange hlive]
  dsimp only
  rw [List.map_map]
  rfl

/-- No recorded gate is of a reserved kind. -/
theorem not_reserved {step : GateStep} (h : step.Recorded c) : step.kind.isReserved = false := by
  have htakes := h.takes
  cases hkind : step.kind with
  | fourier | inverseFourier =>
    rw [hkind] at htakes
    exact htakes.elim
  | _ => rfl

/-- The qudits of a recorded gate are found at their positions. -/
theorem resolve_gate {engine : Engine S R} (h : Stands c gone engine) {step : GateStep} {ip : Nat}
    (hstep : step.Recorded c) (hlive : ∀ q ∈ (Step.gate step).qudits, q ∉ gone) :
    engine.resolve ((Step.gate step).view c.serial ip) =
      .ok (.gate step
        (if step.kind.isQuantumControlled then step.controls.map (seat gone) else step.controls)
        (step.targets.map (seat gone))) := by
  have htargets := h.positions_eq ip hstep.targets.inRange fun q hq =>
    hlive q (Step.mem_qudits_of_mem_targets (.gate step) hq)
  unfold resolve Step.view
  dsimp only [Step.kind_gate]
  rw [not_reserved hstep, htargets]
  cases hquantum : step.kind.isQuantumControlled with
  | false => rfl
  | true =>
    have hcontrol : step.kind.control? = some .quantum := by
      simpa [GateKind.isQuantumControlled] using hquantum
    have hfit := hstep.controls
    unfold Circuit.ControlsFit at hfit
    rw [hcontrol] at hfit
    have hcontrols := h.positions_eq ip hfit.2.1 fun q hq =>
      hlive q (by rw [Step.qudits_of_quantum hcontrol]; exact List.mem_append_left _ hq)
    rw [hcontrols]
    rfl

/-- The qudits of a recorded measurement are found at their positions. -/
theorem resolve_measure {engine : Engine S R} (h : Stands c gone engine) {step : MeasureStep}
    {ip : Nat} (hstep : step.Recorded c) (hlive : ∀ q ∈ step.targets, q ∉ gone) :
    engine.resolve ((Step.measure step).view c.serial ip) =
      .ok (.measurement step (step.targets.map (seat gone))) := by
  unfold resolve Step.view
  dsimp only [Step.kind_measure]
  rw [h.positions_eq ip hstep.targets.inRange hlive]
  rfl

/-! ## Before a step -/

/-- The record of an engine with noise is that of the noise. -/
theorem noiseBranches?_of_noise {engine : Engine S R} {model : NoiseModel S}
    {branches : List (List Nat)} (hpre : engine.preStep = .noise model branches) :
    engine.noiseBranches? = some branches := by
  unfold noiseBranches?
  rw [hpre]

section Noise

variable [Scalar S] [Scalar R] [Rounding S R] [Rounding R S]

/-- Noise on live qudits leaves a state of the same register, and what does not depend on noise, also
if it fails. -/
theorem ends_noiseOn {I : Engine S R → Prop} {run : Run S R} {place : Nat} {positions : List Nat}
    {state : StateVector R} (hd : 2 ≤ c.dim) (hI : Robust c gone I) (h : I run.engine)
    (hsize : state.size = c.dim ^ Layout.place gone c.qudits)
    (hpositions : ∀ p ∈ positions, p < Layout.place gone c.qudits) :
    Ends (noiseOn place positions state) run
      (fun state' run' => I run'.engine ∧ state'.size = c.dim ^ Layout.place gone c.qudits)
      fun fault run' => fault.IsNumeric ∧ I run'.engine := by
  induction positions generalizing run state with
  | nil => exact ⟨h, hsize⟩
  | cons position rest ih =>
    unfold noiseOn
    rw [ends_bind, ends_current]
    have hpre := (hI.stands _ h).fits.preStep
    cases hstep : run.engine.preStep with
    | nothing => exact ⟨h, hsize⟩
    | hook act calls => exact ⟨h, hsize⟩
    | noise model branches =>
      rw [hstep] at hpre
      dsimp only
      rw [ends_bind, ends_drawing]
      rcases NoiseModel.apply_cases hd hpre hsize (hpositions position List.mem_cons_self)
        run.draws with ⟨model', state', hrun, hfits, hsize'⟩ | ⟨fault, hrun, hfault⟩
      · rw [hrun]
        dsimp only
        rw [ends_bind, ends_update, ends_bind, ends_tellAll]
        -- the model that goes on is for the same channel, so it fits the next position
        refine ih ?_ hsize' fun p hp => hpositions p (List.mem_cons_of_mem _ hp)
        exact hI.withPreStep _ _ h hfits
      · rw [hrun]
        exact ⟨hfault, h⟩

theorem mem_extendedTo {ip : Nat} (branches : List (List Nat)) :
    placeOf? ip (extendedTo ip branches).length = some ip := by
  refine placeOf?_of_inRange ⟨Int.natCast_nonneg ip, ?_⟩
  simp only [extendedTo, List.length_append, List.length_replicate]
  omega

/-- What is done before a step leaves what does not depend on noise, also if it fails. -/
theorem ends_prepare {I : Engine S R → Prop} {checking : Bool} {view : StepView} {ip : Nat}
    {run : Run S R} (hip : view.ip = ip) (hd : 2 ≤ c.dim) (hI : Robust c gone I)
    (h : I run.engine) :
    Ends (prepare checking view) run (fun _ run' => I run'.engine)
      fun fault run' => fault.IsNumeric ∧ I run'.engine := by
  have hstands := hI.stands _ h
  unfold prepare
  rw [ends_bind, ends_current]
  have hpre := hstands.fits.preStep
  cases hstep : run.engine.preStep with
  | nothing => exact h
  | hook act calls =>
    rw [hstep] at hpre
    exact hpre.elim
  | noise model branches =>
    rw [hstep] at hpre
    dsimp only
    unfold injectNoise
    rw [hip, ends_bind, ends_update, mem_extendedTo]
    dsimp only
    rw [ends_bind, ends_current, ends_bind]
    have hpositions : ∀ p ∈ run.engine.layout.livePositions, p < Layout.place gone c.qudits := by
      rw [hstands.layout_eq]
      exact fun p hp => Layout.lt_of_mem_livePositions hp
    have hextended : I { run.engine with preStep := .noise model (extendedTo ip branches) } :=
      hI.withPreStep _ _ h hpre
    -- The positions are read before any noise acts. They stay those of the state, since noise keeps
    -- its size.
    refine (ends_noiseOn hd hI (by exact hextended) hstands.size_state hpositions).mono
      (fun state' run' hrun' => ?_) fun _ _ hfault => hfault
    obtain ⟨hrun', hsize'⟩ := hrun'
    rw [ends_bind, ends_current, ends_bind, ends_tell, ends_update]
    exact hI.withState _ _ hrun' hsize'

/-- Nothing is done before the steps of an engine without noise. -/
theorem ends_prepare_nothing {checking : Bool} {view : StepView} {run : Run S R}
    {Q : Unit → Run S R → Prop} {E : EngineFault → Run S R → Prop}
    (h : run.engine.preStep = .nothing) : Ends (prepare checking view) run Q E ↔ Q () run := by
  unfold prepare
  rw [ends_bind, ends_current, h]
  exact Iff.rfl

end Noise

/-! ## Gates -/

section Gates

variable [Scalar S]

/-- The acts of a recorded gate on live qudits fit the state, at their positions. -/
theorem fit_of_acts_seat {dits : List Nat} {step : GateStep} (hstep : step.Recorded c)
    (hlive : ∀ q ∈ (Step.gate step).qudits, q ∉ gone) {list : List (Act S)}
    (hlist : acts c dits step step.controls step.targets = .ok list) :
    ∀ act ∈ list, (act.rename (seat gone)).Fits c.dim (Layout.place gone c.qudits) := by
  intro act hact
  obtain ⟨hfit, hlive⟩ := live_of_acts hstep hlive hlist act hact
  have hrange : ∀ q ∈ act.qudits, InRange c.qudits q := hfit.inRange
  refine hfit.rename (fun q hq => seat_inRange (hrange q hq) (hlive q hq)) ?_
  exact fun p hp q hq => seat_injective (hrange p hp) (hrange q hq) (hlive p hp) (hlive q hq)

/-- A recorded gate on live qudits has acts, and they fit the state of an engine at their
positions. -/
theorem Tracks.acts_fit {engine : Engine S R} (h : Tracks c gone engine) {step : GateStep}
    (hstep : step.Recorded c) (hlive : ∀ q ∈ (Step.gate step).qudits, q ∉ gone) :
    ∃ list, acts c engine.dits step step.controls step.targets = .ok list ∧
      ∀ act ∈ list, (act.rename (seat gone)).Fits c.dim (Layout.place gone c.qudits) := by
  obtain ⟨list, hlist⟩ := acts_eq_ok hstep h.length_dits h.dits_lt
  exact ⟨list, hlist, fit_of_acts_seat hstep hlive hlist⟩

variable [Scalar R] [Rounding S R]

/-- Acts that fit the register of the state are done one after the other, unless the state after
some of them is refused. -/
theorem ends_acts {checking : Bool} {m : Nat} {list : List (Act S)} {run : Run S R}
    (hd : 2 ≤ c.dim) (hsize : run.engine.state.size = c.dim ^ m)
    (hfit : ∀ act ∈ list, act.Fits c.dim m) :
    Ends ((list.map (Act.kernel checking c)).forM passThrough) run
      (fun _ run' => run' = { run with engine := { run.engine with
        state := list.foldl (Act.total c.dim) run.engine.state } })
      fun fault _ => ∃ k, fault.Refuses checking
        ((list.take k).foldl (Act.total c.dim) run.engine.state) := by
  induction list generalizing run with
  | nil => rfl
  | cons act list ih =>
    show Ends (passThrough (act.kernel checking c) >>= fun _ =>
      (list.map (Act.kernel checking c)).forM passThrough) run _ _
    rw [ends_bind, ends_passThrough, Act.kernel_eq hd hsize (hfit act List.mem_cons_self)]
    rcases StateVector.checked_cases checking (act.total c.dim run.engine.state) with
      hok | ⟨fault, hfault, -⟩
    · rw [hok]
      refine (ih ?_ fun act' hact' => hfit act' (List.mem_cons_of_mem _ hact')).mono
        (fun _ run' hrun' => hrun') fun _ _ hfault => ?_
      · exact (Act.size_total _ _ _).trans hsize
      · obtain ⟨k, hrefused⟩ := hfault
        exact ⟨k + 1, hrefused⟩
    · rw [hfault]
      exact ⟨1, fault, rfl, hfault⟩

/-- A recorded gate on live qudits does its acts at their positions, unless the state after some of
them is refused. -/
theorem ends_performGate {checking : Bool} {run : Run S R} {step : GateStep} {ip : Int}
    {list : List (Act S)} (hd : 2 ≤ c.dim) (h : Stands c gone run.engine)
    (hlist : acts c run.engine.dits step step.controls step.targets = .ok list)
    (hfit : ∀ act ∈ list, (act.rename (seat gone)).Fits c.dim (Layout.place gone c.qudits)) :
    Ends (performGate checking c ip step
        (if step.kind.isQuantumControlled then step.controls.map (seat gone) else step.controls)
        (step.targets.map (seat gone))) run
      (fun _ run' => run'.draws = run.draws ∧ run'.engine = { run.engine with
        state := (list.map (Act.rename (seat gone))).foldl (Act.total c.dim) run.engine.state })
      fun fault _ => ∃ k, fault.Refuses checking
        (((list.map (Act.rename (seat gone))).take k).foldl (Act.total c.dim)
          run.engine.state) := by
  -- the maps at the positions are those of the acts with other names
  have hmaps : gateMaps checking c run.engine.dits step
      (if step.kind.isQuantumControlled then step.controls.map (seat gone) else step.controls)
      (step.targets.map (seat gone)) =
      (.ok ((list.map (Act.rename (seat gone))).map (Act.kernel checking c)) :
        Except EngineFault (List (StateMap R))) := by
    rw [gateMaps_eq, acts_rename, hlist]
    rfl
  unfold performGate
  rw [ends_bind, ends_current, ends_bind, hmaps, ends_lift]
  dsimp only
  rw [ends_bind, ends_tellAll]
  have hfit' : ∀ act ∈ list.map (Act.rename (seat gone)),
      act.Fits c.dim (Layout.place gone c.qudits) := by
    intro act hact
    obtain ⟨known, hknown, rfl⟩ := List.mem_map.mp hact
    exact hfit known hknown
  refine (ends_acts hd (by exact h.size_state) hfit').mono (fun _ run' hrun' => ?_)
    fun _ _ hfault => hfault
  rw [hrun']
  exact ⟨rfl, rfl⟩

end Gates

/-! ## Measurements -/

section Measurements

/-- The engine after a measurement was taken over. -/
def collapsed (engine : Engine S R) (c : Circuit S) (gone : List Int) (step : MeasureStep)
    (state : StateVector R) (outcome : Nat) (prob : S) : Engine S R :=
  { engine with
    state := state
    dits := engine.dits.set step.dit.toNat outcome
    probs := engine.probs.set step.dit.toNat prob
    layout := .without c.qudits (gone ++ step.targets) }

/-- Taking over a recorded measurement of live qudits meets no fault. -/
theorem ends_record (run : Run S R) (h : Stands c gone run.engine) {step : MeasureStep}
    (hstep : step.Recorded c) (hlive : ∀ q ∈ step.targets, q ∉ gone) (ip : Int)
    (state : StateVector R) (outcome : Nat) (prob : S) :
    Ends (record step ip state outcome prob) run
      (fun _ run' => run' =
        { run with engine := run.engine.collapsed c gone step state outcome prob })
      fun _ _ => False := by
  have hplace : placeOf? step.dit run.engine.dits.length = some step.dit.toNat := by
    rw [h.length_dits]
    exact placeOf?_of_inRange hstep.dit
  have hretire := Layout.retireAll_without (some (.int ip)) hstep.targets.inRange hlive
    hstep.targets.nodup
  unfold record writeDit retire
  rw [ends_bind, ends_update, ends_bind, ends_bind, ends_current]
  dsimp only
  rw [hplace, ends_update, ends_bind, ends_current]
  dsimp only
  -- the dit is there and the targets are live, so neither write is refused
  rw [h.layout_eq, hretire, ends_bind, ends_update]
  rfl

variable [Scalar S] [Scalar R] [Rounding S R] [Rounding R S]

/-- A measurement leaves what taking over its outcome leaves, or what there was before it. -/
theorem ends_performMeasurement_of_record {checking : Bool} {ip : Int} {step : MeasureStep}
    {targets : List Int} {run : Run S R} {Q E : Engine S R → Prop} (hQ : Q run.engine)
    (hE : E run.engine)
    (hrecord : ∀ state outcome prob draws, Ends (record step ip state outcome prob)
      { run with draws := draws } (fun _ run' => Q run'.engine) fun _ run' => E run'.engine) :
    Ends (performMeasurement checking c ip step targets) run (fun _ run' => Q run'.engine)
      fun _ run' => E run'.engine := by
  have hbasis : Ends (inBasis checking c ip step targets run.engine) run
      (fun _ run' => Q run'.engine) fun _ run' => E run'.engine := by
    unfold inBasis
    cases step.keys.head? with
    | none => exact hE
    | some key =>
      dsimp only
      rw [ends_bind, ends_lift]
      cases operandOf c key with
      | error fault => exact hE
      | ok basis =>
        dsimp only
        rw [ends_bind, ends_drawing]
        split
        · exact ends_bind.mpr (hrecord _ _ _ _)
        · exact hE
  cases hkind : step.kind with
  | none =>
    unfold performMeasurement
    rw [hkind]
    exact hQ
  | standard =>
    unfold performMeasurement
    rw [ends_bind, ends_current, hkind]
    dsimp only
    rw [ends_bind, ends_drawing]
    split
    · exact ends_bind.mpr (hrecord _ _ _ _)
    · exact hE
  | basis =>
    rw [performMeasurement_eq_inBasis (.inl hkind), ends_bind, ends_current]
    exact hbasis
  | jointBasis =>
    rw [performMeasurement_eq_inBasis (.inr hkind), ends_bind, ends_current]
    exact hbasis

/-- A recorded measurement of one live qudit samples its digit and keeps what remains, unless the
weights of the digits or what remains are refused. -/
theorem ends_measureStandard (checking : Bool) (ip : Int) {run : Run S R} {step : MeasureStep}
    {q : Int} (hd : 2 ≤ c.dim) (h : Stands c gone run.engine) (hstep : step.Recorded c)
    (hkind : step.kind = .standard) (htargets : step.targets = [q]) (hlive : q ∉ gone) :
    let p := Layout.place gone q.toNat
    Ends (performMeasurement checking c ip step (step.targets.map (seat gone))) run
      (fun _ run' => ∃ v,
        sampleIndex (StateVector.digitWeights c.dim p run.engine.state) run.draws.current = .ok v ∧
          run'.draws = run.draws.advance ∧
          run'.engine = run.engine.collapsed c gone step
            (StateVector.remaining S c.dim p v run.engine.state) v
            (1 * StateVector.chanceWeight (StateVector.slice c.dim p v run.engine.state)))
      fun fault run' => (∃ v,
        sampleIndex (StateVector.digitWeights c.dim p run.engine.state) run.draws.current = .ok v ∧
          fault.Refuses checking (StateVector.remaining S c.dim p v run.engine.state)) ∨
        ∃ cause, fault = .state cause ∧ run' = run ∧
          sampleIndex (StateVector.digitWeights (S := S) c.dim p run.engine.state)
            run.draws.current = .error cause := by
  intro p
  have hq : InRange c.qudits q := hstep.targets.inRange q (by simp [htargets])
  have hrun := StateVector.run_measureSequential (S := S) checking hd h.size_state
    (seat_inRange hq hlive) run.draws
  rw [toNat_seat] at hrun
  unfold performMeasurement
  rw [ends_bind, ends_current, hkind, htargets]
  dsimp only
  rw [ends_bind, ends_drawing]
  rw [show ([q].map (seat gone)).map Argument.int = [.int (seat gone q)] from rfl, hrun]
  cases hsample : sampleIndex (StateVector.digitWeights c.dim p run.engine.state)
    run.draws.current with
  | error cause => exact .inr ⟨cause, rfl, rfl, rfl⟩
  | ok v =>
    dsimp only
    rcases StateVector.checked_cases checking
      (StateVector.remaining S c.dim p v run.engine.state) with hok | ⟨cause, hcause, -⟩
    -- the digit is recorded only after the norm of what remains was accepted
    · rw [hok]
      dsimp only
      rw [ends_bind]
      have hlive' : ∀ q ∈ step.targets, q ∉ gone := by simpa [htargets] using hlive
      refine (ends_record { run with draws := run.draws.advance } h hstep hlive' ip _ _ _).mono
        (fun _ run' hrun' => ?_) fun _ _ hfalse => hfalse.elim
      rw [ends_tell, hrun']
      exact ⟨v, rfl, rfl, rfl⟩
    · rw [hcause]
      exact .inl ⟨v, rfl, cause, rfl, hcause⟩

/-- A recorded measurement in a basis of its own samples a column and keeps what remains, unless
the weights of the columns or what remains are refused. -/
theorem ends_measureInBasis (checking : Bool) (ip : Int) {run : Run S R} {step : MeasureStep}
    {key : Int} {basis : Operator S} (hd : 2 ≤ c.dim) (h : Stands c gone run.engine)
    (hstep : step.Recorded c) (hkind : step.kind = .basis ∨ step.kind = .jointBasis)
    (hkeys : step.keys = [key]) (hkey : c.operands.get? key = some basis)
    (hshape : basis.shape = [c.dim ^ step.targets.length, c.dim ^ step.targets.length])
    (hlive : ∀ q ∈ step.targets, q ∉ gone) :
    let n := Layout.place gone c.qudits
    let places := step.targets.map fun q => Layout.place gone q.toNat
    let weights : List S :=
      StateVector.columnWeights c.dim n (Rounding.round basis) places run.engine.state
    Ends (performMeasurement checking c ip step (step.targets.map (seat gone))) run
      (fun _ run' => ∃ j, sampleIndex weights run.draws.current = .ok j ∧
        run'.draws = run.draws.advance ∧
          run'.engine = run.engine.collapsed c gone step
            (StateVector.remainingOfColumn S c.dim n (Rounding.round basis) places
              run.engine.state j) j
            (StateVector.chanceWeight (StateVector.branchOfColumn c.dim n (Rounding.round basis)
              places run.engine.state j)))
      fun fault run' => (∃ j, sampleIndex weights run.draws.current = .ok j ∧
        fault.Refuses checking (StateVector.remainingOfColumn S c.dim n (Rounding.round basis)
          places run.engine.state j)) ∨ ∃ cause, fault = .state cause ∧ run' = run ∧
            sampleIndex weights run.draws.current = .error cause := by
  intro n places weights
  have htargets := targetList_seat hstep.targets hlive
  have hplaces : (step.targets.map (seat gone)).map Int.toNat = places := by
    rw [List.map_map]
    exact List.map_congr_left fun q _ => toNat_seat gone q
  have hbasis : (Rounding.round basis : Operator R).shape =
      [c.dim ^ (step.targets.map (seat gone)).length,
        c.dim ^ (step.targets.map (seat gone)).length] := by
    rw [List.length_map]
    exact hshape
  have hrun := StateVector.run_measure (S := S) checking hd h.size_state htargets hbasis
    run.draws
  rw [hplaces] at hrun
  rw [performMeasurement_eq_inBasis hkind, ends_bind, ends_current]
  unfold inBasis
  rw [hkeys]
  dsimp only [List.head?_cons]
  rw [operandOf_eq_ok hkey, ends_bind, ends_lift]
  dsimp only
  rw [ends_bind, ends_drawing, hrun]
  cases hsample : sampleIndex weights run.draws.current with
  | error cause => exact .inr ⟨cause, rfl, rfl, rfl⟩
  | ok j =>
    -- the sampled column is one of the basis, so its weight and state are in the lists
    have hj := StateVector.lt_of_columnWeights hsample
    dsimp only
    rcases StateVector.checked_cases checking (StateVector.remainingOfColumn S c.dim n
      (Rounding.round basis) places run.engine.state j) with hok | ⟨cause, hcause, -⟩
    · rw [hok]
      dsimp only
      rw [ends_bind, StateVector.columnWeights, StateVector.getD_map_range _ hj,
        StateVector.getD_map_range _ hj]
      refine (ends_record { run with draws := run.draws.advance } h hstep hlive ip _ _ _).mono
        (fun _ run' hrun' => ?_) fun _ _ hfalse => hfalse.elim
      rw [ends_tell, hrun']
      exact ⟨j, rfl, rfl, rfl⟩
    · rw [hcause]
      exact .inl ⟨j, rfl, cause, rfl, hcause⟩

end Measurements

/-! ## Whole steps -/

section Steps

variable [Scalar R]

/-- Checking the norm leaves the engine. -/
theorem leaves_checkNorm (run : Run S R) :
    Leaves checkNorm run fun run' => run'.engine = run.engine := by
  unfold Leaves checkNorm
  rw [ends_bind, ends_current]
  split
  · split
    · rfl
    · rfl
  · rfl

/-- Checking the norm changes nothing. It refuses norms only, and only if the settings say so. -/
theorem ends_checkNorm (run : Run S R) :
    Ends checkNorm run (fun _ run' => run' = run)
      fun fault _ => run.engine.settings.checkNormalization = true ∧ fault.IsNorm := by
  unfold checkNorm
  rw [ends_bind, ends_current]
  split
  · next hon =>
    split
    · rfl
    · next fault hfault => exact ⟨hon, isNorm_of_assertNormalized hfault⟩
  · rfl

variable [Scalar S] [Rounding S R] [Rounding R S]

/-- A step of the circuit of an engine goes through its stages. What it tells does not matter. -/
theorem ends_execute {checking : Bool} {view : StepView} {run : Run S R} {task : Task}
    {Q : Unit → Run S R → Prop} {E : EngineFault → Run S R → Prop}
    (hserial : view.origin = run.engine.serial) (htask : run.engine.resolve view = .ok task)
    (h : Ends (prepare checking view) run (fun _ run' => ∀ run'' : Run S R,
      run''.engine = run'.engine → run''.draws = run'.draws →
        Ends (match task with
            | .gate step controls targets => performGate checking c view.ip step controls targets
            | .measurement step targets => performMeasurement checking c view.ip step targets)
          run'' (fun _ run''' => Ends checkNorm run''' Q E) E) E) :
    Ends (execute checking c view) run Q E := by
  unfold execute
  rw [ends_bind, ends_current]
  dsimp only
  rw [if_neg (by rw [hserial]; exact not_not_intro rfl), htask, ends_bind, ends_lift]
  dsimp only
  rw [ends_bind]
  refine h.mono (fun _ run' hrun' => ?_) fun _ _ hfault => hfault
  rw [ends_bind, ends_tell]
  have htold := hrun'
    { run' with events := run'.events ++ [⟨Event.engineLogger, stepText view⟩] } rfl rfl
  cases task with
  | gate step controls targets => rwa [ends_bind]
  | measurement step targets => rwa [ends_bind]

end Steps

end Stages

end Engine

end QuditSim
