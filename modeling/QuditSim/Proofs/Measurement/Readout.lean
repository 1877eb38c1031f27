import QuditSim.Proofs.Engine.Alike
import QuditSim.Proofs.Measurement.Joint

/-!
# Measurements in a basis and their readout

A joint measurement in a basis is the adjoint of the basis and a readout of the digits. In the identity
as basis nothing is left of the first part, so a step that measures one qudit in this basis does what a
step does that measures its digit, whatever else the two engines do before a step.

- `Engine.ReadsAlike` relates the two steps.
- `Engine.ReadsAlike.endAlike_performMeasurement` compares what they do when their qudit was found.
- `Engine.joint_measurement_readout` is the joint measurement, and what follows for the two steps.
-/

open Finset

namespace QuditSim

namespace Engine

open Execution StateVector

/-- Two steps read one qudit into one dit: the first one in a basis of its own, which is the identity,
and the other one in the basis of its digits. -/
structure ReadsAlike (c : Circuit ℝ) (step step' : MeasureStep) : Prop where
  /-- The first step has a basis of its own. -/
  inBasis : step.kind = .basis ∨ step.kind = .jointBasis
  /-- This is the identity. -/
  identity : ∃ key, step.keys = [key] ∧ c.operands.get? key = some (Tensor.identity c.dim)
  /-- The other step has none. -/
  standard : step'.kind = .standard
  /-- One qudit is measured. -/
  length_targets : step.targets.length = 1
  /-- The other step measures it as well. -/
  targets_eq : step'.targets = step.targets
  /-- The outcomes are written into the same dit. -/
  dit_eq : step'.dit = step.dit

section Steps

variable {c c' : Circuit ℝ} {step step' : MeasureStep} {run run' : Run ℝ ℝ}

/-- When their qudit was found, the two steps do the same. -/
theorem ReadsAlike.endAlike_performMeasurement (hreads : ReadsAlike c step step') (hd : 2 ≤ c.dim)
    (hdim : c'.dim = c.dim) (checking : Bool) (ip ip' : Int) {positions : List Int}
    (hlength : positions.length = step.targets.length) (h : Matches run run') :
    EndMatching (performMeasurement checking c ip step positions)
      (performMeasurement checking c' ip' step' positions) run run' := by
  obtain ⟨key, hkeys, hkey⟩ := hreads.identity
  rw [hreads.length_targets] at hlength
  obtain ⟨p, rfl⟩ := List.length_eq_one_iff.mp hlength
  have hmeasure := measure_identity hd checking run.engine.state p
  rw [performMeasurement_eq_inBasis hreads.inBasis]
  unfold performMeasurement Engine.inBasis EndMatching
  rw [hreads.standard, hkeys]
  dsimp only [List.head?_cons]
  rw [operandOf_eq_ok hkey]
  refine EndAlike.bind (Q := fun engine after engine' after' =>
    engine.state = run.engine.state ∧ engine'.state = run.engine.state ∧ Matches after after')
    ⟨rfl, h.agrees.state_eq.symm, h⟩ ?_
  rintro engine after engine' after' ⟨hstate, hstate', hmatches⟩
  rw [hstate, hstate', hdim, lift_ok_bind, Tensor.round_real]
  refine (hmatches.endAlike_drawing JointCollapse.asSequential hmeasure).bind ?_
  rintro found after _ after' ⟨rfl, hmatches⟩
  refine (hmatches.endAlike_record hreads.targets_eq hreads.dit_eq ip ip' _ _ _).bind ?_
  intro _ after _ after' hmatches
  exact hmatches.withEvents _ _

/-- The two steps end alike, wherever they are in logs. -/
theorem ReadsAlike.endAlike_execute (hreads : ReadsAlike c step step') (hd : 2 ≤ c.dim)
    (hdim : c'.dim = c.dim) {checking : Bool} {ip ip' : ℕ} (hserial : run.engine.serial = c.serial)
    (hserial' : run'.engine.serial = c'.serial)
    (hbefore : SameBefore checking ((Step.measure step).view c.serial ip)
      ((Step.measure step').view c'.serial ip') run.engine.preStep run'.engine.preStep)
    (h : Matches run run') :
    EndMatching (execute checking c ((Step.measure step).view c.serial ip))
      (execute checking c' ((Step.measure step').view c'.serial ip')) run run' :=
  h.endAlike_execute hserial hserial' hreads.targets_eq hbefore fun _ _ _ hlength hmatches =>
    hreads.endAlike_performMeasurement hd hdim checking ip ip' hlength hmatches

end Steps

/-- A joint measurement reads off amplitudes on which the adjoint of its basis acted: it returns for all
that have a weight and for no others, and the weights and states that it returns are those of the
amplitudes whose target digits spell a number, the first one most significant. For a unitary basis the
weights have the weight of the state as their sum. A step that measures one qudit in the identity as
basis ends as a step does that measures its digit, in circuits of one dimension and on engines that hold
the same, and leaves the same state, dits, probabilities and layout. -/
theorem joint_measurement_readout {d n : ℕ} {basis : Operator ℝ} {targets : List ℕ}
    {state : StateVector ℝ} (hd : 2 ≤ d) (hsize : state.size = d ^ n) (htargets : targets ≠ [])
    (hnodup : targets.Nodup) (hrange : ∀ q ∈ targets, q < n)
    (hbasis : basis.shape = [d ^ targets.length, d ^ targets.length]) :
    (∃ phi, state.apply false basis.adjoint (targets.map .nat) (.nat d) = .ok phi ∧
      ∀ (checking : Bool) (draws : Draws ℝ),
        let ended := (measure (S := ℝ) checking state basis (targets.map .nat) (.nat d)).run.run draws
        ((∃ found draws', ended = (.ok found, draws')) ↔
            ∑ x ∈ range (d ^ n), Complex.normSq (phi.amplitude x).toComplex ≠ 0) ∧
          ∀ found draws', ended = (.ok found, draws') →
            found.weights.length = d ^ targets.length ∧ found.states.length = d ^ targets.length ∧
            (∀ i < d ^ targets.length, ∃ weight rest, found.weights[i]? = some weight ∧
              found.states[i]? = some rest ∧ ReadAs d n phi targets i weight rest) ∧
            (basis.Unitary → found.weights.sum =
              ∑ x ∈ range (d ^ n), Complex.normSq (state.amplitude x).toComplex)) ∧
    ∀ (c c' : Circuit ℝ) (step step' : MeasureStep) (ip ip' : ℕ) (run run' : Run ℝ ℝ)
        (checking : Bool), 2 ≤ c.dim → c'.dim = c.dim → ReadsAlike c step step' →
      run.engine.serial = c.serial → run'.engine.serial = c'.serial →
      SameBefore checking ((Step.measure step).view c.serial ip)
        ((Step.measure step').view c'.serial ip') run.engine.preStep run'.engine.preStep →
      Matches run run' →
        EndMatching (execute checking c ((Step.measure step).view c.serial ip))
          (execute checking c' ((Step.measure step').view c'.serial ip')) run run' := by
  refine ⟨⟨applyOn d basis.adjoint targets state,
    apply_targets hd hsize htargets hnodup hrange (Tensor.shape_adjoint hbasis), ?_⟩, ?_⟩
  · intro checking draws ended
    refine ⟨exists_run_measure_iff hd hsize htargets hnodup hrange hbasis checking draws,
      fun found draws' hended => ?_⟩
    obtain ⟨hweights, hstates, hread⟩ :=
      readAs_of_run_measure hd hsize htargets hnodup hrange hbasis hended
    have hcolumns := Tensor.columns_of_shape hbasis
    refine ⟨by rw [hweights, columnWeights, List.length_map, List.length_range, hcolumns], hstates,
      hread, fun hunitary => ?_⟩
    rw [hweights, sum_columnWeights_targets hd hsize htargets hnodup hrange hbasis hunitary,
      chanceWeight_real, hsize]
  · intro c c' step step' ip ip' run run' checking hdc hdim hreads hserial hserial' hbefore h
    exact hreads.endAlike_execute hdc hdim hserial hserial' hbefore h

/-- A qubit is measured in the basis of the columns of the bit flip, which has a weight. Then engines of
two circuits measure a qubit, one of them in the identity as basis and the other one its digit. -/
theorem joint_measurement_readout_qubit :
    let basis : Operator ℝ := Gate.pauliX
    let state : StateVector ℝ := basisState 2 0
    let c : Circuit ℝ := (Circuit.empty 0 1 1 2 "" (fun _ => "") fun _ => 0).attemptAll
      [.measureV (.operator (Tensor.identity 2)) (.one 0 "int") (.int 0) ""]
    let c' : Circuit ℝ := (Circuit.empty 1 1 1 2 "" (fun _ => "") fun _ => 0).attemptAll
      [.measureZ (.int 0) (.int 0) ""]
    let step : MeasureStep := ⟨.basis, [0], [0], 0, ""⟩
    let step' : MeasureStep := ⟨.standard, [], [0], 0, "Z"⟩
    let run : Run ℝ ℝ := ⟨start c {} .nothing, .ofList [2⁻¹], []⟩
    let run' : Run ℝ ℝ := ⟨start c' {} .nothing, .ofList [2⁻¹], []⟩
    state.size = 2 ^ 1 ∧ [0].Nodup ∧ (∀ q ∈ [0], q < 1) ∧
      basis.shape = [2 ^ [0].length, 2 ^ [0].length] ∧
      c.log = [.measure step] ∧ c'.log = [.measure step'] ∧ ReadsAlike c step step' ∧
      SameBefore true ((Step.measure step).view c.serial 0) ((Step.measure step').view c'.serial 0)
        run.engine.preStep run'.engine.preStep ∧
      Matches run run' ∧
      (∃ found draws',
        (measure (S := ℝ) true state basis ([0].map .nat) (.nat 2)).run.run ⟨0, [], 0⟩ =
          (.ok found, draws') ∧ found.weights.sum = 1) ∧
      EndMatching (execute true c ((Step.measure step).view c.serial 0))
        (execute true c' ((Step.measure step').view c'.serial 0)) run run' := by
  intro basis state c c' step step' run run'
  have hsize : state.size = 2 ^ 1 := size_build _ _
  have hnodup : [0].Nodup := by decide
  have hrange : ∀ q ∈ [0], q < 1 := by decide
  have hbasis : basis.shape = [2 ^ [0].length, 2 ^ [0].length] := rfl
  have hreads : ReadsAlike c step step' := ⟨.inl rfl, ⟨0, rfl, rfl⟩, rfl, rfl, rfl, rfl⟩
  have hbefore : SameBefore true ((Step.measure step).view c.serial 0)
      ((Step.measure step').view c'.serial 0) run.engine.preStep run'.engine.preStep := .nothing
  have hmatches : Matches run run' := ⟨⟨rfl, rfl, rfl, rfl⟩, rfl, rfl⟩
  obtain ⟨⟨phi, hphi, hmeasured⟩, hsteps⟩ := joint_measurement_readout (Nat.le_refl 2) hsize
    (List.cons_ne_nil 0 []) hnodup hrange hbasis
  refine ⟨hsize, hnodup, hrange, hbasis, rfl, rfl, hreads, hbefore, hmatches, ?_,
    hsteps c c' step step' 0 0 run run' true (Nat.le_refl 2) rfl hreads rfl rfl hbefore hmatches⟩
  obtain ⟨hreturns, hfound⟩ := hmeasured true ⟨0, [], 0⟩
  have hweight : ∑ x ∈ range (2 ^ 1), Complex.normSq (state.amplitude x).toComplex = 1 := by
    rw [pow_one, sum_range_succ, sum_range_one]
    show Complex.normSq (1 : Amplitude ℝ).toComplex + Complex.normSq (0 : Amplitude ℝ).toComplex = 1
    rw [Amplitude.toComplex_one, Amplitude.toComplex_zero, map_one, map_zero, add_zero]
  -- the bit flip keeps the weight, so the measurement returns
  have hkept : ∑ x ∈ range (2 ^ 1), Complex.normSq (phi.amplitude x).toComplex = 1 := by
    have happly := apply_targets (Nat.le_refl 2) hsize (List.cons_ne_nil 0 []) hnodup hrange
      (Tensor.shape_adjoint hbasis)
    obtain rfl := Except.ok.inj (hphi.symm.trans happly)
    rw [← sum_columnWeights_eq (Nat.le_refl 2) hsize (List.cons_ne_nil 0 []) hnodup hrange hbasis,
      sum_columnWeights_targets (Nat.le_refl 2) hsize (List.cons_ne_nil 0 []) hnodup hrange hbasis
        Gate.unitary_pauliX, chanceWeight_real, hsize, hweight]
  obtain ⟨found, draws', hended⟩ := hreturns.mpr (hkept ▸ one_ne_zero)
  exact ⟨found, draws', hended,
    ((hfound found draws' hended).2.2.2 Gate.unitary_pauliX).trans hweight⟩

end Engine

end QuditSim
