import QuditSim.Proofs.Drawing
import QuditSim.Proofs.Engine.Usage
import QuditSim.Proofs.Noise.Idle

/-!
# What measurements write

A measurement writes one dit: the digit of a qudit that is measured, or the number of a column of
the basis that several qudits are measured in. Noise, which may act before, leaves the dits as they
are. So whatever state an engine is in, and whatever its weights, a dit that is written is below the
number of outcomes that there are.

- `Engine.leaves_prepare_frame`: what depends neither on noise nor on the state is the same when a
  step begins.
- `Engine.Written` is what a measurement does with the dits. `Engine.ends_execute_written`: a recorded
  measurement does just that, and one that fails does it or leaves all dits as they are.
- `Engine.outcomes_have_weight`: in exact arithmetic, whatever is drawn has weight.
-/

namespace QuditSim

namespace Engine

open Execution

variable {S R : Type} {c : Circuit S}

/-- The dit of a measurement was written with one of the outcomes that there are, and no other one
was. -/
def Written (c : Circuit S) (step : MeasureStep) (before after : List ℕ) : Prop :=
  step.dit.toNat < before.length ∧ ∃ outcome, after = before.set step.dit.toNat outcome ∧
    outcome < c.dim ^ step.targets.length ∧ (step.kind = .standard → outcome < c.dim)

/-- Taking over an outcome writes the dit of the step, or leaves all dits if there is no such dit. -/
theorem ends_record_dits {step : MeasureStep} (hdit : 0 ≤ step.dit) (ip : Int)
    (state : StateVector R) (outcome : ℕ) (prob : S) (run : Run S R) :
    Ends (record step ip state outcome prob) run
      (fun _ run' => step.dit.toNat < run.engine.dits.length ∧
        run'.engine.dits = run.engine.dits.set step.dit.toNat outcome)
      fun _ run' => run'.engine.dits = run.engine.dits ∨
        step.dit.toNat < run.engine.dits.length ∧
          run'.engine.dits = run.engine.dits.set step.dit.toNat outcome := by
  unfold record writeDit retire
  rw [ends_bind, ends_update, ends_bind, ends_bind, ends_current]
  by_cases hthere : InRange run.engine.dits.length step.dit
  · dsimp only
    rw [placeOf?_of_inRange hthere, ends_update, ends_bind, ends_current]
    dsimp only
    rw [ends_bind, ends_update]
    split
    · exact ⟨hthere.toNat_lt, rfl⟩
    · exact .inr ⟨hthere.toNat_lt, rfl⟩
  · have hplace : placeOf? step.dit run.engine.dits.length = none := by
      unfold placeOf?
      rw [if_pos hdit, if_neg fun hlt => hthere ⟨hdit, hlt⟩]
    dsimp only
    rw [hplace]
    exact .inl rfl

variable [Scalar S] [Scalar R] [Rounding S R] [Rounding R S]

/-! ## Before a step -/

section Frame

variable {I : Engine S R → Prop}
  (hpre : ∀ engine preStep, I engine → I { engine with preStep := preStep })
  (hstate : ∀ engine state, I engine → I { engine with state := state })

include hpre in
/-- Noise leaves what does not depend on its record, also where it fails. -/
theorem leaves_noiseOn_frame (place : ℕ) (positions : List ℕ) (state : StateVector R)
    {run : Run S R} (h : I run.engine) :
    Leaves (noiseOn place positions state) run fun run' => I run'.engine := by
  unfold Leaves
  induction positions generalizing run state with
  | nil => exact h
  | cons position rest ih =>
    unfold noiseOn
    rw [ends_bind, ends_current]
    cases run.engine.preStep with
    | nothing => exact h
    | hook act calls => exact h
    | noise model branches =>
      dsimp only
      rw [ends_bind, ends_drawing]
      split
      · next found draws hfound =>
        obtain ⟨model', state'⟩ := found
        dsimp only
        rw [ends_bind, ends_update, ends_bind, ends_tellAll]
        -- so far only the record was written, which the statement does not depend on
        exact ih state' (hpre _ _ h)
      · exact h

include hpre hstate

/-- What is done before a step leaves what depends neither on noise nor on the state, also where it
fails. -/
theorem leaves_prepare_frame (checking : Bool) (view : StepView) {run : Run S R}
    (h : I run.engine) : Leaves (prepare checking view) run fun run' => I run'.engine := by
  unfold Leaves prepare
  rw [ends_bind, ends_current]
  cases run.engine.preStep with
  | nothing => exact h
  | hook act calls =>
    dsimp only
    rw [ends_bind, ends_update, ends_passThrough]
    split
    · exact hstate _ _ (hpre _ _ h)
    · exact hpre _ _ h
  | noise model branches =>
    have hextended := hpre _ (.noise model (extendedTo view.ip branches)) h
    unfold injectNoise
    dsimp only
    rw [ends_bind, ends_update]
    cases placeOf? view.ip (extendedTo view.ip branches).length with
    | none => exact hextended
    | some place =>
      dsimp only
      rw [ends_bind, ends_current, ends_bind]
      refine (leaves_noiseOn_frame hpre place _ _ (by exact hextended)).mono
        (fun state run' hrun' => ?_) fun _ _ hrun' => hrun'
      rw [ends_bind, ends_current, ends_bind, ends_tell, ends_update]
      exact hstate _ _ hrun'

end Frame

/-! ## Measurements -/

/-- A measurement writes an outcome that is one of those that there are, wherever its qudits are. -/
theorem ends_performMeasurement_written (checking : Bool) (ip : Int) {step : MeasureStep}
    (targets : List Int) (run : Run S R) (hd : 0 < c.dim) (hstep : step.Recorded c) :
    Ends (performMeasurement checking c ip step targets) run
      (fun _ run' => Written c step run.engine.dits run'.engine.dits)
      fun _ run' => run'.engine.dits = run.engine.dits ∨
        Written c step run.engine.dits run'.engine.dits := by
  -- all that is to be shown is that the outcome is small enough
  have hrecord {state : StateVector R} {outcome : ℕ} {prob : S} {draws : Draws S} {text : String}
      (hlt : outcome < c.dim ^ step.targets.length)
      (hdigit : step.kind = .standard → outcome < c.dim) :
      Ends (record step ip state outcome prob >>= fun _ => tell Event.engineLogger text)
        { run with draws := draws }
        (fun _ run' => Written c step run.engine.dits run'.engine.dits)
        fun _ run' => run'.engine.dits = run.engine.dits ∨
          Written c step run.engine.dits run'.engine.dits := by
    rw [ends_bind]
    refine (ends_record_dits hstep.dit.1 ip state outcome prob _).mono (fun _ run' hrun' => ?_)
      fun _ run' hrun' => ?_
    · rw [ends_tell]
      exact ⟨hrun'.1, outcome, hrun'.2, hlt, hdigit⟩
    · exact hrun'.imp_right fun hset => ⟨hset.1, outcome, hset.2, hlt, hdigit⟩
  rcases hstep.standard_or_inBasis with ⟨hkind, q, htargets⟩ |
    ⟨hkind, key, hkeys, basis, hkey, hshape⟩
  · unfold performMeasurement
    rw [ends_bind, ends_current, hkind]
    dsimp only
    rw [ends_bind, ends_drawing]
    split
    · next found draws hfound =>
      obtain ⟨outcomes, prob, state⟩ := found
      have hdigits := StateVector.lt_of_measureSequential hfound
      have hlt : outcomes.headD 0 < c.dim := by
        cases outcomes with
        | nil => exact hd
        | cons outcome outcomes => exact hdigits outcome List.mem_cons_self
      refine hrecord ?_ fun _ => hlt
      rwa [htargets, List.length_singleton, Nat.pow_one]
    · exact .inl rfl
  · rw [performMeasurement_eq_inBasis hkind, ends_bind, ends_current]
    unfold inBasis
    rw [hkeys]
    dsimp only [List.head?_cons]
    rw [operandOf_eq_ok hkey, ends_bind, ends_lift]
    dsimp only
    rw [ends_bind, ends_drawing]
    split
    · next found draws hfound =>
      obtain ⟨hlength, u, hsample⟩ := StateVector.sampled_of_measure hfound
      have hcolumns : (Rounding.round basis : Operator R).columns = c.dim ^ step.targets.length :=
        Tensor.columns_of_shape ((Tensor.shape_round basis).trans hshape)
      refine hrecord ?_ fun hstandard => ?_
      · rw [← hcolumns, ← hlength]
        exact lt_of_sampleIndex hsample
      · rcases hkind with hkind | hkind
        · cases hkind.symm.trans hstandard
        · cases hkind.symm.trans hstandard
    · exact .inl rfl

omit [Scalar S] [Scalar R] [Rounding S R] [Rounding R S] in
/-- A view of a measurement is resolved to that measurement, or it is refused. -/
theorem resolve_measure_cases (engine : Engine S R) (step : MeasureStep) (serial ip : ℕ) :
    (∃ fault, engine.resolve ((Step.measure step).view serial ip) = .error fault) ∨
      ∃ targets, engine.resolve ((Step.measure step).view serial ip) =
        .ok (.measurement step targets) := by
  unfold resolve Step.view
  dsimp only [Step.kind_measure]
  cases engine.positions step.targets ip with
  | error fault => exact .inl ⟨fault, rfl⟩
  | ok targets => exact .inr ⟨targets, rfl⟩

/-- A measurement of the circuit writes its dit as it has to, whatever engine is to carry it out. If
it fails, it may have written the dit before. -/
theorem ends_execute_written [Capacity] (checking : Bool) (run : Run S R) (hc : c.Built)
    {view : StepView} (hview : view ∈ c.views) {step : MeasureStep}
    (hstep : view.step = .measure step) :
    Ends (execute checking c view) run
      (fun _ run' => Written c step run.engine.dits run'.engine.dits)
      fun _ run' => run'.engine.dits = run.engine.dits ∨
        Written c step run.engine.dits run'.engine.dits := by
  have hwell := hc.wellFormed
  obtain ⟨ip, hip, rfl⟩ := (Circuit.mem_views_iff hwell.ordered).mp hview
  have hlog : c.log[ip] = .measure step := hstep
  have hrecorded := hwell.recorded _ (List.getElem_mem hip)
  rw [hlog] at hrecorded ⊢
  by_cases hserial : c.serial = run.engine.serial
  · rcases resolve_measure_cases run.engine step c.serial ip with ⟨fault, hfault⟩ | ⟨targets, htask⟩
    -- a qudit that was measured is refused before anything is done
    · unfold execute
      rw [ends_bind, ends_current]
      dsimp only
      rw [if_neg (not_not_intro (by exact hserial)), hfault]
      exact .inl rfl
    · refine ends_execute hserial htask ?_
      have hprepare := leaves_prepare_frame (I := fun engine => engine.dits = run.engine.dits)
        (fun _ _ h => h) (fun _ _ h => h) checking ((Step.measure step).view c.serial ip) rfl
      refine hprepare.mono (fun _ run' hrun' => ?_) fun _ _ hfault => .inl hfault
      intro run'' hengine hdraws
      -- the measurement starts from the dits that there were before the noise
      have hdits : run''.engine.dits = run.engine.dits := hengine ▸ hrun'
      rw [← hdits]
      refine (ends_performMeasurement_written checking _ targets run''
        (Nat.zero_lt_of_lt hc.two_le_dim) hrecorded).mono (fun _ run''' hwritten => ?_)
        fun _ _ hfault => hfault
      refine (leaves_checkNorm _).mono (fun _ _ hsame => ?_) fun _ _ hsame => ?_
      · rwa [hsame]
      · rw [hsame]
        exact .inr hwritten
  · unfold execute
    rw [ends_bind, ends_current]
    dsimp only
    rw [if_pos (show (Step.view c.serial ip (.measure step)).origin ≠ _ from hserial)]
    exact .inl rfl

/-! ## Exact arithmetic -/

/-- Whatever is drawn has weight. Weights are refused just if there are none, if one of them is
negative or not finite, or if their sum is zero; of all others, a rule that finds positive
probabilities, such as that of the library, draws one that is positive. So in exact arithmetic
measurements and channels never divide by zero, whatever state they act on. In any arithmetic, the
branch that a channel tells is one of its operators, and the outcome that a measurement writes is
one of those that there are. -/
theorem outcomes_have_weight [Capacity] {rule : List Extended → ℕ} (hrule : FindsPositive rule)
    {name : Json} {items : List (BranchItem S)} {dim : Argument} {channel : Channel S}
    (hchannel : Channel.create name items dim = .ok channel) (hc : c.Built) :
    (∀ weights,
      Unusable weights ∧ (∃ fault, sampleBy rule weights = .error fault ∧ fault.IsValue) ∨
        ¬ Unusable weights ∧
          ∃ i, sampleBy rule weights = .ok i ∧ i < weights.length ∧ 0 < weights.getD i 0) ∧
    (∀ u, FindsPositive (pick u) ∧ ∀ weights, sampleIndex weights u = sampleBy (pick u) weights) ∧
    (∀ d position state, (StateVector.measureOne d position state).Yields
      fun found : StateVector.Collapse Extended Extended =>
        found.outcome < d ∧ 0 < found.weight ∧ Scalar.sqrt found.weight ≠ 0) ∧
    (∀ checking state basis targets dim, (StateVector.measure checking state basis targets dim).Yields
      fun found : StateVector.JointCollapse Extended Extended => Drawn found.weights found.outcome) ∧
    (∀ (model : Trajectory Extended) (state : StateVector Extended) position,
      (model.apply state position).Yields fun found =>
        found.1.lastBranch < model.channel.ops.length ∧
          Drawn found.1.lastWeights found.1.lastBranch) ∧
    (∀ model, Trajectory.Applied R channel model → model.lastBranch < channel.ops.length) ∧
    ∀ checking (run : Run S R), ∀ view ∈ c.views, ∀ step, view.step = .measure step →
      Ends (execute checking c view) run
        (fun _ run' => Written c step run.engine.dits run'.engine.dits)
        fun _ run' => run'.engine.dits = run.engine.dits ∨
          Written c step run.engine.dits run'.engine.dits := by
  refine ⟨fun weights => ?_, fun u => ⟨findsPositive_pick u, fun weights => ?_⟩,
    StateVector.yields_measureOne, StateVector.yields_measure, Trajectory.yields_apply,
    fun model hmodel => hmodel.lastBranch_lt (Channel.fits_of_create hchannel).ne_nil,
    fun checking run view hview step hstep => ends_execute_written checking run hc hview hstep⟩
  · rcases sampleBy_cases rule weights with hrefused | ⟨ws, rfl, hws, hsum, hok⟩
    · exact .inl hrefused
    · exact .inr ⟨not_unusable hws hsum, _, hok, drawn_of_sampleBy hrule hok⟩
  · exact sampleIndex_eq_sampleBy weights u

/-- The weights that measurements and a channel with one operator find for a qubit in its second
state. -/
theorem weights_second :
    (StateVector.digitWeights 2 0 (#[0, 1] : StateVector Extended) : List Extended) =
        [0, 1].map .finite ∧
      (StateVector.columnWeights 2 1 (.identity 2) [0] (#[0, 1] : StateVector Extended) :
        List Extended) = [0, 1].map .finite ∧
      (((Trajectory.start ⟨.string "none", 2, [.identity 2]⟩ : Trajectory Extended).branchesOf 2 0
        (#[0, 1] : StateVector Extended)).map StateVector.chanceWeight : List Extended) =
          [1].map .finite := by
  have hdigits : (StateVector.digitWeights 2 0 (#[0, 1] : StateVector Extended) : List Extended) =
      [.finite _, .finite _] := rfl
  have hcolumns : (StateVector.columnWeights 2 1 (.identity 2) [0]
      (#[0, 1] : StateVector Extended) : List Extended) = [.finite _, .finite _] := rfl
  have hround : (Rounding.round (.identity 2 : Operator Extended) : Operator Extended) =
      .identity 2 := Tensor.ext rfl (Array.map_id _)
  have hbranch : (StateVector.chanceWeight (StateVector.branchOn 2 (.identity 2) 0
      (#[0, 1] : StateVector Extended)) : Extended) = .finite _ := rfl
  refine ⟨?_, ?_, ?_⟩
  · rw [hdigits]
    simp
  · rw [hcolumns]
    simp
  · simp only [Trajectory.branchesOf, Trajectory.start, List.map_cons, List.map_nil, hround, hbranch]
    simp

section

attribute [local instance] Capacity.common

/-- A qubit in its second state is found there, by measurements of either kind, and what a channel
does to it is drawn. A circuit that measures a new qubit writes a digit. -/
theorem outcomes_have_weight_second :
    let state : StateVector Extended := #[0, 1]
    let draws : Draws Extended := .ofList []
    let model : Trajectory Extended := .start ⟨.string "none", 2, [.identity 2]⟩
    let c : Circuit ℝ := (Circuit.empty 0 1 1 2 "" (fun _ => "") fun _ => 0).attemptAll
      [.measureZ (.int 0) (.int 0) ""]
    let view : StepView := (Step.measure ⟨.standard, [], [0], 0, "Z"⟩).view 0 0
    let run : Run ℝ ℝ := ⟨start c {} .nothing, .ofList [], []⟩
    sampleBy (pick (0 : Extended)) [0, 1] = .ok 1 ∧
    (∃ found : StateVector.Collapse Extended Extended, ∃ draws',
      (StateVector.measureOne 2 0 state).run.run draws = (.ok found, draws') ∧
        found.outcome < 2 ∧ 0 < found.weight ∧ Scalar.sqrt found.weight ≠ 0) ∧
    (∃ found : StateVector.JointCollapse Extended Extended, ∃ draws',
      (StateVector.measure false state (.identity 2) [.int 0] (.nat 2)).run.run draws =
          (.ok found, draws') ∧ Drawn found.weights found.outcome) ∧
    (∃ found draws', (model.apply state (.nat 0)).run.run draws = (.ok found, draws') ∧
      found.1.lastBranch < 1 ∧ Drawn found.1.lastWeights found.1.lastBranch) ∧
    (∃ channel : Channel ℝ,
      Channel.create (.string "none") [.operator (.identity 2)] (.nat 2) = .ok channel ∧
        (Trajectory.start channel).lastBranch < channel.ops.length) ∧
    c.Built ∧ view ∈ c.views ∧
    Ends (execute false c view) run
      (fun _ run' => Written c ⟨.standard, [], [0], 0, "Z"⟩ run.engine.dits run'.engine.dits)
      fun _ run' => run'.engine.dits = run.engine.dits ∨
        Written c ⟨.standard, [], [0], 0, "Z"⟩ run.engine.dits run'.engine.dits := by
  intro state draws model c view run
  have hcreate : Circuit.create? 0 (.int 1) (.int 1) (.int 2) "" (fun _ => .ok fun _ => "")
      (fun _ => 0) = .ok (Circuit.empty 0 1 1 2 "" (fun _ => "") fun _ => 0 : Circuit ℝ) := rfl
  have hbuilt : c.Built := ⟨0, .int 1, .int 1, .int 2, "", _, _, _, _, hcreate, rfl⟩
  have hview : view ∈ c.views := List.mem_singleton.mpr rfl
  have hmade : Channel.MakesIdle 2
      (Channel.create (.string "none") [.operator (.identity 2)] (.nat 2)) :=
    Channel.makesIdle_create _ (Nat.le_refl 2) (rfl : [Tensor.identity 2] = Tensor.identity 2 :: [])
      fun _ hop => absurd hop List.not_mem_nil
  obtain ⟨channel, hchannel, -⟩ := hmade
  obtain ⟨hsample, -, hone, hjoint, hnoise, hlast, hwritten⟩ :=
    outcomes_have_weight (R := ℝ) (findsPositive_pick 0) hchannel hbuilt
  obtain ⟨hdigits, hcolumns, hbranches⟩ := weights_second
  have hpair : ∀ w ∈ [(0 : ℝ), 1], 0 ≤ w := by simp
  have hsum : 0 < [(0 : ℝ), 1].sum := by simp
  have hdraw := exists_sampleIndex hpair hsum draws.current
  refine ⟨?_, ?_, ?_, ?_, ⟨channel, hchannel, hlast _ .start⟩, hbuilt, hview,
    hwritten false run view hview _ rfl⟩
  · rcases hsample [0, 1] with ⟨hunusable, -⟩ | ⟨-, i, hi, hlt, hpos⟩
    · exact absurd hunusable (not_unusable hpair hsum)
    -- the weight at zero is not positive
    · rw [hi]
      obtain rfl | rfl : i = 0 ∨ i = 1 := by
        have hlt' : i < 2 := hlt
        omega
      · exact absurd hpos (lt_irrefl (0 : ℝ))
      · rfl
  · obtain ⟨i, hi⟩ := hdraw
    have hrun := StateVector.run_measureOne (S := Extended) 2 0 state draws
    rw [hdigits, hi] at hrun
    exact ⟨_, _, hrun, hone 2 0 state _ _ _ hrun⟩
  · obtain ⟨i, hi⟩ := hdraw
    have htargets : TargetList 1 [0] := ⟨by decide, by decide, by decide⟩
    have hrun := StateVector.run_measure (S := Extended) false (Nat.le_refl 2)
      (rfl : state.size = 2 ^ 1) htargets
      (rfl : (Tensor.identity 2 : Operator Extended).shape = [2 ^ 1, 2 ^ 1]) draws
    have hplaces : ([0] : List ℤ).map Int.toNat = [0] := rfl
    rw [hplaces, hcolumns, hi] at hrun
    exact ⟨_, _, hrun, hjoint _ _ _ _ _ _ _ _ hrun⟩
  · obtain ⟨i, hi⟩ := exists_sampleIndex (List.forall_mem_singleton.mpr zero_le_one)
      (by simp) draws.current
    have hdim : model.channel.dim = 2 := rfl
    have hrun := Trajectory.run_apply (Nat.le_refl 2) (rfl : state.size = 2 ^ 1) hdim
      (List.forall_mem_singleton.mpr rfl) Nat.zero_lt_one draws
    dsimp only at hrun
    rw [hbranches, hi] at hrun
    exact ⟨_, _, hrun, hnoise model state _ _ _ _ hrun⟩

end

end Engine

end QuditSim
