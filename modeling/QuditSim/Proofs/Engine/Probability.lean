import QuditSim.Proofs.Engine.Validity
import QuditSim.Proofs.Engine.Weights
import QuditSim.Proofs.Noise.Creation

/-!
# Norms and probabilities of unitary programs

A circuit whose operators are all unitary, run without noise or with that of a channel that keeps
the trace, never fails over the real numbers: every state on the way has norm one, every list of
weights that is drawn from sums to one, and every probability that is written is positive and at
most one.

- `Engine.drawnWeights` lists the weights that a step draws from.
- `Engine.Normed` is the invariant: an engine stands after some steps with a state of weight one.
- `Engine.ends_execute_normed` is the step lemma: a recorded step keeps it and meets no fault.
- `Engine.unitary_program` reads the run off it.
-/

namespace QuditSim

/-- The operators of a channel keep the trace: their products with their adjoints sum to the
identity exactly. -/
def Channel.Preserving (channel : Channel ℝ) : Prop :=
  Channel.total channel.dim channel.ops = Tensor.identity channel.dim

/-- Operators of a dimension that keep the trace make a channel. -/
theorem Channel.create_of_preserving (name : Json) {d : ℕ} (hd : 2 ≤ d) {ops : List (Operator ℝ)}
    (hne : ops ≠ []) (hops : ∀ op ∈ ops, op.shape = [d, d])
    (hpreserving : Channel.Preserving ⟨name, d, ops⟩) :
    create name (ops.map .operator) (.nat d) = .ok ⟨name, d, ops⟩ := by
  -- the sum is the identity, so none of its entries is away from there
  have hdeviation : deviation d ops = 0 := by
    have hentry (i : ℕ) : ((total d ops).get i - (Tensor.identity d).get i).modulus = (0 : ℝ) := by
      rw [hpreserving]
      show √(_ * _ + _ * _) = 0
      simp
    have hlargest : Scalar.largest (0 : ℝ) 0 = 0 := by simp [Scalar.largest]
    have hfold (k : ℕ) : (List.replicate k (0 : ℝ)).foldl Scalar.largest 0 = 0 := by
      induction k with
      | zero => rfl
      | succ k ih => rw [List.replicate_succ, List.foldl_cons, hlargest, ih]
    unfold deviation
    simp only [hentry, List.map_const', hfold]
  have htolerance : ¬ (standardTolerance : ℝ) < 0 := by
    show ¬ (1e-7 : ℝ) < 0
    norm_num
  rw [create_operators name hd hne hops, hdeviation, if_neg htolerance]

/-- The noise before a step, where there is any of a channel, keeps the trace. -/
def PreStep.Preserving (preStep : PreStep ℝ ℝ) : Prop :=
  match preStep with
  | .noise (.trajectory model) _ => model.channel.Preserving
  | _ => True

/-- All operators of a circuit are unitary, those of gates and those of measurements. -/
def Circuit.Unitary (c : Circuit ℝ) : Prop :=
  ∀ key op, c.operands.get? key = some op → op.Unitary

namespace Execution

variable {S R α : Type} {x : Execution S R α} {run : Run S R}

/-- What holds of every run that an execution without faults ends with holds of its outcome, and
that is the run that it ends with. -/
theorem Ends.of_outcome {P : Run S R → Prop}
    (h : Ends x run (fun _ run' => P run') fun _ _ => False) :
    P (x.outcome run).2 ∧ Ends x run (fun _ run' => run' = (x.outcome run).2) fun _ _ => False := by
  unfold Ends at h ⊢
  split at h
  · next heq =>
    rw [heq]
    exact ⟨h, rfl⟩
  · exact h.elim

end Execution

namespace Engine

open Execution

/-! ## What a step draws from -/

section Drawn

variable {S R : Type} [Scalar S] [Scalar R] [Rounding S R] [Rounding R S]

/-- The weights that a noise model draws from at some positions, one list for each of them: those
that it keeps when it acted there. -/
def noiseWeightsAt : List Nat → NoiseModel S → StateVector R → Draws S → List (List S)
  | [], _, _, _ => []
  | position :: rest, model, state, draws =>
    match (model.apply state position).run.run draws with
    | (.ok (.trajectory model, state), draws) =>
      model.lastWeights :: noiseWeightsAt rest (.trajectory model) state draws
    | _ => []

/-- The weights that noise draws from before a step, one list for each live position. -/
def noiseWeights (run : Run S R) : List (List S) :=
  match run.engine.preStep with
  | .noise model _ =>
    noiseWeightsAt run.engine.layout.livePositions model run.engine.state run.draws
  | _ => []

/-- The weights that a measurement at some positions of the state draws from. -/
def measurementWeights (c : Circuit S) (engine : Engine S R) (step : MeasureStep)
    (positions : List Nat) : List (List S) :=
  match step.kind with
  | .none => []
  | .standard => positions.map fun p => StateVector.digitWeights c.dim p engine.state
  | .basis | .jointBasis =>
    match step.keys.head? >>= c.operands.get?,
      StateVector.quditCount engine.state.size (.nat c.dim) with
    | some basis, .ok n =>
      [StateVector.columnWeights c.dim n (Rounding.round basis) positions engine.state]
    | _, _ => []

/-- The weights that a step draws from, list by list: those of the noise before it, and then those
that it finds in the state that the noise left, if it is a measurement. -/
def drawnWeights (checking : Bool) (c : Circuit S) (view : StepView) (run : Run S R) :
    List (List S) :=
  match run.engine.resolve view with
  | .ok (.measurement step positions) =>
    noiseWeights run ++ measurementWeights c ((prepare checking view).outcome run).2.engine step
      (positions.map Int.toNat)
  | _ => noiseWeights run

end Drawn

/-! ## What a step writes -/

/-- What a step that drew from some lists of weights writes into the dits: nothing for a gate, and
for a measurement an outcome that was drawn from one of the lists, with its weight as
probability. -/
def WritesDrawn (step : Step) (drawn : List (List ℝ)) (before after : Engine ℝ ℝ) : Prop :=
  match step with
  | .gate _ => after.dits = before.dits ∧ after.probs = before.probs
  | .measure step => ∃ weights ∈ drawn, ∃ outcome, 0 < weights.getD outcome 0 ∧
      weights.getD outcome 0 ≤ 1 ∧ after.dits = before.dits.set step.dit.toNat outcome ∧
        after.probs = before.probs.set step.dit.toNat (weights.getD outcome 0)

theorem WritesDrawn.mono {step : Step} {drawn drawn' : List (List ℝ)}
    {before before' after : Engine ℝ ℝ} (h : WritesDrawn step drawn before after)
    (hdrawn : ∀ weights ∈ drawn, weights ∈ drawn') (hdits : before.dits = before'.dits)
    (hprobs : before.probs = before'.probs) : WritesDrawn step drawn' before' after := by
  cases step with
  | gate step =>
    obtain ⟨hdits', hprobs'⟩ := h
    exact ⟨hdits'.trans hdits, hprobs'.trans hprobs⟩
  | measure step =>
    obtain ⟨weights, hweights, outcome, hpos, hle, hdits', hprobs'⟩ := h
    rw [hdits] at hdits'
    rw [hprobs] at hprobs'
    exact ⟨weights, hdrawn weights hweights, outcome, hpos, hle, hdits', hprobs'⟩

/-! ## States of weight one -/

/-- An engine that stands after steps of its circuit that measured the qudits of a list has a state
of weight one, and noise that keeps the trace. -/
structure Normed (c : Circuit ℝ) (gone : List Int) (engine : Engine ℝ ℝ) : Prop
    extends Tracks c gone engine where
  /-- There is a probability for each dit. -/
  length_probs : engine.probs.length = c.dits
  /-- The weight of the state is one. -/
  weight_eq : (StateVector.chanceWeight engine.state : ℝ) = 1
  /-- Noise keeps the trace. -/
  preserving : engine.preStep.Preserving

variable {c : Circuit ℝ} {gone : List Int} {run : Run ℝ ℝ}

/-! ## Noise -/

section Noise

variable (hd : 2 ≤ c.dim)

include hd

/-- A channel that keeps the trace leaves a state of weight one when it acts on a live position, and
it draws from weights that sum to one. -/
theorem run_apply_normed {m p : ℕ} {model : Trajectory ℝ} {state : StateVector ℝ}
    (hfits : model.channel.Fits c.dim) (hpreserving : model.channel.Preserving)
    (hsize : state.size = c.dim ^ m) (hweight : (StateVector.chanceWeight state : ℝ) = 1)
    (hp : p < m) (draws : Draws ℝ) :
    ∃ model' state', ((NoiseModel.trajectory model).apply state p).run.run draws =
        (.ok (.trajectory model', state'), draws.advance) ∧ model'.channel = model.channel ∧
          model'.lastWeights.sum = 1 ∧ state'.size = c.dim ^ m ∧
            (StateVector.chanceWeight state' : ℝ) = 1 := by
  have hpreserved : Channel.total c.dim model.channel.ops = Tensor.identity c.dim := by
    rw [← hfits.dim_eq]
    exact hpreserving
  -- the branches have weight one together, so one of them is drawn
  have hsum := Trajectory.sum_chanceWeight_branchesOf hd hsize hfits.shape hpreserved hp
  rw [hweight] at hsum
  obtain ⟨j, hj⟩ := StateVector.exists_sampleIndex_of_sum hsum draws.current
  obtain ⟨hitem, -, -, hnormed⟩ := StateVector.weight_of_sampleIndex hsum hj
  have hlt : j < (model.branchesOf c.dim p state).length := by simpa using lt_of_sampleIndex hj
  unfold NoiseModel.apply
  dsimp only
  rw [Sampling.run_bind, Trajectory.run_apply hd hsize hfits.dim_eq hfits.shape hp]
  dsimp only
  rw [hj]
  refine ⟨_, _, rfl, rfl, hsum, ?_, ?_⟩
  · rw [StateVector.size_divRoot, List.getD_eq_getElem?_getD, List.getElem?_eq_getElem hlt]
    simp [Trajectory.branchesOf, StateVector.branchOn, hsize]
  · rw [hitem]
    exact hnormed

variable {m : ℕ} {model : Trajectory ℝ} {state : StateVector ℝ} {positions : List ℕ}
  (hfits : model.channel.Fits c.dim) (hpreserving : model.channel.Preserving)
  (hsize : state.size = c.dim ^ m) (hweight : (StateVector.chanceWeight state : ℝ) = 1)
  (hpositions : ∀ p ∈ positions, p < m)

include hfits hpreserving hsize hweight hpositions

/-- At some live positions, a channel that keeps the trace draws from as many lists of weights, and
each of them sums to one. -/
theorem noiseWeightsAt_normed (draws : Draws ℝ) :
    (noiseWeightsAt positions (.trajectory model) state draws).length = positions.length ∧
      ∀ weights ∈ noiseWeightsAt positions (.trajectory model) state draws, weights.sum = 1 := by
  induction positions generalizing model state draws with
  | nil => exact ⟨rfl, fun _ hmem => nomatch hmem⟩
  | cons p rest ih =>
    obtain ⟨hp, hrest⟩ := List.forall_mem_cons.mp hpositions
    obtain ⟨model', state', hrun, hchannel, hsum, hsize', hweight'⟩ :=
      run_apply_normed hd hfits hpreserving hsize hweight hp draws
    unfold noiseWeightsAt
    rw [hrun]
    -- the channel is the same one at the next position
    have hfits' : model'.channel.Fits c.dim := by rwa [hchannel]
    have hpreserving' : model'.channel.Preserving := by rwa [hchannel]
    obtain ⟨hlength, hsums⟩ := ih hfits' hpreserving' hsize' hweight' hrest draws.advance
    refine ⟨congrArg Nat.succ hlength, ?_⟩
    exact List.forall_mem_cons.mpr ⟨hsum, hsums⟩

/-- A channel that keeps the trace acts at live positions without a fault. It leaves a state of
weight one, and of the engine it changes only what it drew. -/
theorem ends_noiseOn_normed {place : ℕ} {branches : List (List ℕ)}
    (hpre : run.engine.preStep = .noise (.trajectory model) branches) :
    Ends (noiseOn place positions state) run
      (fun state' run' => (∃ model' branches', model'.channel = model.channel ∧
          run'.engine = { run.engine with preStep := .noise (.trajectory model') branches' }) ∧
        run'.draws.used = run.draws.used + positions.length ∧
          state'.size = c.dim ^ m ∧ (StateVector.chanceWeight state' : ℝ) = 1)
      fun _ _ => False := by
  -- the state is handed on from one position to the next, while that of the engine stays
  induction positions generalizing model state branches run with
  | nil => exact ⟨⟨model, branches, rfl, by rw [← hpre]⟩, rfl, hsize, hweight⟩
  | cons p rest ih =>
    obtain ⟨hp, hrest⟩ := List.forall_mem_cons.mp hpositions
    obtain ⟨model', state', hrun, hchannel, -, hsize', hweight'⟩ :=
      run_apply_normed hd hfits hpreserving hsize hweight hp run.draws
    have hfits' : model'.channel.Fits c.dim := by rwa [hchannel]
    have hpreserving' : model'.channel.Preserving := by rwa [hchannel]
    unfold noiseOn
    rw [ends_bind, ends_current, hpre]
    dsimp only
    rw [ends_bind, ends_drawing, hrun]
    dsimp only
    rw [ends_bind, ends_update, ends_bind, ends_tellAll]
    refine (ih hfits' hpreserving' hsize' hweight' hrest rfl).mono
      (fun state'' run'' hrun'' => ?_) fun _ _ hfalse => hfalse
    obtain ⟨⟨model'', branches'', hchannel', hengine⟩, hused, hstate⟩ := hrun''
    refine ⟨⟨model'', branches'', hchannel'.trans hchannel, hengine⟩, ?_, hstate⟩
    rw [hused, List.length_cons]
    show run.draws.used + 1 + rest.length = _
    omega

end Noise

/-- What is done before a step of an engine with a state of weight one meets no fault and leaves it
so. What it draws from sums to one. -/
theorem ends_prepare_normed (checking : Bool) (hd : 2 ≤ c.dim) (h : Normed c gone run.engine)
    {view : StepView} {ip : ℕ} (hip : view.ip = ip) :
    Ends (prepare checking view) run
      (fun _ run' => Normed c gone run'.engine ∧ run'.engine.dits = run.engine.dits ∧
        run'.engine.probs = run.engine.probs ∧
          run'.draws.used = run.draws.used + (noiseWeights run).length ∧
            ∀ weights ∈ noiseWeights run, weights.sum = 1)
      fun _ _ => False := by
  have hfits := h.fits.preStep
  have hpreserving := h.preserving
  unfold prepare noiseWeights
  rw [ends_bind, ends_current]
  cases hpre : run.engine.preStep with
  | nothing => exact ⟨h, rfl, rfl, rfl, fun _ hmem => nomatch hmem⟩
  | hook act calls =>
    rw [hpre] at hfits
    exact hfits.elim
  | noise model branches =>
    rw [hpre] at hfits hpreserving
    cases model with
    | recording dim branch => exact hfits.elim
    | trajectory model =>
      -- the live positions are those of the state
      have hpositions : ∀ p ∈ run.engine.layout.livePositions, p < Layout.place gone c.qudits := by
        rw [h.layout_eq]
        exact fun p hp => Layout.lt_of_mem_livePositions hp
      obtain ⟨hlength, hsums⟩ := noiseWeightsAt_normed hd hfits hpreserving h.size_state h.weight_eq
        hpositions run.draws
      dsimp only
      unfold injectNoise
      rw [hip, ends_bind, ends_update, mem_extendedTo]
      dsimp only
      rw [ends_bind, ends_current, ends_bind]
      refine (ends_noiseOn_normed hd hfits hpreserving h.size_state h.weight_eq hpositions rfl).mono
        (fun state' run' hrun' => ?_) fun _ _ hfalse => hfalse
      obtain ⟨⟨model', branches', hchannel, hengine⟩, hused, hsize', hweight'⟩ := hrun'
      rw [ends_bind, ends_current, ends_bind, ends_tell, ends_update, hengine]
      refine ⟨⟨(h.toTracks.withPreStep ?_).withState hsize', h.length_probs, hweight', ?_⟩, rfl,
        rfl, ?_, hsums⟩
      · show model'.channel.Fits c.dim
        rwa [hchannel]
      · show model'.channel.Preserving
        rwa [hchannel]
      · rw [hused, hlength]

/-! ## Gates -/

/-- Acts on live qudits that keep the weight of the register keep that of the state, one after the
other. -/
theorem chanceWeight_foldl_total (hd : 2 ≤ c.dim) {engine : Engine ℝ ℝ} (h : Stands c gone engine)
    {list : List (Act ℝ)} (hfit : ∀ act ∈ list, act.Fits c.dim c.qudits)
    (hlive : ∀ act ∈ list, ∀ q ∈ act.qudits, q ∉ gone)
    (hkeeps : ∀ act ∈ list, FullRun.Isometric c.dim c.qudits (FullRun.mapOf c.dim act)) :
    (StateVector.chanceWeight ((list.map (Act.rename (seat gone))).foldl (Act.total c.dim)
      engine.state) : ℝ) = StateVector.chanceWeight engine.state := by
  induction list generalizing engine with
  | nil => rfl
  | cons act list ih =>
    obtain ⟨hact, hfit⟩ := List.forall_mem_cons.mp hfit
    obtain ⟨hfirst, hlive⟩ := List.forall_mem_cons.mp hlive
    obtain ⟨hkept, hkeeps⟩ := List.forall_mem_cons.mp hkeeps
    have hstands := h.withState ((Act.size_total c.dim engine.state
      (act.rename (seat gone))).trans h.size_state)
    rw [List.map_cons, List.foldl_cons]
    exact (ih hstands hfit hlive hkeeps).trans
      (chanceWeight_total hd h.gone_nodup h.gone_inRange h.size_state hact hfirst hkept)

/-- A recorded gate with a unitary operator meets no fault and leaves a state of weight one. -/
theorem ends_performGate_normed (checking : Bool) (ip : Int) (hd : 2 ≤ c.dim) (hunitary : c.Unitary)
    (h : Normed c gone run.engine) {step : GateStep} (hstep : step.Recorded c)
    (hlive : ∀ q ∈ (Step.gate step).qudits, q ∉ gone) :
    Ends (performGate checking c ip step
        (if step.kind.isQuantumControlled then step.controls.map (seat gone) else step.controls)
        (step.targets.map (seat gone))) run
      (fun _ run' => Normed c gone run'.engine ∧ run'.draws = run.draws ∧
        WritesDrawn (.gate step) [] run.engine run'.engine)
      fun _ _ => False := by
  obtain ⟨op, hop, -⟩ := hstep.operator
  obtain ⟨list, hlist, hfit⟩ := h.toTracks.acts_fit hstep hlive
  have hacts := live_of_acts hstep hlive hlist
  have hkeeps := isometric_of_acts hd hstep hop (hunitary _ op hop) hlist
  -- every state on the way has weight one, and so has the last one
  have hweight (k : ℕ) : (StateVector.chanceWeight (((list.map (Act.rename (seat gone))).take
      k).foldl (Act.total c.dim) run.engine.state) : ℝ) = 1 := by
    rw [← List.map_take, ← h.weight_eq]
    exact chanceWeight_foldl_total hd h.toStands
      (fun act hact => (hacts act (List.mem_of_mem_take hact)).1)
      (fun act hact => (hacts act (List.mem_of_mem_take hact)).2)
      fun act hact => hkeeps act (List.mem_of_mem_take hact)
  refine (ends_performGate hd h.toStands hlist hfit).mono (fun _ run' hrun' => ?_)
    fun fault _ hfault => ?_
  · obtain ⟨hdraws, hengine⟩ := hrun'
    rw [hengine]
    refine ⟨⟨h.toTracks.withState ?_, h.length_probs, ?_, h.preserving⟩, hdraws, rfl, rfl⟩
    · rw [Act.size_foldl_total]
      exact h.size_state
    · have hlast := hweight list.length
      rwa [List.take_of_length_le (by rw [List.length_map])] at hlast
  -- a state that the check refuses would not have weight one
  · obtain ⟨k, cause, -, hrefused⟩ := hfault
    rw [StateVector.checked_of_weight checking (hweight k)] at hrefused
    cases hrefused

/-! ## Measurements -/

/-- A measurement that draws from a list of weights takes over an outcome that it drew, with its
weight and a state of weight one. -/
def TakesOver (c : Circuit ℝ) (gone : List Int) (step : MeasureStep) (weights : List ℝ)
    (run run' : Run ℝ ℝ) : Prop :=
  run'.draws = run.draws.advance ∧ ∃ state outcome, (StateVector.chanceWeight state : ℝ) = 1 ∧
    0 < weights.getD outcome 0 ∧ weights.getD outcome 0 ≤ 1 ∧
      run'.engine = run.engine.collapsed c gone step state outcome (weights.getD outcome 0)

/-- A measurement that samples one of some branches and keeps it meets no fault if the branches have
weight one together. -/
theorem ends_takesOver {checking : Bool} {x : Execution ℝ ℝ Unit} {step : MeasureStep} {k : ℕ}
    {branch left : ℕ → StateVector ℝ} {prob : ℕ → ℝ}
    (hsum : ((List.range k).map fun j => (StateVector.chanceWeight (branch j) : ℝ)).sum = 1)
    (hprob : ∀ j, prob j = StateVector.chanceWeight (branch j))
    (hleft : ∀ j, 0 < (StateVector.chanceWeight (branch j) : ℝ) →
      left j = (branch j).divRoot (StateVector.chanceWeight (branch j) : ℝ))
    (hx : Ends x run
      (fun _ run' => ∃ j, sampleIndex ((List.range k).map fun j =>
          (StateVector.chanceWeight (branch j) : ℝ)) run.draws.current = .ok j ∧
        run'.draws = run.draws.advance ∧
          run'.engine = run.engine.collapsed c gone step (left j) j (prob j))
      fun fault run' => (∃ j, sampleIndex ((List.range k).map fun j =>
          (StateVector.chanceWeight (branch j) : ℝ)) run.draws.current = .ok j ∧
            fault.Refuses checking (left j)) ∨
        ∃ cause, fault = .state cause ∧ run' = run ∧ sampleIndex ((List.range k).map fun j =>
          (StateVector.chanceWeight (branch j) : ℝ)) run.draws.current = .error cause) :
    Ends x run (fun _ run' => TakesOver c gone step ((List.range k).map fun j =>
      (StateVector.chanceWeight (branch j) : ℝ)) run run') fun _ _ => False := by
  obtain ⟨⟨i, hi⟩, hdrawn⟩ := StateVector.sampleIndex_of_sum hsum run.draws.current
  refine hx.mono (fun _ run' hrun' => ?_) fun fault run' hfault => ?_
  · obtain ⟨j, hj, hdraws, hengine⟩ := hrun'
    obtain ⟨hpos, hle, hnormed⟩ := hdrawn j hj
    have hlt : j < k := by simpa using lt_of_sampleIndex hj
    unfold TakesOver
    refine ⟨hdraws, left j, j, ?_⟩
    rw [StateVector.getD_map_range _ hlt, ← hprob]
    exact ⟨by rwa [hleft j hpos], hprob j ▸ hpos, hprob j ▸ hle, hengine⟩
  · rcases hfault with ⟨j, hj, cause, -, hrefused⟩ | ⟨cause, -, -, hcause⟩
    -- what remains of a drawn branch has weight one, so no check refuses it
    · obtain ⟨hpos, -, hnormed⟩ := hdrawn j hj
      rw [hleft j hpos, StateVector.checked_of_weight checking hnormed] at hrefused
      cases hrefused
    · rw [hi] at hcause
      cases hcause

/-- A recorded measurement draws from one list of weights, which sums to one, and it meets no
fault. -/
theorem ends_performMeasurement_drawn (checking : Bool) (ip : Int) (hd : 2 ≤ c.dim)
    (hunitary : c.Unitary) (h : Normed c gone run.engine) {step : MeasureStep}
    (hstep : step.Recorded c) (hlive : ∀ q ∈ step.targets, q ∉ gone) :
    ∃ weights : List ℝ, measurementWeights c run.engine step
        ((step.targets.map (seat gone)).map Int.toNat) = [weights] ∧ weights.sum = 1 ∧
      Ends (performMeasurement checking c ip step (step.targets.map (seat gone))) run
        (fun _ run' => TakesOver c gone step weights run run') fun _ _ => False := by
  have hplaces : (step.targets.map (seat gone)).map Int.toNat =
      step.targets.map fun q => Layout.place gone q.toNat := by
    rw [List.map_map]
    exact List.map_congr_left fun q _ => toNat_seat gone q
  rw [hplaces]
  unfold measurementWeights
  rcases hstep.standard_or_inBasis with ⟨hkind, q, htargets⟩ | ⟨hkind, key, hkeys, hoperator⟩
  -- The branches of a digit are slices of the state, which are kept as they are.
  · have hqlive : q ∉ gone := hlive q (by simp [htargets])
    have hq : InRange c.qudits q := hstep.targets.inRange q (by simp [htargets])
    have hsum := StateVector.sum_digitWeights (by omega) h.size_state
      (toNat_seat gone q ▸ (seat_inRange hq hqlive).toNat_lt)
    rw [h.weight_eq] at hsum
    refine ⟨_, ?_, hsum, ?_⟩
    · rw [hkind, htargets]
      rfl
    · exact ends_takesOver hsum (fun j => one_mul _) (fun j _ => rfl)
        (ends_measureStandard checking ip hd h.toStands hstep hkind htargets hqlive)
  -- What remains of a column without weight is the zero vector, but such a column is not drawn.
  · obtain ⟨basis, hkey, hshape⟩ := hoperator
    have hbasis : basis.shape = [c.dim ^ (step.targets.map (seat gone)).length,
        c.dim ^ (step.targets.map (seat gone)).length] := by rwa [List.length_map]
    have hsum := StateVector.sum_columnWeights hd h.size_state
      (targetList_seat hstep.targets hlive) hbasis (hunitary key basis hkey)
    rw [h.weight_eq, hplaces] at hsum
    refine ⟨_, ?_, hsum, ?_⟩
    · rw [hkeys, List.head?_cons, Option.bind_eq_bind, Option.bind_some, hkey, h.size_state,
        StateVector.quditCount_pow hd]
      rcases hkind with hkind | hkind
      · simp only [hkind, Tensor.round_real]
      · simp only [hkind, Tensor.round_real]
    · have hends := ends_measureInBasis checking ip hd h.toStands hstep hkind hkeys hkey hshape
        hlive
      rw [Tensor.round_real] at hends
      exact ends_takesOver hsum (fun _ => rfl) (fun j hpos => if_pos hpos) hends

/-- A recorded measurement leaves a state of weight one and writes an outcome that it drew. -/
theorem ends_performMeasurement_normed (checking : Bool) (ip : ℕ) (hd : 2 ≤ c.dim)
    (hextent : c.dim ^ c.qudits < 2 ^ 63) (hunitary : c.Unitary) (h : Normed c gone run.engine)
    {step : MeasureStep} (hstep : step.Recorded c) (hlive : ∀ q ∈ step.targets, q ∉ gone) :
    ∃ weights : List ℝ, measurementWeights c run.engine step
        ((step.targets.map (seat gone)).map Int.toNat) = [weights] ∧ weights.sum = 1 ∧
      Ends (performMeasurement checking c ip step (step.targets.map (seat gone))) run
        (fun _ run' => Normed c (gone ++ step.targets) run'.engine ∧
          run'.draws = run.draws.advance ∧
            WritesDrawn (.measure step) [weights] run.engine run'.engine)
        fun _ _ => False := by
  obtain ⟨weights, hweights, hsum, htaken⟩ :=
    ends_performMeasurement_drawn checking ip hd hunitary h hstep hlive
  refine ⟨weights, hweights, hsum, ?_⟩
  refine (htaken.and (ends_performMeasurement_recorded hd hextent h.toTracks hstep hlive)).mono
    (fun _ run' hrun' => ?_) fun _ _ hfault => hfault.1
  obtain ⟨⟨hdraws, state, outcome, hstate, hpos, hle, hengine⟩, htracks⟩ := hrun'
  rw [hengine] at htracks ⊢
  refine ⟨⟨htracks, ?_, hstate, h.preserving⟩, hdraws, weights, List.mem_singleton.mpr rfl, outcome,
    hpos, hle, rfl, rfl⟩
  exact (List.length_set ..).trans h.length_probs

/-! ## Steps -/

/-- The check of norms accepts a state of weight one. -/
theorem ends_checkNorm_normed (h : (StateVector.chanceWeight run.engine.state : ℝ) = 1)
    {Q : Unit → Run ℝ ℝ → Prop} {E : EngineFault → Run ℝ ℝ → Prop} :
    Ends checkNorm run Q E ↔ Q () run := by
  unfold checkNorm
  rw [ends_bind, ends_current, StateVector.assertNormalized_of_weight h]
  split <;> exact Iff.rfl

/-- A recorded step on live qudits of a circuit whose operators are unitary meets no fault and
leaves a state of weight one. It draws once from each of its lists of weights, all of which sum to
one, and what it writes is drawn from them. -/
theorem ends_execute_normed (checking : Bool) (ip : ℕ) (hd : 2 ≤ c.dim)
    (hextent : c.dim ^ c.qudits < 2 ^ 63) (hunitary : c.Unitary) (h : Normed c gone run.engine)
    {step : Step} (hstep : step.Recorded c) (hlive : ∀ q ∈ step.qudits, q ∉ gone) :
    let drawn := drawnWeights checking c (step.view c.serial ip) run
    (∀ weights ∈ drawn, weights.sum = 1) ∧
      Ends (execute checking c (step.view c.serial ip)) run
        (fun _ run' => Normed c (gone ++ step.retired) run'.engine ∧
          run'.draws.used = run.draws.used + drawn.length ∧
            WritesDrawn step drawn run.engine run'.engine)
        fun _ _ => False := by
  -- a measurement draws in the state that the noise leaves, so that state is given a name
  have hip : (step.view c.serial ip).ip = ip := rfl
  obtain ⟨⟨hnormed, hdits, hprobs, hused, hsums⟩, hprepare⟩ :=
    (ends_prepare_normed checking hd h hip).of_outcome
  set after := ((prepare checking (step.view c.serial ip)).outcome run).2 with hafter
  unfold drawnWeights
  cases step with
  | gate step =>
    have hresolve : run.engine.resolve ((Step.gate step).view c.serial ip) = _ :=
      resolve_gate h.toStands hstep hlive
    rw [hresolve]
    refine ⟨hsums, ends_execute h.fits.serial_eq.symm hresolve ?_⟩
    refine hprepare.mono (fun _ run₁ h₁ run₂ hengine hdraws => ?_) fun _ _ hfalse => hfalse
    rw [h₁] at hengine hdraws
    refine (ends_performGate_normed checking ip hd hunitary (hengine ▸ hnormed) hstep hlive).mono
      (fun _ run₃ h₃ => ?_) fun _ _ hfalse => hfalse
    obtain ⟨hnormed₃, hdraws₃, hwrites⟩ := h₃
    rw [ends_checkNorm_normed hnormed₃.weight_eq, Step.retired_gate, List.append_nil]
    refine ⟨hnormed₃, ?_, ?_⟩
    · rw [hdraws₃, hdraws, hused]
    · rw [hengine] at hwrites
      exact hwrites.mono (fun _ hmem => nomatch hmem) hdits hprobs
  | measure step =>
    have hresolve : run.engine.resolve ((Step.measure step).view c.serial ip) = _ :=
      resolve_measure h.toStands hstep hlive
    rw [hresolve]
    obtain ⟨weights, hweights, hsum, -⟩ :=
      ends_performMeasurement_drawn checking ip hd hunitary hnormed hstep hlive
    dsimp only
    rw [← hafter, hweights]
    refine ⟨List.forall_mem_append.mpr ⟨hsums, List.forall_mem_singleton.mpr hsum⟩,
      ends_execute h.fits.serial_eq.symm hresolve ?_⟩
    refine hprepare.mono (fun _ run₁ h₁ run₂ hengine hdraws => ?_) fun _ _ hfalse => hfalse
    rw [h₁] at hengine hdraws
    -- what is told in between changes nothing, so the weights are the same ones
    obtain ⟨weights', hweights', -, hends⟩ := ends_performMeasurement_normed checking ip hd hextent
      hunitary (hengine ▸ hnormed) hstep hlive
    rw [hengine, hweights] at hweights'
    obtain rfl : weights = weights' := (List.cons.inj hweights').1
    refine hends.mono (fun _ run₃ h₃ => ?_) fun _ _ hfalse => hfalse
    obtain ⟨hnormed₃, hdraws₃, hwrites⟩ := h₃
    rw [ends_checkNorm_normed hnormed₃.weight_eq]
    refine ⟨hnormed₃, ?_, ?_⟩
    · rw [hdraws₃, hdraws, Draws.used_advance, hused, List.length_append, List.length_singleton,
        Nat.add_assoc]
    · rw [hengine] at hwrites
      exact hwrites.mono (fun _ hmem => List.mem_append_right _ hmem) hdits hprobs

/-! ## Runs -/

/-- The probability of every dit that the first steps of a circuit write is positive and at most
one. -/
def Probable (c : Circuit ℝ) (t : ℕ) (probs : List ℝ) : Prop :=
  ∀ step, .measure step ∈ c.log.take t →
    0 < probs.getD step.dit.toNat 0 ∧ probs.getD step.dit.toNat 0 ≤ 1

/-- What a step writes is probable if what the steps before it wrote is. -/
theorem Probable.succ {t : ℕ} {drawn : List (List ℝ)} {before after : Engine ℝ ℝ}
    (ht : t < c.log.length) (hrecorded : c.log[t].Recorded c)
    (hlength : before.probs.length = c.dits) (hwrites : WritesDrawn c.log[t] drawn before after)
    (h : Probable c t before.probs) : Probable c (t + 1) after.probs := by
  intro step hstep
  rw [List.take_succ_eq_append_getElem ht] at hstep
  rcases hlast : c.log[t] with gate | last
  · rw [hlast] at hwrites hstep
    obtain ⟨-, hprobs⟩ := hwrites
    rw [hprobs]
    have hearlier : .measure step ∈ c.log.take t := by simpa using hstep
    exact h step hearlier
  · rw [hlast] at hwrites hstep hrecorded
    obtain ⟨weights, -, outcome, hpos, hle, -, hprobs⟩ := hwrites
    rw [hprobs]
    by_cases hdit : last.dit.toNat = step.dit.toNat
    -- the step wrote the dit last, whatever was there before
    · have hplace : last.dit.toNat < before.probs.length := by
        rw [hlength]
        exact hrecorded.dit.toNat_lt
      rw [← hdit, List.getD_eq_getElem?_getD, List.getElem?_set_self hplace]
      exact ⟨hpos, hle⟩
    · have hearlier : .measure step ∈ c.log.take t := by
        refine (List.mem_append.mp hstep).resolve_right fun hsame => hdit ?_
        rw [Step.measure.inj (List.mem_singleton.mp hsame)]
      rw [List.getD_eq_getElem?_getD, List.getElem?_set_ne hdit, ← List.getD_eq_getElem?_getD]
      exact h step hearlier

/-- An engine at the start of its circuit has a state of weight one. -/
theorem AtStart.normed {engine : Engine ℝ ℝ} (hd : 2 ≤ c.dim) (h : AtStart c engine)
    (hfits : Fits c engine) (hpreserving : engine.preStep.Preserving) : Normed c [] engine where
  toTracks := h.tracks hfits
  length_probs := by rw [h.probs_eq, List.length_replicate]
  weight_eq := by
    rw [h.state_eq]
    exact StateVector.chanceWeight_zero (by omega) c.qudits
  preserving := hpreserving

/-- After any number of first steps of a circuit whose operators are unitary, which meet no fault,
the state has weight one and what was written is probable. -/
theorem ends_run_normed (checking : Bool) (hsane : Sane c run.engine)
    (hstart : AtStart c run.engine) (hunitary : c.Unitary)
    (hpreserving : run.engine.preStep.Preserving) (t : ℕ) :
    Ends ((c.views.take t).forM (execute checking c)) run
      (fun _ run' => Normed c (c.measuredAfter t) run'.engine ∧ Probable c t run'.engine.probs)
      fun _ _ => False := by
  -- more steps than the circuit has are all of its steps
  have hmin : c.log.take (min t c.log.length) = c.log.take t := List.take_eq_take_min.symm
  have hmeasured : c.measuredAfter (min t c.log.length) = c.measuredAfter t := by
    unfold Circuit.measuredAfter
    rw [hmin]
  have hprobable (probs : List ℝ) : Probable c t probs ↔ Probable c (min t c.log.length) probs := by
    unfold Probable
    rw [hmin]
  simp only [hprobable, ← hmeasured]
  refine ends_steps hsane.wellFormed.ordered
    (fun i run' => Normed c (c.measuredAfter i) run'.engine ∧ Probable c i run'.engine.probs)
    ⟨hstart.normed hsane.two_le_dim hsane.fits hpreserving, fun _ hmem => nomatch hmem⟩ ?_
  intro i hi _ run' hrun'
  have hrecorded := hsane.wellFormed.recorded _ (List.getElem_mem hi)
  obtain ⟨-, hends⟩ := ends_execute_normed checking i hsane.two_le_dim hsane.size_lt hunitary
    hrun'.1 hrecorded (hsane.wellFormed.live hi)
  refine hends.mono (fun _ run'' hrun'' => ?_) fun _ _ hfalse => hfalse
  obtain ⟨hnormed, -, hwrites⟩ := hrun''
  rw [Circuit.measuredAfter_succ hi]
  exact ⟨hnormed, hrun'.2.succ hi hrecorded hrun'.1.length_probs hwrites⟩

/-- A whole run that meets no fault is one that leaves an engine. -/
theorem exists_afterRun {checking : Bool} {engine : Engine ℝ ℝ} {draws : Draws ℝ}
    {Q : Unit → Run ℝ ℝ → Prop}
    (h : Ends (runAll checking c) ⟨engine, draws, []⟩ Q fun _ _ => False) :
    ∃ after, afterRun checking c engine draws = .ok after := by
  unfold Ends outcome at h
  unfold afterRun
  split at h
  · next heq =>
    rw [heq]
    exact ⟨_, rfl⟩
  · exact h.elim

/-- A circuit whose operators are all unitary runs without a fault on an engine that was just made
or just reset, without noise or with that of a channel that keeps the trace, whatever norms are
checked on the way. Before each step and after the last one, the state has norm one, and the
probabilities that were written are positive and at most one. Each step draws once from each of its
lists of weights, all of which sum to one, and a measurement writes an outcome that it drew with its
weight. -/
theorem unitary_program [Capacity] {engine : Engine ℝ ℝ} (h : Ready c engine) (hunitary : c.Unitary)
    (hpreserving : engine.preStep.Preserving) (checking : Bool) (draws : Draws ℝ)
    (events : List Event) :
    (∃ after, afterRun checking c engine draws = .ok after) ∧
      ∀ t, Ends ((c.views.take t).forM (execute checking c)) ⟨engine, draws, events⟩
        (fun _ run => run.engine.state.norm = 1 ∧ Probable c t run.engine.probs ∧
          ∀ (ht : t < c.log.length),
            let drawn := drawnWeights checking c (c.log[t].view c.serial t) run
            (∀ weights ∈ drawn, weights.sum = 1) ∧
              Ends (execute checking c (c.log[t].view c.serial t)) run
                (fun _ run' => run'.draws.used = run.draws.used + drawn.length ∧
                  WritesDrawn c.log[t] drawn run.engine run'.engine)
                fun _ _ => False)
        fun _ _ => False := by
  obtain ⟨hsane, hstart⟩ := h.sane
  constructor
  -- all steps are the first ones, as many as there are
  · have hall : Ends ((c.views.take c.views.length).forM (execute checking c)) ⟨engine, draws, []⟩
        _ _ := ends_run_normed checking hsane hstart hunitary hpreserving c.views.length
    rw [List.take_length] at hall
    exact exists_afterRun hall
  · intro t
    refine (ends_run_normed checking hsane hstart hunitary hpreserving t).mono
      (fun _ run hrun => ?_) fun _ _ hfalse => hfalse
    obtain ⟨hnormed, hprobable⟩ := hrun
    refine ⟨StateVector.norm_eq_one hnormed.weight_eq, hprobable, fun ht => ?_⟩
    obtain ⟨hsums, hends⟩ := ends_execute_normed checking t hsane.two_le_dim hsane.size_lt hunitary
      hnormed (hsane.wellFormed.recorded _ (List.getElem_mem ht)) (hsane.wellFormed.live ht)
    exact ⟨hsums, hends.mono (fun _ _ hrun' => hrun'.2) fun _ _ hfalse => hfalse⟩

section Readout

/-- The channel that finds the digit of a qubit and forgets it. -/
noncomputable def readout : Channel ℝ where
  name := .string "readout"
  dim := 2
  ops := [0, 1].map fun v => .matrix 2 2 fun i j => if i = v ∧ j = v then 1 else 0

theorem preserving_readout : readout.Preserving := by
  have hops : ∀ op ∈ readout.ops, op.shape = [2, 2] := by
    intro op hop
    obtain ⟨v, -, rfl⟩ := List.mem_map.mp hop
    rfl
  have hentry (v : ℕ) {i a : ℕ} (hi : i < 2) (ha : a < 2) :
      ((Tensor.matrix 2 2 fun i j => if i = v ∧ j = v then 1 else 0 : Operator ℝ).entry i
        a).toComplex = if i = v ∧ a = v then 1 else 0 := by
    rw [Tensor.entry_matrix _ hi ha]
    split <;> rfl
  unfold Channel.Preserving
  refine Tensor.ext_entry (n := 2) rfl rfl fun a ha b hb => Amplitude.toComplex_injective ?_
  show ((Channel.total 2 readout.ops).entry a b).toComplex =
    ((Tensor.identity 2 : Operator ℝ).entry a b).toComplex
  rw [Channel.toComplex_entry_total hops ha hb, Operator.toComplex_entry_identity ha hb]
  -- each digit is found by one of the operators
  unfold readout
  rw [List.map_map, List.map_cons, List.map_singleton, List.sum_cons, List.sum_singleton]
  dsimp only [Function.comp_apply]
  rw [Finset.sum_range_succ, Finset.sum_range_one, Finset.sum_range_succ, Finset.sum_range_one]
  simp only [hentry _ (by decide : 0 < 2) ha, hentry _ (by decide : 0 < 2) hb,
    hentry _ (by decide : 1 < 2) ha, hentry _ (by decide : 1 < 2) hb]
  rcases a with _ | _ | a <;> rcases b with _ | _ | b <;> simp at ha hb ⊢

theorem create_readout :
    Channel.create readout.name (readout.ops.map .operator) (.nat 2) = .ok readout := by
  refine Channel.create_of_preserving readout.name (Nat.le_refl 2) (by simp [readout]) ?_
    preserving_readout
  intro op hop
  obtain ⟨v, -, rfl⟩ := List.mem_map.mp hop
  rfl

/-- A circuit whose one operator is the bit flip has unitary operators. -/
theorem unitary_of_pauliX {key : Int} (h : c.operands.entries = [(key, Gate.pauliX)]) :
    c.Unitary := by
  intro key' op hop
  unfold OperandTable.get? at hop
  rw [h, List.lookup_cons] at hop
  split at hop
  · obtain rfl := Option.some.inj hop
    exact Gate.unitary_pauliX
  · cases hop

section

attribute [local instance] Capacity.common

/-- The bit flip and a measurement, on a new engine with noise that reads out the qubit before each
step, and with all checks of norms. -/
theorem unitary_program_readout :
    let c : Circuit ℝ := (Circuit.empty 0 1 1 2 "" (fun _ => "") fun _ => 0).attemptAll
      [.gate (.operator Gate.pauliX) [.int 0] "", .measureZ (.int 0) (.int 0) ""]
    let engine : Engine ℝ ℝ := start c { checkNormalization := true }
      (freshNoise c (.trajectory (.start readout)))
    let draws : Draws ℝ := .ofList []
    Ready c engine ∧ c.Unitary ∧ engine.preStep.Preserving ∧
      (∃ after, afterRun true c engine draws = .ok after) ∧
      ∀ t, Ends ((c.views.take t).forM (execute true c)) ⟨engine, draws, []⟩
        (fun _ run => run.engine.state.norm = 1 ∧ Probable c t run.engine.probs ∧
          ∀ (ht : t < c.log.length),
            let drawn := drawnWeights true c (c.log[t].view c.serial t) run
            (∀ weights ∈ drawn, weights.sum = 1) ∧
              Ends (execute true c (c.log[t].view c.serial t)) run
                (fun _ run' => run'.draws.used = run.draws.used + drawn.length ∧
                  WritesDrawn c.log[t] drawn run.engine run'.engine)
                fun _ _ => False)
        fun _ _ => False := by
  intro c engine draws
  have hcreate : Circuit.create? 0 (.int 1) (.int 1) (.int 2) "" (fun _ => .ok fun _ => "")
      (fun _ => 0) = .ok (Circuit.empty 0 1 1 2 "" (fun _ => "") fun _ => 0 : Circuit ℝ) := rfl
  have hbuilt : c.Built := ⟨0, .int 1, .int 1, .int 2, "", _, _, _, _, hcreate, rfl⟩
  have hready : Ready c engine := by
    refine .made (.intro _ (some readout) _ hbuilt rfl (fun channel hmem => ?_) rfl)
    obtain rfl := Option.some.inj hmem
    exact ⟨_, _, _, create_readout⟩
  have hunitary : c.Unitary := unitary_of_pauliX rfl
  exact ⟨hready, hunitary, preserving_readout,
    unitary_program hready hunitary preserving_readout true draws []⟩

end

end Readout

end Engine

end QuditSim
