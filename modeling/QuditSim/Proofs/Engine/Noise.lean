import QuditSim.Proofs.Engine.Advance

/-!
# Noise on the live positions

Before a step, the noise of an engine acts at the positions of all live qudits, from the lowest one
on. What it does there is said here without the engine: `Trajectory.applyBelow` applies a channel at
the first positions of a state, and `Trajectory.DrawsAt` names the branch that it draws at the next
one.

- `Engine.ends_noiseOn_below` and `Engine.ends_prepare_below`: the noise of an engine is that of
  `Trajectory.applyBelow`, and its record has one more branch for each position.
- `Engine.leaves_performGate_preStep` and `Engine.leaves_performMeasurement_preStep`: what comes after
  the noise does not touch it.
-/

namespace QuditSim

/-! ## Channels at the first positions -/

namespace Trajectory

variable {S R : Type} [Scalar S] [Scalar R] [Rounding S R] [Rounding R S]

/-- Applies a channel at the positions below a number, from the lowest one on. -/
def applyBelow (model : Trajectory S) (state : StateVector R) :
    Nat → Sampling S (Trajectory S × StateVector R)
  | 0 => return (model, state)
  | j + 1 => do
    let (model, state) ← model.applyBelow state j
    model.apply state (.nat j)

/-- The branch that a channel draws at a position after it was applied at those below: it is drawn
with the weights of the branches of the state that there then is. -/
def DrawsAt (model : Trajectory S) (state : StateVector R) (draws : Draws S) (d j branch : Nat) :
    Prop :=
  ∃ model' state' draws', (model.applyBelow state j).run.run draws = (.ok (model', state'), draws') ∧
    sampleIndex ((model'.branchesOf d j state').map StateVector.chanceWeight : List S)
      draws'.current = .ok branch

variable {model model' : Trajectory S} {state state' : StateVector R} {draws draws' : Draws S}

/-- Applying a channel at one more position. -/
theorem run_applyBelow_succ {j : Nat}
    (h : (model.applyBelow state j).run.run draws = (.ok (model', state'), draws')) :
    (model.applyBelow state (j + 1)).run.run draws = (model'.apply state' (.nat j)).run.run draws' := by
  rw [applyBelow, Sampling.run_bind, h]

/-- However often a channel is applied, it stays the same channel. -/
theorem channel_of_applyBelow {j : Nat}
    (h : (model.applyBelow state j).run.run draws = (.ok (model', state'), draws')) :
    model'.channel = model.channel := by
  induction j generalizing model' state' draws' with
  | zero =>
    cases h
    rfl
  | succ j ih =>
    obtain ⟨⟨between, state₁⟩, draws₁, hbelow, hlast⟩ := Sampling.run_bind_eq_ok.mp h
    exact (channel_of_apply hlast).trans (ih hbelow)

/-- Applying a channel to a qudit of the register draws the branch that it remembers. -/
theorem sampleIndex_of_apply {d m p : Nat} (hd : 2 ≤ d) (hsize : state.size = d ^ m)
    (hdim : model.channel.dim = d) (hops : ∀ op ∈ model.channel.ops, op.shape = [d, d])
    (hp : p < m) (h : (model.apply state (.nat p)).run.run draws = (.ok (model', state'), draws')) :
    sampleIndex ((model.branchesOf d p state).map StateVector.chanceWeight : List S)
      draws.current = .ok model'.lastBranch := by
  rw [run_apply hd hsize hdim hops hp] at h
  dsimp only at h
  split at h
  · next branch hbranch =>
    cases h
    exact hbranch
  · cases h

/-- A branch that is drawn is one of the channel. -/
theorem DrawsAt.lt {d j branch : Nat} (h : model.DrawsAt state draws d j branch) :
    branch < model.channel.ops.length := by
  obtain ⟨model', state', draws', hbelow, hbranch⟩ := h
  have hlt := lt_of_sampleIndex hbranch
  rw [List.length_map, branchesOf, List.length_map, channel_of_applyBelow hbelow] at hlt
  exact hlt

end Trajectory

namespace Engine

open Execution

variable {S R : Type} {c : Circuit S} {gone : List Int}

/-! ## What does not touch the noise -/

section Kept

/-- Taking over an outcome leaves the noise. -/
theorem leaves_record_preStep (step : MeasureStep) (ip : Int) (state : StateVector R)
    (outcome : Nat) (prob : S) (run : Run S R) :
    Leaves (record step ip state outcome prob) run fun run' =>
      run'.engine.preStep = run.engine.preStep := by
  unfold Leaves record writeDit retire
  rw [ends_bind, ends_update, ends_bind, ends_bind, ends_current]
  cases placeOf? step.dit run.engine.dits.length with
  | none => rfl
  | some place =>
    dsimp only
    rw [ends_update, ends_bind, ends_current]
    dsimp only
    rw [ends_bind, ends_update]
    split
    · rfl
    · rfl

variable [Scalar S] [Scalar R] [Rounding S R]

/-- A gate leaves the noise, also if it fails. -/
theorem leaves_performGate_preStep (checking : Bool) (c : Circuit S) (ip : Int) (step : GateStep)
    (controls targets : List Int) (run : Run S R) :
    Leaves (performGate checking c ip step controls targets) run fun run' =>
      run'.engine.preStep = run.engine.preStep := by
  unfold Leaves performGate
  rw [ends_bind, ends_current, ends_bind, ends_lift]
  cases (gateMaps checking c run.engine.dits step controls targets :
    Except EngineFault (List (StateMap R))) with
  | error fault => rfl
  | ok maps =>
    dsimp only
    rw [ends_bind, ends_tellAll]
    refine (ends_forM_invariant (fun _ run' => run'.engine.preStep = run.engine.preStep) rfl
      fun i hi run' hrun' => ?_)
    rw [ends_passThrough]
    split
    · exact hrun'
    · exact hrun'

variable [Rounding R S]

/-- A measurement leaves the noise, also if it fails. -/
theorem leaves_performMeasurement_preStep (checking : Bool) (c : Circuit S) (ip : Int)
    (step : MeasureStep) (targets : List Int) (run : Run S R) :
    Leaves (performMeasurement checking c ip step targets) run fun run' =>
      run'.engine.preStep = run.engine.preStep := by
  refine ends_performMeasurement_of_record (Q := fun engine => engine.preStep = run.engine.preStep)
    (E := fun engine => engine.preStep = run.engine.preStep) rfl rfl ?_
  exact fun state outcome prob draws =>
    leaves_record_preStep step ip state outcome prob { run with draws := draws }

end Kept

/-! ## Noise at the positions of a state -/

section Noise

variable [Scalar S] [Scalar R] [Rounding S R] [Rounding R S]

/-- The branches of a record are those that a channel draws at positions from one on. -/
structure DrawsRecord (model : Trajectory S) (state : StateVector R) (draws : Draws S)
    (d start count : Nat) (record : List Nat) : Prop where
  /-- There is one branch for each position. -/
  length_eq : record.length = count
  /-- The branch at a place of the record is that at the position. -/
  draws : ∀ j branch, record[j]? = some branch → model.DrawsAt state draws d (start + j) branch

variable {model₀ model : Trajectory S} {state₀ state : StateVector R} {draws₀ : Draws S}
  {branches : List (List Nat)}

omit [Scalar S] [Scalar R] [Rounding S R] [Rounding R S] in
/-- Branches are added one after the other. -/
theorem addBranch_modify (branches : List (List Nat)) (place branch : Nat) (record : List Nat) :
    (addBranch branches place branch).modify place (· ++ record) =
      branches.modify place (· ++ branch :: record) := by
  rw [addBranch, List.modify_modify_eq]
  congr 1
  funext list
  exact List.append_assoc list [branch] record

/-- The noise of an engine acts at positions as its channel does, and adds what it draws to the list
at its place. If it fails, the channel does. -/
theorem ends_noiseOn_below (run : Run S R) (place : Nat) {d m start count : Nat} (hd : 2 ≤ d)
    (hfits : model₀.channel.Fits d) (hsize : state.size = d ^ m) (hcount : start + count ≤ m)
    (hpre : run.engine.preStep = .noise (.trajectory model) branches)
    (hbelow : (model₀.applyBelow state₀ start).run.run draws₀ =
      (.ok (model, state), run.draws)) :
    Ends (noiseOn place (List.range' start count) state) run
      (fun state' run' => ∃ model' record, run'.engine = { run.engine with
          preStep := .noise (.trajectory model') (branches.modify place (· ++ record)) } ∧
        (model₀.applyBelow state₀ (start + count)).run.run draws₀ =
          (.ok (model', state'), run'.draws) ∧
        DrawsRecord model₀ state₀ draws₀ d start count record)
      fun fault run' => ∃ j cause, j ≤ start + count ∧ fault = .state cause ∧
        (model₀.applyBelow state₀ j).run.run draws₀ = (.error cause, run'.draws) := by
  -- the induction is on the number of positions, and the channel was applied at those before
  induction count generalizing start run model state branches with
  | zero =>
    refine ⟨model, [], ?_, hbelow, rfl, fun j branch h => nomatch h⟩
    have hsame : branches.modify place (· ++ []) = branches := by
      simp only [List.append_nil]
      exact List.modify_id place branches
    rw [hsame, ← hpre]
  | succ count ih =>
    have hchannel := Trajectory.channel_of_applyBelow hbelow
    obtain ⟨hdim, hne, hops⟩ : model.channel.Fits d := hchannel ▸ hfits
    have hstart : start < m := by omega
    rw [List.range'_succ]
    unfold noiseOn
    rw [ends_bind, ends_current, hpre]
    dsimp only
    rw [ends_bind, ends_drawing]
    rcases Trajectory.apply_cases hd hsize hdim hne hops hstart run.draws with
      ⟨model', state', happly, -, hsize'⟩ | ⟨cause, happly, -⟩
    · have hlast := Trajectory.sampleIndex_of_apply hd hsize hdim hops hstart happly
      have hmodel : ((NoiseModel.trajectory model).apply state start).run.run run.draws =
          (.ok (.trajectory model', state'), run.draws.advance) := by
        rw [NoiseModel.apply, Sampling.run_bind, happly]
        rfl
      rw [hmodel]
      dsimp only
      rw [ends_bind, ends_update, ends_bind, ends_tellAll]
      have hbelow' : (model₀.applyBelow state₀ (start + 1)).run.run draws₀ =
          (.ok (model', state'), run.draws.advance) :=
        (Trajectory.run_applyBelow_succ hbelow).trans happly
      refine (ih _ hsize' (by omega) rfl hbelow').mono (fun state'' run'' hrun'' => ?_)
        fun fault run'' hfault => ?_
      · obtain ⟨model'', record, hengine, hlater, hrecord⟩ := hrun''
        refine ⟨model'', model'.lastBranch :: record, ?_, ?_, ?_, ?_⟩
        · rw [← addBranch_modify]
          exact hengine
        · rw [← hlater]
          congr 3
          omega
        · rw [List.length_cons, hrecord.length_eq]
        · intro j branch hbranch
          cases j with
          | zero =>
            cases hbranch
            exact ⟨model, state, run.draws, hbelow, hlast⟩
          | succ j =>
            have hdraws := hrecord.draws j branch hbranch
            rwa [Nat.add_assoc, Nat.add_comm 1 j] at hdraws
      · obtain ⟨j, cause, hj, hcause, hfails⟩ := hfault
        exact ⟨j, cause, by omega, hcause, hfails⟩
    · have hmodel : ((NoiseModel.trajectory model).apply state start).run.run run.draws =
          (.error cause, run.draws) := by
        rw [NoiseModel.apply, Sampling.run_bind, happly]
      rw [hmodel]
      exact ⟨start + 1, cause, by omega, rfl, (Trajectory.run_applyBelow_succ hbelow).trans happly⟩

/-- What is done before a step of a noisy engine: its channel acts at the positions of all live
qudits, and the branches that it draws are added to the list of the step. If it fails, the channel
does. -/
theorem ends_prepare_below {checking : Bool} {view : StepView} {ip : Nat} {run : Run S R}
    (hip : view.ip = ip) (hd : 2 ≤ c.dim) (h : Stands c gone run.engine)
    (hpre : run.engine.preStep = .noise (.trajectory model) branches) :
    Ends (prepare checking view) run
      (fun _ run' => ∃ model' state' record, run'.engine = { run.engine with
          preStep := .noise (.trajectory model') ((extendedTo ip branches).modify ip (· ++ record)),
          state := state' } ∧
        (model.applyBelow run.engine.state (Layout.place gone c.qudits)).run.run run.draws =
          (.ok (model', state'), run'.draws) ∧
        DrawsRecord model run.engine.state run.draws c.dim 0 (Layout.place gone c.qudits) record)
      fun fault run' => ∃ j cause, j ≤ Layout.place gone c.qudits ∧ fault = .state cause ∧
        (model.applyBelow run.engine.state j).run.run run.draws = (.error cause, run'.draws) := by
  unfold prepare
  rw [ends_bind, ends_current, hpre]
  dsimp only
  have hpositions : run.engine.layout.livePositions =
      List.range' 0 (Layout.place gone c.qudits) := by
    rw [h.layout_eq, Layout.livePositions_without, List.range_eq_range']
  unfold injectNoise
  rw [hip, ends_bind, ends_update, mem_extendedTo]
  dsimp only
  rw [ends_bind, ends_current, ends_bind]
  dsimp only
  rw [hpositions]
  have hnoise := ends_noiseOn_below { run with engine := { run.engine with
      preStep := .noise (.trajectory model) (extendedTo ip branches) } } ip hd (h.fits.channel hpre)
    h.size_state
    (Nat.zero_add (Layout.place gone c.qudits)).le rfl rfl
  refine hnoise.mono (fun state' run' hrun' => ?_) fun fault run' hfault => ?_
  · obtain ⟨model', record, hengine, hbelow, hrecord⟩ := hrun'
    rw [Nat.zero_add] at hbelow
    rw [ends_bind, ends_current, ends_bind, ends_tell, ends_update, hengine]
    exact ⟨model', state', record, rfl, hbelow, hrecord⟩
  · obtain ⟨j, cause, hj, hcause, hfails⟩ := hfault
    rw [Nat.zero_add] at hj
    exact ⟨j, cause, hj, hcause, hfails⟩

end Noise

end Engine

end QuditSim
