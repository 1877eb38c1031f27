import QuditSim.Proofs.Engine.IdleNoise

/-!
# Executions that end alike

Two executions end alike if they both succeed or both fail and what they leave is related. This is how
steps are compared that are recorded differently but do the same: at other places of a log, or in other
circuits.

- `Execution.EndAlike` is the comparison, and `Execution.EndAlike.bind` its rule for sequences.
- `Engine.Matches` relates runs: the engines hold the same and the same numbers are left to draw.
- `Engine.Matches.endAlike_prepare` is what is done before two steps, if it is the same for both
  (`Engine.SameBefore`).
- `Engine.Matches.endAlike_execute`: steps on the same qudits end alike if their tasks do.
-/

namespace QuditSim

namespace Execution

variable {S R α β γ δ : Type}

/-- Two executions end alike: with values, of which one statement holds together with the runs after
them, or with faults, and with runs of which another one holds. -/
def EndAlike (x : Execution S R α) (y : Execution S R β) (run run' : Run S R)
    (Q : α → Run S R → β → Run S R → Prop) (E : Run S R → Run S R → Prop) : Prop :=
  Ends x run (fun a after => Ends y run' (fun b after' => Q a after b after') fun _ _ => False)
    fun _ after => Ends y run' (fun _ _ => False) fun _ after' => E after after'

section Rules

variable {x : Execution S R α} {y : Execution S R β} {run run' : Run S R}
  {Q : α → Run S R → β → Run S R → Prop} {E : Run S R → Run S R → Prop}

/-- What follows for values and runs holds as well. -/
theorem EndAlike.mono {Q' : α → Run S R → β → Run S R → Prop} (h : EndAlike x y run run' Q E)
    (hQ : ∀ a after b after', Q a after b after' → Q' a after b after') :
    EndAlike x y run run' Q' E :=
  Ends.mono h (fun a after hafter => hafter.mono (hQ a after) fun _ _ hfalse => hfalse)
    fun _ _ hfault => hfault

/-- A value that is there is handed on. -/
theorem lift_ok_bind (a : α) (f : α → Execution S R β) :
    ((liftM (Except.ok a : Except EngineFault α) : Execution S R α) >>= f) = f a := rfl

/-- Sequences end alike whose first parts do, and whose second parts do from where these end. -/
theorem EndAlike.bind {f : α → Execution S R γ} {g : β → Execution S R δ}
    {Q' : γ → Run S R → δ → Run S R → Prop} (h : EndAlike x y run run' Q E)
    (hnext : ∀ a after b after', Q a after b after' → EndAlike (f a) (g b) after after' Q' E) :
    EndAlike (x >>= f) (y >>= g) run run' Q' E := by
  unfold EndAlike Ends at *
  rw [outcome_bind, outcome_bind]
  generalize x.outcome run = ended at h ⊢
  generalize y.outcome run' = ended' at h ⊢
  -- the first parts both have values or both have faults
  obtain ⟨fault | a, after⟩ := ended <;> obtain ⟨fault' | b, after'⟩ := ended'
  · exact h
  · exact h.elim
  · exact h.elim
  · exact hnext a after b after' h

end Rules

end Execution

namespace Engine

open Execution

variable {S R : Type}

/-- Two runs match: the engines hold the same under the same settings, and the same numbers are left to
draw. -/
structure Matches (run run' : Run S R) : Prop where
  /-- The engines hold the same. -/
  agrees : Agrees run.engine run'.engine
  /-- They have the same settings. -/
  settings_eq : run.engine.settings = run'.engine.settings
  /-- The same numbers are drawn from here on. -/
  draws_eq : run.draws = run'.draws

/-- The same is done before two steps: nothing, or noise of one model, or what two hooks answer alike
for these steps. -/
inductive SameBefore (checking : Bool) (view view' : StepView) : PreStep S R → PreStep S R → Prop where
  /-- Nothing is done before either of them. -/
  | nothing : SameBefore checking view view' .nothing .nothing
  /-- The hooks do not tell the steps apart. -/
  | hook {act act' : Bool → StepView → List Nat → StateVector R → Except StateFault (StateVector R)}
      (calls calls' : List (Int × List Nat))
      (h : ∀ live state, act checking view live state = act' checking view' live state) :
      SameBefore checking view view' (.hook act calls) (.hook act' calls')
  /-- The models are the same, whatever was recorded. -/
  | noise (model : NoiseModel S) (branches branches' : List (List Nat)) :
      SameBefore checking view view' (.noise model branches) (.noise model branches')

/-- Two executions both succeed or both fail, and the runs that they leave match. -/
def EndMatching (x y : Execution S R Unit) (run run' : Run S R) : Prop :=
  EndAlike x y run run' (fun _ after _ after' => Matches after after') Matches

namespace Matches

variable {run run' : Run S R} (h : Matches run run')

include h

theorem withPreStep (preStep preStep' : PreStep S R) :
    Matches { run with engine := { run.engine with preStep := preStep } }
      { run' with engine := { run'.engine with preStep := preStep' } } :=
  ⟨⟨h.agrees.state_eq, h.agrees.dits_eq, h.agrees.probs_eq, h.agrees.layout_eq⟩, h.settings_eq,
    h.draws_eq⟩

theorem withState (state : StateVector R) :
    Matches { run with engine := { run.engine with state := state } }
      { run' with engine := { run'.engine with state := state } } :=
  ⟨⟨rfl, h.agrees.dits_eq, h.agrees.probs_eq, h.agrees.layout_eq⟩, h.settings_eq, h.draws_eq⟩

theorem withDraws (draws : Draws S) :
    Matches { run with draws := draws } { run' with draws := draws } :=
  ⟨h.agrees, h.settings_eq, rfl⟩

theorem withEvents (events events' : List Event) :
    Matches { run with events := events } { run' with events := events' } :=
  ⟨h.agrees, h.settings_eq, h.draws_eq⟩

/-- Drawing ends alike from matching runs, if what one computation draws is made of what the other one
does. -/
theorem endAlike_drawing {α β : Type} {x : Sampling S α} {y : Sampling S β} (f : α → β)
    (hmap : f <$> x = y) :
    EndAlike (drawing x) (drawing y) run run' (fun a after b after' => f a = b ∧ Matches after after')
      Matches := by
  unfold EndAlike
  simp only [ends_drawing]
  rw [← hmap, map_eq_pure_bind, Sampling.run_bind, ← h.draws_eq]
  rcases x.run.run run.draws with ⟨fault | a, draws⟩
  · exact h.withDraws draws
  · exact ⟨rfl, h.withDraws draws⟩

/-- States are passed through maps alike that do the same to them. -/
theorem endAlike_passThrough {map map' : StateVector R → Except StateFault (StateVector R)}
    (hmap : ∀ state, map state = map' state) :
    EndMatching (passThrough map) (passThrough map') run run' := by
  unfold EndMatching EndAlike
  simp only [ends_passThrough]
  rw [← h.agrees.state_eq, ← hmap]
  cases map run.engine.state with
  | error fault => exact h
  | ok state => exact h.withState state

section Noise

variable [Scalar S] [Scalar R] [Rounding S R] [Rounding R S]

/-- Noise of one model acts alike on the positions of one state, wherever it is recorded. -/
theorem endAlike_noiseOn (place place' : ℕ) {positions positions' : List ℕ}
    {state state' : StateVector R} (hpositions : positions = positions') (hstate : state = state')
    {model : NoiseModel S} {branches branches' : List (List ℕ)}
    (hpre : run.engine.preStep = .noise model branches)
    (hpre' : run'.engine.preStep = .noise model branches') :
    EndAlike (noiseOn place positions state) (noiseOn place' positions' state') run run'
      (fun state after state' after' => state = state' ∧ Matches after after') Matches := by
  subst hpositions hstate
  -- the records of branches grow apart, so they are arbitrary in the induction
  induction positions generalizing run run' state model branches branches' with
  | nil => exact ⟨rfl, h⟩
  | cons position rest ih =>
    unfold noiseOn
    refine EndAlike.bind (Q := fun engine after engine' after' => engine.preStep = .noise model branches ∧
      engine'.preStep = .noise model branches' ∧ Matches after after') ⟨hpre, hpre', h⟩ ?_
    rintro engine after engine' after' ⟨hengine, hengine', hmatches⟩
    rw [hengine, hengine']
    refine (hmatches.endAlike_drawing id (id_map _)).bind ?_
    rintro ⟨model₁, state₁⟩ after₁ _ after₁' ⟨rfl, hmatches₁⟩
    -- the branches are recorded at different places, and what is told is the same
    exact ih ((hmatches₁.withPreStep _ _).withEvents _ _) rfl rfl

/-- Noise of one model acts alike before steps at any places. -/
theorem endAlike_injectNoise (ip ip' : ℕ) (model : NoiseModel S) (branches branches' : List (List ℕ)) :
    EndMatching (injectNoise ip model branches) (injectNoise ip' model branches') run run' := by
  have hextended := h.withPreStep (.noise model (extendedTo ip branches))
    (.noise model (extendedTo ip' branches'))
  have hnoise := hextended.endAlike_noiseOn ip ip'
    (congrArg Layout.livePositions h.agrees.layout_eq) h.agrees.state_eq rfl rfl
  unfold injectNoise EndMatching EndAlike
  -- the records are extended first, and then live positions and state are read
  simp only [ends_bind, ends_update, ends_current, ends_tell, mem_extendedTo]
  refine hnoise.mono ?_
  rintro state after _ after' ⟨rfl, hmatches⟩
  exact (hmatches.withState state).withEvents _ _

/-- What is done before two steps ends alike, if it is the same for both. -/
theorem endAlike_prepare {checking : Bool} {view view' : StepView} {ip ip' : ℕ} (hip : view.ip = ip)
    (hip' : view'.ip = ip')
    (hbefore : SameBefore checking view view' run.engine.preStep run'.engine.preStep) :
    EndMatching (prepare checking view) (prepare checking view') run run' := by
  unfold prepare EndMatching EndAlike
  simp only [ends_bind, ends_current]
  generalize run.engine.preStep = preStep at hbefore ⊢
  generalize run'.engine.preStep = preStep' at hbefore ⊢
  cases hbefore with
  | nothing => exact h
  | hook calls calls' hsame =>
    refine (h.withPreStep _ _).endAlike_passThrough fun state => ?_
    rw [← h.agrees.layout_eq]
    exact hsame _ state
  | noise model branches branches' =>
    dsimp only
    rw [hip, hip']
    exact h.endAlike_injectNoise ip ip' model branches branches'

end Noise

/-! ## After a step -/

/-- An outcome is written into one dit alike. -/
theorem endAlike_writeDit (dit : Int) (outcome : ℕ) (prob : S) :
    EndMatching (writeDit dit outcome prob : Execution S R Unit) (writeDit dit outcome prob) run
      run' := by
  unfold writeDit EndMatching EndAlike
  simp only [ends_bind, ends_current]
  rw [← h.agrees.dits_eq]
  cases placeOf? dit run.engine.dits.length with
  | none => exact h
  | some place =>
    refine ⟨⟨h.agrees.state_eq, ?_, ?_, h.agrees.layout_eq⟩, h.settings_eq, h.draws_eq⟩
    · exact congrArg (List.set · place outcome) h.agrees.dits_eq
    · exact congrArg (List.set · place prob) h.agrees.probs_eq

/-- The same qudits are marked as measured alike. -/
theorem endAlike_retire (indices : List Int) (ip ip' : Int) :
    EndMatching (retire indices ip : Execution S R Unit) (retire indices ip') run run' := by
  have hstep := Layout.retireAll_step run.engine.layout (some (.int ip)) (some (.int ip')) (indices.map .int)
  unfold retire EndMatching EndAlike
  -- a fault names its step, so it is only compared whether there is one
  simp only [ends_bind, ends_current, ends_update]
  rw [← h.agrees.layout_eq]
  generalize run.engine.layout.retireAll (some (.int ip)) (indices.map .int) = ended at hstep ⊢
  generalize run.engine.layout.retireAll (some (.int ip')) (indices.map .int) = ended' at hstep ⊢
  obtain ⟨layout, fault⟩ := ended
  obtain ⟨layout', fault'⟩ := ended'
  obtain ⟨rfl, hfault⟩ : layout = layout' ∧ (fault = none ↔ fault' = none) := hstep
  have hretired : Matches { run with engine := { run.engine with layout := layout } }
      { run' with engine := { run'.engine with layout := layout } } :=
    ⟨⟨h.agrees.state_eq, h.agrees.dits_eq, h.agrees.probs_eq, rfl⟩, h.settings_eq, h.draws_eq⟩
  cases fault with
  | none =>
    obtain rfl := hfault.mp rfl
    exact hretired
  | some cause =>
    cases fault' with
    | none => exact absurd (hfault.mpr rfl) (Option.some_ne_none cause)
    | some cause' => exact hretired

/-- A found outcome is taken over alike by two steps on the same qudits and dit. -/
theorem endAlike_record {step step' : MeasureStep} (htargets : step'.targets = step.targets)
    (hdit : step'.dit = step.dit) (ip ip' : Int) (state : StateVector R) (outcome : ℕ) (prob : S) :
    EndMatching (record step ip state outcome prob) (record step' ip' state outcome prob) run run' := by
  unfold record EndMatching
  rw [htargets, hdit]
  refine EndAlike.bind (Q := fun _ after _ after' => Matches after after') (h.withState state) ?_
  intro _ after _ after' hmatches
  refine (hmatches.endAlike_writeDit step.dit outcome prob).bind ?_
  intro _ after _ after' hmatches
  exact hmatches.endAlike_retire step.targets ip ip'

/-- The norm is checked alike. -/
theorem endAlike_checkNorm [Scalar R] :
    EndMatching (checkNorm : Execution S R Unit) checkNorm run run' := by
  unfold checkNorm EndMatching EndAlike
  simp only [ends_bind, ends_current]
  rw [← h.settings_eq, ← h.agrees.state_eq]
  split
  · cases run.engine.state.assertNormalized normTolerance with
    | ok u => exact h
    | error fault => exact h
  · exact h

/-! ## Steps -/

/-- The qudits of a step are at the same positions, or are not found by either of two steps. -/
theorem positions_toOption (indices : List Int) (ip ip' : Int) :
    (run.engine.positions indices ip).toOption = (run'.engine.positions indices ip').toOption := by
  have hstep := Layout.resolve_step run.engine.layout (some (.int ip)) (some (.int ip')) (indices.map .int)
  unfold positions
  rw [← h.agrees.layout_eq]
  generalize run.engine.layout.resolve (indices.map .int) (some (.int ip)) = found at hstep ⊢
  generalize run.engine.layout.resolve (indices.map .int) (some (.int ip')) = found' at hstep ⊢
  cases found <;> cases found' <;> cases hstep <;> rfl

omit h in
/-- As many positions are found as there are qudits. -/
theorem length_positions {engine : Engine S R} {indices : List Int} {ip : Int} {found : List Int}
    (hfound : engine.positions indices ip = .ok found) : found.length = indices.length := by
  unfold positions at hfound
  cases hresolve : engine.layout.resolve (indices.map .int) (some (.int ip)) with
  | error fault =>
    rw [hresolve] at hfound
    cases hfound
  | ok places =>
    rw [hresolve] at hfound
    cases hfound
    rw [List.length_map, (Fallible.mapM_eq_ok hresolve).1, List.length_map]

/-- Two measurements of the same qudits end alike, if the same is done before them and if they do when
the qudits were found. -/
theorem endAlike_execute [Scalar S] [Scalar R] [Rounding S R] [Rounding R S] {checking : Bool}
    {c c' : Circuit S} {step step' : MeasureStep} {ip ip' : ℕ}
    (hserial : run.engine.serial = c.serial) (hserial' : run'.engine.serial = c'.serial)
    (htargets : step'.targets = step.targets)
    (hbefore : SameBefore checking ((Step.measure step).view c.serial ip)
      ((Step.measure step').view c'.serial ip') run.engine.preStep run'.engine.preStep)
    (hmeasure : ∀ (positions : List Int) (after after' : Run S R),
      positions.length = step.targets.length → Matches after after' →
      EndMatching (performMeasurement checking c ip step positions)
        (performMeasurement checking c' ip' step' positions) after after') :
    EndMatching (execute checking c ((Step.measure step).view c.serial ip))
      (execute checking c' ((Step.measure step').view c'.serial ip')) run run' := by
  -- both steps find their qudits at the same positions, or neither does
  have hresolve : EndAlike (liftM (run.engine.resolve ((Step.measure step).view c.serial ip)))
      (liftM (run'.engine.resolve ((Step.measure step').view c'.serial ip'))) run run'
      (fun task after task' after' => after = run ∧ after' = run' ∧ ∃ positions,
        positions.length = step.targets.length ∧ task = .measurement step positions ∧
          task' = .measurement step' positions) Matches := by
    have hpositions := h.positions_toOption step.targets ip ip'
    unfold EndAlike resolve Step.view
    dsimp only [Step.kind_measure]
    rw [htargets]
    simp only [ends_lift]
    cases hfound : run.engine.positions step.targets ip <;>
      cases hfound' : run'.engine.positions step.targets ip' <;>
      rw [hfound, hfound'] at hpositions <;> cases hpositions
    · exact h
    · exact ⟨trivial, trivial, _, length_positions hfound, rfl, rfl⟩
  have horigin : ((Step.measure step).view c.serial ip).origin = run.engine.serial := hserial.symm
  have horigin' : ((Step.measure step').view c'.serial ip').origin = run'.engine.serial := hserial'.symm
  unfold execute EndMatching
  refine EndAlike.bind (Q := fun engine after engine' after' => engine = run.engine ∧
    engine' = run'.engine ∧ after = run ∧ after' = run') ⟨rfl, rfl, rfl, rfl⟩ ?_
  rintro _ _ _ _ ⟨rfl, rfl, rfl, rfl⟩
  dsimp only
  rw [if_neg (not_not_intro horigin), if_neg (not_not_intro horigin')]
  refine hresolve.bind ?_
  rintro _ _ _ _ ⟨rfl, rfl, positions, hlength, rfl, rfl⟩
  refine (h.endAlike_prepare rfl rfl hbefore).bind ?_
  intro _ after _ after' hmatches
  refine EndAlike.bind (Q := fun _ after _ after' => Matches after after') (hmatches.withEvents _ _) ?_
  intro _ after _ after' hmatches
  refine (hmeasure positions after after' hlength hmatches).bind ?_
  intro _ after _ after' hmatches
  exact hmatches.endAlike_checkNorm

end Matches

end Engine

end QuditSim
