import QuditSim.Proofs.Engine.Validity

/-!
# Effects of steps

Two programs that do the same tell different things on the way. `Execution.effect` is what an
execution leaves besides that: its value or its fault, the engine and what is left of chance. For an
engine that does nothing before its steps and does not check norms, a recorded step on live qudits
has one effect, which is given by what the stages of the step do:

- `Engine.effect_gate`: a gate carries out its acts, or fails as these do.
- `Engine.effect_measure`: a measurement of a digit samples it and keeps what remains.
- `Engine.effect_gates`: several gates carry out the acts of all of them.
-/

namespace QuditSim

namespace Execution

variable {S R α β : Type}

/-- What an execution leaves besides what it tells. -/
def effect (x : Execution S R α) (run : Run S R) : Except EngineFault α × Engine S R × Draws S :=
  ((x.outcome run).1, (x.outcome run).2.engine, (x.outcome run).2.draws)

section Effects

variable {x : Execution S R α} {f : α → Execution S R β} {run : Run S R} {a : α}
  {fault : EngineFault} {engine : Engine S R} {draws : Draws S}

theorem effect_eq_ok (h : Ends x run
    (fun a' run' => a' = a ∧ run'.engine = engine ∧ run'.draws = draws) fun _ _ => False) :
    x.effect run = (.ok a, engine, draws) := by
  unfold Ends at h
  unfold effect
  split at h
  · next heq =>
    obtain ⟨rfl, rfl, rfl⟩ := h
    rw [heq]
  · exact h.elim

theorem effect_eq_error (h : Ends x run (fun _ _ => False) fun fault' run' =>
    fault' = fault ∧ run'.engine = engine ∧ run'.draws = draws) :
    x.effect run = (.error fault, engine, draws) := by
  unfold Ends at h
  unfold effect
  split at h
  · exact h.elim
  · next heq =>
    obtain ⟨rfl, rfl, rfl⟩ := h
    rw [heq]

/-- After a part that succeeds, the effect is that of the rest, whatever was told. -/
theorem effect_bind_of_ok {effect' : Except EngineFault β × Engine S R × Draws S}
    (h : x.effect run = (.ok a, engine, draws))
    (hnext : ∀ run' : Run S R, run'.engine = engine → run'.draws = draws →
      (f a).effect run' = effect') : (x >>= f).effect run = effect' := by
  obtain ⟨hvalue, hrest⟩ := Prod.mk.inj h
  obtain ⟨hengine, hdraws⟩ := Prod.mk.inj hrest
  rw [← hnext _ hengine hdraws]
  unfold effect
  rw [outcome_bind]
  rcases hended : x.outcome run with ⟨result, run'⟩
  rw [hended] at hvalue
  subst hvalue
  rfl

/-- A part that fails ends the whole. -/
theorem effect_bind_of_error (h : x.effect run = (.error fault, engine, draws)) :
    (x >>= f).effect run = (.error fault, engine, draws) := by
  obtain ⟨hvalue, hrest⟩ := Prod.mk.inj h
  obtain ⟨rfl, rfl⟩ := Prod.mk.inj hrest
  unfold effect
  rw [outcome_bind]
  rcases hended : x.outcome run with ⟨result, run'⟩
  rw [hended] at hvalue
  subst hvalue
  rfl

end Effects

end Execution

namespace Engine

open Execution

variable {S R : Type} [Scalar S] [Scalar R] [Rounding S R] [Rounding R S]

/-- Executes steps one after the other, as those of a circuit from a place on. -/
def executeAll (checking : Bool) (c : Circuit S) (ip : Nat) (steps : List Step) :
    Execution S R Unit :=
  (steps.mapIdx fun i step => step.view c.serial (ip + i)).forM (execute checking c)

theorem executeAll_nil (checking : Bool) (c : Circuit S) (ip : Nat) :
    (executeAll checking c ip [] : Execution S R Unit) = pure () := rfl

theorem executeAll_cons (checking : Bool) (c : Circuit S) (ip : Nat) (step : Step)
    (steps : List Step) :
    (executeAll checking c ip (step :: steps) : Execution S R Unit) =
      execute checking c (step.view c.serial ip) >>= fun _ =>
        executeAll checking c (ip + 1) steps := by
  unfold executeAll
  rw [List.mapIdx_cons]
  have hplaces : (fun i (step : Step) => step.view c.serial (ip + (i + 1))) =
      fun i step => step.view c.serial (ip + 1 + i) := by
    funext i step
    rw [Nat.add_comm i 1, Nat.add_assoc]
  rw [hplaces]
  rfl

/-- One step has the effect that executing it has. -/
theorem effect_executeAll_singleton (checking : Bool) (c : Circuit S) (ip : Nat) (step : Step)
    (run : Run S R) :
    (executeAll checking c ip [step]).effect run =
      (execute checking c (step.view c.serial ip)).effect run := by
  rw [executeAll_cons, executeAll_nil]
  unfold effect
  rw [outcome_bind]
  rcases (execute checking c (step.view c.serial ip)).outcome run with ⟨_ | _, run'⟩ <;> rfl

omit [Scalar S] [Scalar R] [Rounding S R] [Rounding R S] in
/-- An engine does nothing before its steps, and it does not check norms after them. -/
structure Plain (engine : Engine S R) : Prop where
  /-- There is neither a hook nor noise. -/
  preStep_eq : engine.preStep = .nothing
  /-- Norms are not checked. -/
  checkNormalization_eq : engine.settings.checkNormalization = false

section Steps

variable {c : Circuit S} {gone : List Int} {run : Run S R}

omit [Scalar S] [Rounding S R] [Rounding R S] in
/-- Without checks, nothing happens after a step. -/
theorem ends_checkNorm_plain {Q : Unit → Run S R → Prop} {E : EngineFault → Run S R → Prop}
    (hplain : run.engine.Plain) : Ends checkNorm run Q E ↔ Q () run := by
  unfold checkNorm
  rw [ends_bind, ends_current, hplain.checkNormalization_eq]
  exact Iff.rfl

/-- The effect of a step of a plain engine is that of its task. -/
theorem ends_execute_plain {view : StepView} {task : Task} {Q : Unit → Run S R → Prop}
    {E : EngineFault → Run S R → Prop} (hplain : run.engine.Plain)
    (hserial : view.origin = run.engine.serial) (htask : run.engine.resolve view = .ok task)
    (h : ∀ run' : Run S R, run'.engine = run.engine → run'.draws = run.draws →
      Ends (match task with
          | .gate step controls targets => performGate false c view.ip step controls targets
          | .measurement step targets => performMeasurement false c view.ip step targets)
        run' (fun _ run'' => run''.engine.Plain ∧ Q () run'') E) :
    Ends (execute false c view) run Q E := by
  refine ends_execute hserial htask ?_
  rw [ends_prepare_nothing hplain.preStep_eq]
  intro run' hengine hdraws
  refine (h run' hengine hdraws).mono (fun _ run'' hrun'' => ?_) fun _ _ hfault => hfault
  rw [ends_checkNorm_plain hrun''.1]
  exact hrun''.2

variable (hd : 2 ≤ c.dim) (h : Stands c gone run.engine) (hplain : run.engine.Plain)

include hd h hplain

/-- A recorded gate on live qudits carries out its acts at their positions. -/
theorem effect_gate {step : GateStep} (hstep : step.Recorded c)
    (hlive : ∀ q ∈ (Step.gate step).qudits, q ∉ gone) {list : List (Act S)}
    (hlist : acts c run.engine.dits step step.controls step.targets = .ok list) (ip : Nat) :
    (execute false c ((Step.gate step).view c.serial ip)).effect run =
      (.ok (), { run.engine with
        state := (list.map (Act.rename (seat gone))).foldl (Act.total c.dim) run.engine.state },
        run.draws) := by
  apply effect_eq_ok
  refine ends_execute_plain hplain h.fits.serial_eq.symm (resolve_gate h hstep hlive) ?_
  intro run' hengine hdraws
  rw [← hengine] at h hlist hplain
  refine (ends_performGate hd h hlist (fit_of_acts_seat hstep hlive hlist)).mono
    (fun _ run'' hrun'' => ?_) fun _ _ ⟨_, hrefused⟩ => absurd hrefused.isNorm.1 Bool.false_ne_true
  obtain ⟨hdraws'', hengine''⟩ := hrun''
  rw [hengine'', hdraws'', hdraws, hengine]
  rw [hengine] at hplain
  exact ⟨⟨hplain.preStep_eq, hplain.checkNormalization_eq⟩, rfl, rfl, rfl⟩

omit hd in
/-- A recorded gate whose acts are not found changes nothing. -/
theorem effect_gate_error {step : GateStep} (hstep : step.Recorded c)
    (hlive : ∀ q ∈ (Step.gate step).qudits, q ∉ gone) {fault : EngineFault}
    (hfault : acts c run.engine.dits step step.controls step.targets = .error fault) (ip : Nat) :
    (execute false c ((Step.gate step).view c.serial ip)).effect run =
      (.error fault, run.engine, run.draws) := by
  apply effect_eq_error
  refine ends_execute_plain hplain h.fits.serial_eq.symm (resolve_gate h hstep hlive) ?_
  intro run' hengine hdraws
  have hmaps : gateMaps false c run'.engine.dits step
      (if step.kind.isQuantumControlled then step.controls.map (seat gone) else step.controls)
      (step.targets.map (seat gone)) =
      (.error fault : Except EngineFault (List (StateMap R))) := by
    rw [gateMaps_eq, acts_rename, hengine, hfault]
    rfl
  unfold performGate
  rw [ends_bind, ends_current, ends_bind, hmaps, ends_lift]
  exact ⟨rfl, hengine, hdraws⟩

/-- A recorded measurement of the digit of a live qudit samples it and keeps what remains. Weights
that nothing can be sampled from are refused, and nothing is changed. -/
theorem effect_measure {step : MeasureStep} (hstep : step.Recorded c)
    (hkind : step.kind = .standard) {q : Int} (htargets : step.targets = [q]) (hlive : q ∉ gone)
    (ip : Nat) :
    let p := Layout.place gone q.toNat
    (execute false c ((Step.measure step).view c.serial ip)).effect run =
      match sampleIndex (StateVector.digitWeights c.dim p run.engine.state) run.draws.current with
      | .ok v => (.ok (), run.engine.collapsed c gone step
          (StateVector.remaining S c.dim p v run.engine.state) v
          (1 * StateVector.chanceWeight (StateVector.slice c.dim p v run.engine.state)),
          run.draws.advance)
      | .error cause => (.error (.state cause), run.engine, run.draws) := by
  intro p
  have hlive' : ∀ q ∈ step.targets, q ∉ gone := by simpa [htargets] using hlive
  have hresolve : run.engine.resolve ((Step.measure step).view c.serial ip) = _ :=
    resolve_measure h hstep hlive'
  -- both ends of the sampling are read off the same stage
  have hstage (run' : Run S R) (hengine : run'.engine = run.engine) := by
    have hstands : Stands c gone run'.engine := hengine ▸ h
    exact ends_measureStandard false ip hd hstands hstep hkind htargets hlive
  rcases hsample : sampleIndex (StateVector.digitWeights c.dim p run.engine.state)
    run.draws.current with cause | v
  · apply effect_eq_error
    refine ends_execute_plain hplain h.fits.serial_eq.symm hresolve ?_
    intro run' hengine hdraws
    refine (hstage run' hengine).mono (fun _ run'' hrun'' => ?_) fun fault run'' hfault => ?_
    · obtain ⟨v, hv, -⟩ := hrun''
      rw [hengine, hdraws, hsample] at hv
      cases hv
    · rcases hfault with ⟨_, -, hrefused⟩ | ⟨cause', rfl, rfl, hcause⟩
      · exact absurd hrefused.isNorm.1 Bool.false_ne_true
      · rw [hengine, hdraws, hsample] at hcause
        cases hcause
        exact ⟨rfl, hengine, hdraws⟩
  · apply effect_eq_ok
    refine ends_execute_plain hplain h.fits.serial_eq.symm hresolve ?_
    intro run' hengine hdraws
    refine (hstage run' hengine).mono (fun _ run'' hrun'' => ?_) fun fault run'' hfault => ?_
    · obtain ⟨v', hv, hdraws'', hengine''⟩ := hrun''
      rw [hengine, hdraws, hsample] at hv
      cases hv
      rw [hengine'', hdraws'', hengine, hdraws]
      exact ⟨⟨hplain.preStep_eq, hplain.checkNormalization_eq⟩, rfl, rfl, rfl⟩
    · rcases hfault with ⟨_, -, hrefused⟩ | ⟨cause, rfl, rfl, hcause⟩
      · exact absurd hrefused.isNorm.1 Bool.false_ne_true
      · rw [hengine, hdraws, hsample] at hcause
        cases hcause

/-- Recorded gates on live qudits carry out the acts of all of them. -/
theorem effect_gates (ip : Nat) {gates : List GateStep} (list : GateStep → List (Act S))
    (hsteps : ∀ step ∈ gates, step.Recorded c)
    (hlive : ∀ step ∈ gates, ∀ q ∈ (Step.gate step).qudits, q ∉ gone)
    (hlist : ∀ step ∈ gates,
      acts c run.engine.dits step step.controls step.targets = .ok (list step)) :
    (executeAll false c ip (gates.map Step.gate)).effect run =
      (.ok (), { run.engine with
        state := ((gates.flatMap list).map (Act.rename (seat gone))).foldl (Act.total c.dim)
          run.engine.state }, run.draws) := by
  induction gates generalizing run ip with
  | nil => rfl
  | cons step gates ih =>
    obtain ⟨hstep, hsteps⟩ := List.forall_mem_cons.mp hsteps
    obtain ⟨hfirst, hlive⟩ := List.forall_mem_cons.mp hlive
    obtain ⟨hacts, hlist⟩ := List.forall_mem_cons.mp hlist
    rw [List.map_cons, executeAll_cons]
    refine effect_bind_of_ok (effect_gate hd h hplain hstep hfirst hacts ip) ?_
    intro run' hengine hdraws
    -- gates change the state only, so the engine stands and is plain as before
    have hstands : Stands c gone run'.engine := by
      rw [hengine]
      refine h.withState ?_
      rw [Act.size_foldl_total]
      exact h.size_state
    have hplain' : run'.engine.Plain := by
      rw [hengine]
      exact ⟨hplain.preStep_eq, hplain.checkNormalization_eq⟩
    have hdits : run'.engine.dits = run.engine.dits := by rw [hengine]
    rw [ih hstands hplain' (ip + 1) hsteps hlive (hdits.symm ▸ hlist), hengine, hdraws,
      List.flatMap_cons, List.map_append, List.foldl_append]

end Steps

end Engine

end QuditSim
