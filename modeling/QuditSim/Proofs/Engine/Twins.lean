import QuditSim.Proofs.Engine.Ends
import QuditSim.Proofs.Engine.Layout
import QuditSim.Proofs.State.Measure

/-!
# Twin engines

What an engine is made with stays as it is, whatever is executed: the number of its circuit, its
settings and the channel of its noise. Noise remembers what it drew last, but that is never read
before it is written anew. So two engines that differ in this only cannot be told apart.

- `Engine.Twins` relates two engines that were made with the same and hold the same, whatever their
  noise drew last, and `Engine.TwinRuns` two runs of such engines.
- `Engine.Alike` is said of two executions that end with the same from twin runs and leave twin
  runs. There is one rule for each elementary execution, and `Engine.Alike.bind` is the one for
  sequences.
- `Engine.alike_execute` and `Engine.alike_runAll`: a step and the steps of a circuit end alike for
  twins.
-/

namespace QuditSim

/-! ## Twins -/

/-- What a channel draws does not depend on what it drew before. -/
theorem NoiseModel.apply_eq_of_channel {S R : Type} [Scalar S] [Scalar R] [Rounding S R]
    [Rounding R S] {model model' : Trajectory S} (h : model'.channel = model.channel)
    (state : StateVector R) (position : Nat) :
    (trajectory model').apply state position = (trajectory model).apply state position := by
  obtain ⟨channel, branch, weights⟩ := model
  obtain ⟨channel', branch', weights'⟩ := model'
  obtain rfl : channel' = channel := h
  rfl

/-- The same is done before the steps of two engines: nothing, or noise of one channel with the same
record. What was drawn last may differ. -/
inductive PreStep.Twins {S R : Type} : Option (Channel S) → PreStep S R → PreStep S R → Prop where
  /-- Nothing is done. -/
  | nothing : Twins none .nothing .nothing
  /-- There is noise of one channel. -/
  | noise {channel : Channel S} {model model' : Trajectory S} (h : model.channel = channel)
      (h' : model'.channel = channel) (branches : List (List Nat)) :
      Twins (some channel) (.noise (.trajectory model) branches) (.noise (.trajectory model') branches)

theorem PreStep.Twins.symm {S R : Type} {noise : Option (Channel S)} {preStep preStep' : PreStep S R}
    (h : Twins noise preStep preStep') : Twins noise preStep' preStep := by
  cases h with
  | nothing => exact .nothing
  | noise hchannel hchannel' branches => exact .noise hchannel' hchannel branches

namespace Engine

section Twins

variable {S R : Type}

/-- Two engines were made for one circuit, with the same settings and noise of the same channel, and
hold the same. -/
structure Twins (c : Circuit S) (settings : EngineSettings) (noise : Option (Channel S))
    (engine engine' : Engine S R) : Prop where
  /-- The first one is bound to the circuit. -/
  serial_eq : engine.serial = c.serial
  /-- It has the settings. -/
  settings_eq : engine.settings = settings
  /-- Its layout is one of the qudits of the circuit. -/
  size_layout : engine.layout.size = c.qudits
  /-- The same is done before their steps. -/
  preStep : PreStep.Twins noise engine.preStep engine'.preStep
  /-- They do not differ in anything else. -/
  eq_but_preStep : engine' = { engine with preStep := engine'.preStep }

/-- Two runs are those of twins, with the same numbers left to draw and the same told. -/
structure TwinRuns (c : Circuit S) (settings : EngineSettings) (noise : Option (Channel S))
    (run run' : Run S R) : Prop where
  /-- The engines are twins. -/
  engines : Twins c settings noise run.engine run'.engine
  /-- The same numbers are drawn from here on. -/
  draws_eq : run'.draws = run.draws
  /-- The same was told. -/
  events_eq : run'.events = run.events

variable {c : Circuit S} {settings : EngineSettings} {noise : Option (Channel S)}

namespace Twins

variable {engine engine' : Engine S R} (h : Twins c settings noise engine engine')

include h

theorem state_eq : engine'.state = engine.state := by rw [h.eq_but_preStep]

theorem dits_eq : engine'.dits = engine.dits := by rw [h.eq_but_preStep]

theorem probs_eq : engine'.probs = engine.probs := by rw [h.eq_but_preStep]

theorem layout_eq : engine'.layout = engine.layout := by rw [h.eq_but_preStep]

theorem serial'_eq : engine'.serial = engine.serial := by rw [h.eq_but_preStep]

theorem settings'_eq : engine'.settings = engine.settings := by rw [h.eq_but_preStep]

/-- The first of two twins is a twin of the second. -/
theorem symm : Twins c settings noise engine' engine := by
  refine ⟨h.serial'_eq.trans h.serial_eq, h.settings'_eq.trans h.settings_eq, ?_, h.preStep.symm, ?_⟩
  · rw [h.layout_eq]
    exact h.size_layout
  · exact congrArg (fun twin => { twin with preStep := engine.preStep }) h.eq_but_preStep.symm

/-- The branches of noise were recorded alike. -/
theorem noiseBranches_eq : engine'.noiseBranches? = engine.noiseBranches? := by
  have htwins := h.preStep
  unfold noiseBranches?
  generalize engine.preStep = preStep at htwins ⊢
  generalize engine'.preStep = preStep' at htwins ⊢
  cases htwins <;> rfl

/-- The qudits of a step are found at the same positions, or are missed with the same fault. -/
theorem resolve_eq (view : StepView) : engine'.resolve view = engine.resolve view := by
  rw [h.eq_but_preStep]
  rfl

theorem isNoisy_eq : engine'.isNoisy = engine.isNoisy := by
  have htwins := h.preStep
  unfold isNoisy
  generalize engine.preStep = preStep at htwins ⊢
  generalize engine'.preStep = preStep' at htwins ⊢
  cases htwins <;> rfl

/-- A cursor is read, or refused, alike. -/
theorem viewAt_eq (attached : Option (Circuit S)) (cursor : Cursor) :
    engine'.viewAt attached cursor = engine.viewAt attached cursor := by
  unfold viewAt
  rw [h.serial'_eq]

theorem checkDit_eq (operation : String) (i : Argument) :
    engine'.checkDit operation i = engine.checkDit operation i := by
  unfold checkDit
  rw [h.dits_eq]

theorem dit_eq (i : Argument) : engine'.dit i = engine.dit i := by
  unfold dit
  rw [h.checkDit_eq, h.dits_eq]

/-- A dit is refused alike, or is set in both. -/
theorem setDit_cases (i value : Argument) :
    (∃ fault, engine.setDit i value = .error fault ∧ engine'.setDit i value = .error fault) ∨
      ∃ f : List Nat → List Nat, engine.setDit i value = .ok { engine with dits := f engine.dits } ∧
        engine'.setDit i value = .ok { engine' with dits := f engine'.dits } := by
  unfold setDit
  rw [h.checkDit_eq]
  cases engine.checkDit "set_dit" i with
  | error fault => exact .inl ⟨fault, rfl, rfl⟩
  | ok _ =>
    cases ditValue value with
    | error fault => exact .inl ⟨fault, rfl, rfl⟩
    | ok n =>
      cases ditPlace i with
      | error fault => exact .inl ⟨fault, rfl, rfl⟩
      | ok place => exact .inr ⟨(·.set place n), rfl, rfl⟩

/-- What is done before a step may change, in the same way for both. -/
theorem withPreStep {preStep preStep' : PreStep S R} (hpre : PreStep.Twins noise preStep preStep') :
    Twins c settings noise { engine with preStep := preStep } { engine' with preStep := preStep' } :=
  ⟨h.serial_eq, h.settings_eq, h.size_layout, hpre,
    congrArg (fun engine => { engine with preStep := preStep' }) h.eq_but_preStep⟩

theorem withState (state : StateVector R) :
    Twins c settings noise { engine with state := state } { engine' with state := state } :=
  ⟨h.serial_eq, h.settings_eq, h.size_layout, h.preStep,
    congrArg (fun engine => { engine with state := state }) h.eq_but_preStep⟩

/-- A dit may be written, in the same way for both. -/
theorem withDits (f : List Nat → List Nat) (g : List S → List S) :
    Twins c settings noise { engine with dits := f engine.dits, probs := g engine.probs }
      { engine' with dits := f engine'.dits, probs := g engine'.probs } :=
  ⟨h.serial_eq, h.settings_eq, h.size_layout, h.preStep,
    congrArg (fun engine => { engine with dits := f engine.dits, probs := g engine.probs })
      h.eq_but_preStep⟩

/-- Qudits may leave, in the same way for both. -/
theorem withLayout {layout : Layout} (hsize : layout.size = c.qudits) :
    Twins c settings noise { engine with layout := layout } { engine' with layout := layout } :=
  ⟨h.serial_eq, h.settings_eq, hsize, h.preStep,
    congrArg (fun engine => { engine with layout := layout }) h.eq_but_preStep⟩

end Twins

/-! ## Executions of twins -/

open Execution

variable {α β γ : Type}

variable (c settings noise) in
/-- From twin runs, two executions end with the same value or the same fault, and leave twin runs. -/
def Alike (x y : Execution S R α) : Prop :=
  ∀ run run' : Run S R, TwinRuns c settings noise run run' →
    (y.outcome run').1 = (x.outcome run).1 ∧
      TwinRuns c settings noise (x.outcome run).2 (y.outcome run').2

theorem alike_pure (a : α) : Alike c settings noise (pure a : Execution S R α) (pure a) :=
  fun _ _ h => ⟨rfl, h⟩

theorem alike_throw (fault : EngineFault) :
    Alike c settings noise (throw fault : Execution S R α) (throw fault) :=
  fun _ _ h => ⟨rfl, h⟩

theorem alike_throw_bind (fault : EngineFault) (f g : α → Execution S R β) :
    Alike c settings noise (throw fault >>= f) (throw fault >>= g) :=
  fun _ _ h => ⟨rfl, h⟩

theorem Alike.bind {x y : Execution S R α} {f g : α → Execution S R β}
    (hxy : Alike c settings noise x y) (hfg : ∀ a, Alike c settings noise (f a) (g a)) :
    Alike c settings noise (x >>= f) (y >>= g) := by
  intro run run' hruns
  obtain ⟨hresult, hafter⟩ := hxy run run' hruns
  rw [outcome_bind, outcome_bind]
  generalize x.outcome run = ended at hresult hafter ⊢
  generalize y.outcome run' = ended' at hresult hafter ⊢
  obtain ⟨result, after⟩ := ended
  obtain ⟨result', after'⟩ := ended'
  obtain rfl : result' = result := hresult
  -- a fault is the end of both, and after a value both go on from twin runs
  cases result' with
  | error fault => exact ⟨rfl, hafter⟩
  | ok a => exact hfg a after after' hafter

/-- The engines may be read, and what is done with them may depend on what twins share. -/
theorem alike_current_bind {f g : Engine S R → Execution S R β}
    (hfg : ∀ engine engine', Twins c settings noise engine engine' →
      Alike c settings noise (f engine) (g engine')) :
    Alike c settings noise (current >>= f) (current >>= g) :=
  fun run run' hruns => hfg run.engine run'.engine hruns.engines run run' hruns

theorem alike_update {f g : Engine S R → Engine S R}
    (hfg : ∀ engine engine', Twins c settings noise engine engine' →
      Twins c settings noise (f engine) (g engine')) :
    Alike c settings noise (update f) (update g) :=
  fun _ _ hruns => ⟨rfl, hfg _ _ hruns.engines, hruns.draws_eq, hruns.events_eq⟩

theorem alike_tell (logger text : String) :
    Alike c settings noise (tell logger text : Execution S R Unit) (tell logger text) :=
  fun _ _ hruns =>
    ⟨rfl, hruns.engines, hruns.draws_eq, congrArg (· ++ [Event.mk logger text]) hruns.events_eq⟩

theorem alike_tellAll (events : List Event) :
    Alike c settings noise (tellAll events : Execution S R Unit) (tellAll events) :=
  fun _ _ hruns => ⟨rfl, hruns.engines, hruns.draws_eq, congrArg (· ++ events) hruns.events_eq⟩

theorem alike_lift (x : Except EngineFault α) :
    Alike c settings noise (liftM x : Execution S R α) (liftM x) := by
  intro run run' hruns
  cases x <;> exact ⟨rfl, hruns⟩

/-- The same is drawn, and what is known of everything that can be drawn is known of it. -/
theorem alike_drawing_bind {sampling : Sampling S α} {f g : α → Execution S R β} {P : α → Prop}
    (hP : ∀ draws a draws', sampling.run.run draws = (.ok a, draws') → P a)
    (hfg : ∀ a, P a → Alike c settings noise (f a) (g a)) :
    Alike c settings noise (drawing sampling >>= f) (drawing sampling >>= g) := by
  intro run run' hruns
  rw [outcome_bind, outcome_bind, outcome_drawing, outcome_drawing, hruns.draws_eq]
  rcases hdrawn : sampling.run.run run.draws with ⟨fault | a, draws⟩
  · exact ⟨rfl, hruns.engines, rfl, hruns.events_eq⟩
  · exact hfg a (hP _ _ _ hdrawn) _ _ ⟨hruns.engines, rfl, hruns.events_eq⟩

theorem alike_passThrough (map : StateVector R → Except StateFault (StateVector R)) :
    Alike c settings noise (passThrough map : Execution S R Unit) (passThrough map) := by
  unfold passThrough
  refine alike_current_bind fun engine engine' hengines => ?_
  rw [hengines.state_eq]
  cases map engine.state with
  | error fault => exact alike_throw _
  | ok state => exact alike_update fun _ _ hengines => hengines.withState state

theorem alike_forM {items : List γ} {body : γ → Execution S R Unit}
    (h : ∀ item, Alike c settings noise (body item) (body item)) :
    Alike c settings noise (items.forM body) (items.forM body) := by
  induction items with
  | nil => exact alike_pure ()
  | cons item items ih => exact (h item).bind fun _ => ih

/-- Twins take over what a measurement found alike. -/
theorem alike_record (step : MeasureStep) (ip : Int) (state : StateVector R) (outcome : Nat)
    (prob : S) :
    Alike c settings noise (record step ip state outcome prob) (record step ip state outcome prob) := by
  unfold record writeDit retire
  -- the new state, then the dit, then the qudits that leave: each stage starts from twins
  refine (alike_update fun _ _ hengines => hengines.withState state).bind fun _ => ?_
  refine Alike.bind (alike_current_bind fun engine engine' hengines => ?_) fun _ => ?_
  · rw [hengines.dits_eq]
    cases placeOf? step.dit engine.dits.length with
    | none => exact alike_throw _
    | some place =>
      exact alike_update fun _ _ hengines => hengines.withDits (·.set place outcome) (·.set place prob)
  · refine alike_current_bind fun engine engine' hlayout => ?_
    rw [hlayout.layout_eq]
    refine (alike_update fun _ _ hengines => hengines.withLayout ?_).bind fun _ => ?_
    · exact (Layout.size_retireAll _ _ _).trans hlayout.size_layout
    · split
      · exact alike_pure ()
      · exact alike_throw _

theorem alike_checkNorm [Scalar R] :
    Alike c settings noise (checkNorm : Execution S R Unit) checkNorm := by
  unfold checkNorm
  refine alike_current_bind fun engine engine' hengines => ?_
  rw [hengines.state_eq, hengines.settings'_eq, hengines.settings_eq]
  split
  · split
    · exact alike_pure ()
    · exact alike_throw _
  · exact alike_pure ()

theorem alike_performGate [Scalar S] [Scalar R] [Rounding S R] (checking : Bool)
    (circuit : Circuit S) (ip : Int) (step : GateStep) (controls targets : List Int) :
    Alike c settings noise (performGate checking circuit ip step controls targets : Execution S R Unit)
      (performGate checking circuit ip step controls targets) := by
  unfold performGate
  refine alike_current_bind fun engine engine' hengines => ?_
  rw [hengines.dits_eq]
  refine (alike_lift _).bind fun maps => (alike_tellAll _).bind fun _ => ?_
  exact alike_forM fun map => alike_passThrough map

end Twins

/-! ## Steps of twins -/

section Steps

open Execution

variable {S R : Type} [Scalar S] [Scalar R] [Rounding S R] [Rounding R S] {c : Circuit S}
  {settings : EngineSettings} {noise : Option (Channel S)}

/-- Whatever a trajectory draws, its channel stays the same. -/
theorem trajectory_of_apply {model : Trajectory S} {state : StateVector R} {position : Nat}
    {draws draws' : Draws S} {found : NoiseModel S × StateVector R}
    (h : ((NoiseModel.trajectory model).apply state position).run.run draws = (.ok found, draws')) :
    ∃ model' : Trajectory S, found.1 = .trajectory model' ∧ model'.channel = model.channel := by
  unfold NoiseModel.apply at h
  obtain ⟨⟨model', state'⟩, draws'', hdrawn, hreturn⟩ := Sampling.run_bind_eq_ok.mp h
  cases hreturn
  exact ⟨model', rfl, Trajectory.channel_of_apply hdrawn⟩

theorem alike_noiseOn (place : Nat) (positions : List Nat) (state : StateVector R) :
    Alike c settings noise (noiseOn place positions state : Execution S R (StateVector R))
      (noiseOn place positions state) := by
  -- each position is handed the state that the one before it left
  induction positions generalizing state with
  | nil => exact alike_pure state
  | cons position rest ih =>
    unfold noiseOn
    refine alike_current_bind fun engine engine' hengines => ?_
    have htwins := hengines.preStep
    generalize engine.preStep = preStep at htwins ⊢
    generalize engine'.preStep = preStep' at htwins ⊢
    cases htwins with
    | nothing => exact alike_pure state
    | @noise channel model model' hchannel hchannel' branches =>
      dsimp only
      rw [NoiseModel.apply_eq_of_channel (hchannel'.trans hchannel.symm)]
      refine alike_drawing_bind (fun _ _ _ => trajectory_of_apply) fun found hfound => ?_
      obtain ⟨_, state⟩ := found
      obtain ⟨drawn, rfl, hdrawn⟩ := hfound
      -- what was drawn last is the same from here on
      have hkept : drawn.channel = channel := hdrawn.trans hchannel
      refine (alike_update fun _ _ hengines => ?_).bind fun _ => ?_
      · exact hengines.withPreStep (.noise hkept hkept _)
      · exact (alike_tellAll _).bind fun _ => ih state

theorem alike_prepare (checking : Bool) (view : StepView) :
    Alike c settings noise (prepare checking view : Execution S R Unit) (prepare checking view) := by
  unfold prepare
  refine alike_current_bind fun engine engine' hengines => ?_
  have htwins := hengines.preStep
  generalize engine.preStep = preStep at htwins ⊢
  generalize engine'.preStep = preStep' at htwins ⊢
  cases htwins with
  | nothing => exact alike_pure ()
  | noise hchannel hchannel' branches =>
    unfold injectNoise
    refine (alike_update fun _ _ hengines => ?_).bind fun _ => ?_
    · exact hengines.withPreStep (.noise hchannel hchannel' _)
    · dsimp only
      cases placeOf? view.ip (extendedTo view.ip branches).length with
      | none => exact alike_throw _
      | some place =>
        refine alike_current_bind fun engine engine' hengines => ?_
        rw [hengines.state_eq, hengines.layout_eq]
        refine (alike_noiseOn place _ _).bind fun state => ?_
        refine alike_current_bind fun engine engine' hengines => ?_
        rw [hengines.noiseBranches_eq]
        exact (alike_tell _ _).bind fun _ => alike_update fun _ _ hengines => hengines.withState state

/-- A measurement in a basis of its own, for an engine. -/
def inBasis (checking : Bool) (c : Circuit S) (ip : Int) (step : MeasureStep) (targets : List Int)
    (engine : Engine S R) : Execution S R Unit :=
  match step.keys.head? with
  | none => throw .noBasis
  | some key => do
    let basis ← operandOf c key
    let found ← drawing (engine.state.measure checking (Rounding.round basis) (targets.map .int)
      (.nat c.dim))
    let prob := found.weights.getD found.outcome 0
    record step ip (found.states.getD found.outcome #[]) found.outcome prob
    tell Event.engineLogger
      (outcomeText ip ("qudits " ++ Text.integers step.targets) found.outcome prob)

/-- A measurement with a basis of its own is one in that basis. -/
theorem performMeasurement_eq_inBasis {checking : Bool} {c : Circuit S} {ip : Int}
    {step : MeasureStep} {targets : List Int}
    (h : step.kind = .basis ∨ step.kind = .jointBasis) :
    (performMeasurement checking c ip step targets : Execution S R Unit) =
      current >>= inBasis checking c ip step targets := by
  unfold performMeasurement inBasis
  generalize step.kind = kind at h ⊢
  rcases h with rfl | rfl
  · rfl
  · rfl

theorem alike_performMeasurement (checking : Bool) (circuit : Circuit S) (ip : Int)
    (step : MeasureStep) (targets : List Int) :
    Alike c settings noise (performMeasurement checking circuit ip step targets : Execution S R Unit)
      (performMeasurement checking circuit ip step targets) := by
  have hbasis (h : step.kind = .basis ∨ step.kind = .jointBasis) :
      Alike c settings noise
        (performMeasurement checking circuit ip step targets : Execution S R Unit)
        (performMeasurement checking circuit ip step targets) := by
    -- stated once for the two kinds of measurements that have a basis of their own
    rw [performMeasurement_eq_inBasis h]
    refine alike_current_bind fun engine engine' hengines => ?_
    unfold inBasis
    rw [hengines.state_eq]
    cases step.keys.head? with
    | none => exact alike_throw _
    | some key =>
      refine (alike_lift _).bind fun basis => ?_
      refine alike_drawing_bind (P := fun _ => True) (fun _ _ _ _ => trivial) fun found _ => ?_
      exact (alike_record _ _ _ _ _).bind fun _ => alike_tell _ _
  cases hkind : step.kind with
  | none =>
    unfold performMeasurement
    rw [hkind]
    exact alike_current_bind fun _ _ _ => alike_pure ()
  | standard =>
    unfold performMeasurement
    rw [hkind]
    refine alike_current_bind fun engine engine' hengines => ?_
    rw [hengines.state_eq]
    refine alike_drawing_bind (P := fun _ => True) (fun _ _ _ _ => trivial) fun found _ => ?_
    exact (alike_record _ _ _ _ _).bind fun _ => alike_tell _ _
  | basis => exact hbasis (.inl hkind)
  | jointBasis => exact hbasis (.inr hkind)

/-- A step ends alike for twins, whether it succeeds or fails. -/
theorem alike_execute (checking : Bool) (circuit : Circuit S) (view : StepView) :
    Alike c settings noise (execute checking circuit view : Execution S R Unit)
      (execute checking circuit view) := by
  unfold execute
  refine alike_current_bind fun engine engine' hengines => ?_
  rw [hengines.resolve_eq, hengines.serial'_eq, hengines.serial_eq]
  dsimp only
  -- the views of other circuits are refused before anything is read of the noise
  split
  · exact alike_throw_bind _ _ _
  · refine (alike_lift _).bind fun task => (alike_prepare _ _).bind fun _ => ?_
    refine (alike_tell _ _).bind fun _ => ?_
    cases task with
    | gate step controls targets =>
      exact (alike_performGate _ _ _ _ _ _).bind fun _ => alike_checkNorm
    | measurement step targets =>
      exact (alike_performMeasurement _ _ _ _ _).bind fun _ => alike_checkNorm

/-- A run of a circuit ends alike for twins. -/
theorem alike_runAll (checking : Bool) (circuit : Circuit S) :
    Alike c settings noise (runAll checking circuit : Execution S R Unit)
      (runAll checking circuit) :=
  alike_forM fun view => alike_execute checking circuit view

end Steps

end Engine

end QuditSim
