import QuditSim.Proofs.Engine.Reachable
import QuditSim.Proofs.Exact

/-!
# Engines that are reset

An engine that was reset cannot be told apart from a new one on the same circuit. A reset writes
anew what an engine holds, and keeps what it was made with and what its noise drew last.

- `Engine.Twins.reset_eq_start`: a reset engine is a new one with noise that may have drawn
  something.
- `Session` is a circuit with an engine that is bound to it, and `Session.serve` answers calls to
  both.
- `Session.Twins.serve` and `Session.Twins.answers_eq`: twins give the same answers, to one call and
  to any number of them.
- `Session.reset_like_start`: after any calls, a reset engine answers like a new one.
-/

namespace QuditSim

namespace Engine

/-! ## Engines at the start -/

section Start

variable {S R : Type} {c : Circuit S} {settings : EngineSettings} {noise : Option (Channel S)}

/-- What an engine shows: its state, the dits with their probabilities, where the qudits are, and
the branches of noise if there is any. -/
structure Shown (S R : Type) where
  /-- The state. -/
  state : StateVector R
  /-- The values of the dits. -/
  dits : List Nat
  /-- The probabilities with which they were written. -/
  probs : List S
  /-- Where the qudits are. -/
  layout : Layout
  /-- The branches of noise by step. -/
  noiseBranches : Option (List (List Nat))

/-- What the engine shows. -/
def shows (engine : Engine S R) : Shown S R :=
  ⟨engine.state, engine.dits, engine.probs, engine.layout, engine.noiseBranches?⟩

/-- A question to an engine. -/
inductive Question where
  /-- The value of a dit. -/
  | dit (i : Argument)
  /-- The position of a qudit. -/
  | position (i : Argument)
  /-- Whether a qudit was measured. -/
  | isMeasured (i : Argument)
  /-- The text that shows the engine. -/
  | text
  /-- The listing of the classical results. -/
  | listing

/-- What an engine replies. -/
inductive Reply where
  /-- It did what it was asked for. -/
  | done
  /-- The value of a dit. -/
  | value (n : Nat)
  /-- The position of a qudit, and none for a measured one. -/
  | position (position : Option Nat)
  /-- Whether something is so. -/
  | truth (holds : Bool)
  /-- A text. -/
  | text (text : String)

/-- The reply to a question. -/
def reply [Scalar S] (engine : Engine S R) (c : Circuit S) : Question → Except EngineFault Reply
  | .dit i => (engine.dit i).map .value
  | .position i => ((engine.layout.position? i).mapError .ofLayout).map .position
  | .isMeasured i => ((engine.layout.isMeasured i).mapError .ofLayout).map .truth
  | .text => .ok (.text (engine.shown c))
  | .listing => .ok (.text engine.listing)

/-- Twins show the same. -/
theorem Twins.shows_eq {engine engine' : Engine S R} (h : Twins c settings noise engine engine') :
    engine'.shows = engine.shows := by
  unfold shows
  rw [h.state_eq, h.dits_eq, h.probs_eq, h.layout_eq, h.noiseBranches_eq]

/-- Twins reply the same. -/
theorem Twins.reply_eq [Scalar S] {engine engine' : Engine S R}
    (h : Twins c settings noise engine engine') (circuit : Circuit S) (question : Question) :
    engine'.reply circuit question = engine.reply circuit question := by
  cases question with
  | dit i => exact congrArg (Except.map Reply.value) (h.dit_eq i)
  | position i | isMeasured i =>
    unfold reply
    rw [h.layout_eq]
  | text =>
    unfold reply shown measured
    rw [h.isNoisy_eq, h.layout_eq, h.dits_eq]
  | listing =>
    unfold reply listing measured
    rw [h.layout_eq, h.dits_eq, h.probs_eq, h.noiseBranches_eq]

/-- Engines stay twins when their circuit gets a call. -/
theorem Twins.attempt [Scalar S] {engine engine' : Engine S R}
    (h : Twins c settings noise engine engine') (call : Call S) :
    Twins (c.attempt call) settings noise engine engine' := by
  obtain ⟨hserial, hqudits, -, -⟩ := c.attempt_eq call
  exact ⟨hserial ▸ h.serial_eq, h.settings_eq, hqudits ▸ h.size_layout, h.preStep, h.eq_but_preStep⟩

/-- What is done before the steps of a new engine, without noise or with that of a trajectory. -/
def freshPreStep (c : Circuit S) (model : Option (Trajectory S)) : PreStep S R :=
  model.elim .nothing fun model => freshNoise c (.trajectory model)

/-- An engine is made without noise, or with that of a channel of the dimension of its circuit. -/
theorem preStepFor_eq_ok {model : Option (Trajectory S)} {preStep : PreStep S R} :
    preStepFor c (model.map .trajectory) = .ok preStep ↔
      (∀ channel ∈ model.map Trajectory.channel, channel.dim = c.dim) ∧
        preStep = freshPreStep c model := by
  cases model with
  | none => simp [preStepFor, freshPreStep, eq_comm]
  | some model =>
    have hdim : ((NoiseModel.trajectory model).dim.sameValue (.nat c.dim) = true) ↔
        model.channel.dim = c.dim := by simp [NoiseModel.dim, Argument.nat]
    simp only [Option.map_some, preStepFor, freshPreStep, hdim, Option.mem_some_iff, forall_eq',
      Option.elim_some]
    split
    · next heq => simp [heq, eq_comm]
    · next hne => simp [hne]

variable [Scalar S] [Scalar R]

/-- New engines with noise of the same channel are twins. -/
theorem twins_start {model model' : Option (Trajectory S)}
    (hmodel : model.map Trajectory.channel = noise)
    (hmodel' : model'.map Trajectory.channel = noise) :
    Twins c settings noise (start c settings (freshPreStep c model) : Engine S R)
      (start c settings (freshPreStep c model')) := by
  refine ⟨rfl, rfl, Layout.size_start _, ?_, rfl⟩
  cases noise with
  | none =>
    obtain rfl := Option.map_eq_none_iff.mp hmodel
    obtain rfl := Option.map_eq_none_iff.mp hmodel'
    exact .nothing
  | some channel =>
    obtain ⟨model, rfl, hchannel⟩ := Option.map_eq_some_iff.mp hmodel
    obtain ⟨model', rfl, hchannel'⟩ := Option.map_eq_some_iff.mp hmodel'
    exact .noise hchannel hchannel' _

namespace Twins

variable {engine engine' : Engine S R} (h : Twins c settings noise engine engine')

include h

/-- A reset engine is a new one with noise of its channel. -/
theorem reset_eq_start : ∃ model : Option (Trajectory S), model.map Trajectory.channel = noise ∧
    engine.reset c = start c settings (freshPreStep c model) := by
  have htwins := h.preStep
  -- of what a reset keeps, only the noise can have changed since the engine was made
  unfold Engine.reset Layout.reset start
  rw [h.serial_eq, h.settings_eq, h.size_layout]
  generalize engine.preStep = preStep at htwins ⊢
  generalize engine'.preStep = preStep' at htwins
  cases htwins with
  | nothing => exact ⟨none, rfl, rfl⟩
  | @noise channel model _ hchannel _ branches => exact ⟨some model, congrArg some hchannel, rfl⟩

/-- Twins that are reset are twins. -/
theorem reset : Twins c settings noise (engine.reset c) (engine'.reset c) := by
  obtain ⟨model, hmodel, hreset⟩ := h.reset_eq_start
  obtain ⟨model', hmodel', hreset'⟩ := h.symm.reset_eq_start
  rw [hreset, hreset']
  exact twins_start hmodel hmodel'

end Twins

end Start

end Engine

/-! ## Sessions -/

/-- A call to an engine, or to the circuit that it is bound to. -/
inductive EngineCall (S : Type) where
  /-- The circuit gets a call. -/
  | append (call : Call S)
  /-- A step is executed. -/
  | execute (checking : Bool) (view : StepView)
  /-- The step that a cursor stands on is executed. -/
  | executeAt (checking : Bool) (attached : Option (Circuit S)) (cursor : Cursor)
  /-- The circuit is run. -/
  | run (checking : Bool)
  /-- A dit is set. -/
  | setDit (i value : Argument)
  /-- The engine is reset. -/
  | reset
  /-- Something is asked. -/
  | ask (question : Engine.Question)

/-- A circuit as it is at the moment, with a run of an engine that is bound to it. -/
structure Session (S R : Type) where
  /-- The circuit. -/
  circuit : Circuit S
  /-- The engine, what is left of chance, and what was told. -/
  run : Run S R

/-- What a call to an engine is answered with. -/
structure Answer (S R : Type) where
  /-- The reply, or why there is none. -/
  result : Except EngineFault Engine.Reply
  /-- What the engine shows after it. -/
  shown : Engine.Shown S R
  /-- What is left of chance. -/
  draws : Draws S
  /-- What was told up to then. -/
  events : List Event

namespace Session

open Execution

variable {S R : Type} {settings : EngineSettings} {noise : Option (Channel S)}

/-- The session after an execution, with the result of that. -/
def carryOut (session : Session S R) (execution : Execution S R Unit) :
    Except EngineFault Engine.Reply × Session S R :=
  let (result, run) := execution.outcome session.run
  (result.map fun _ => .done, { session with run := run })

/-- Two sessions have the same circuit, which can be held and has the dimension of the noise, and
the runs of twins. -/
structure Twins [Capacity] (settings : EngineSettings) (noise : Option (Channel S))
    (session session' : Session S R) : Prop where
  /-- The circuits are the same. -/
  circuit_eq : session'.circuit = session.circuit
  /-- The circuit can be held. -/
  extents : Engine.checkExtents session.circuit = .ok ()
  /-- It has the dimension of the noise. -/
  dim_eq : ∀ channel ∈ noise, channel.dim = session.circuit.dim
  /-- The runs are those of twins. -/
  runs : Engine.TwinRuns session.circuit settings noise session.run session'.run

/-- An execution ends alike in twin sessions. -/
theorem Twins.carryOut [Capacity] {session session' : Session S R}
    (h : Twins settings noise session session') {execution : Execution S R Unit}
    (halike : Engine.Alike session.circuit settings noise execution execution) :
    (session'.carryOut execution).1 = (session.carryOut execution).1 ∧
      Twins settings noise (session.carryOut execution).2 (session'.carryOut execution).2 := by
  obtain ⟨hresult, hruns⟩ := halike _ _ h.runs
  exact ⟨congrArg (Except.map fun _ => Engine.Reply.done) hresult,
    h.circuit_eq, h.extents, h.dim_eq, hruns⟩

/-- New engines with noise of the same channel are in twin sessions. -/
theorem twins_start [Capacity] [Scalar S] [Scalar R] {c : Circuit S}
    {model model' : Option (Trajectory S)} (hmodel : model.map Trajectory.channel = noise)
    (hmodel' : model'.map Trajectory.channel = noise) (hextents : Engine.checkExtents c = .ok ())
    (hdim : ∀ channel ∈ noise, channel.dim = c.dim) (draws : Draws S) (events : List Event) :
    Twins settings noise
      (⟨c, Engine.start c settings (Engine.freshPreStep c model), draws, events⟩ : Session S R)
      ⟨c, Engine.start c settings (Engine.freshPreStep c model'), draws, events⟩ :=
  ⟨rfl, hextents, hdim, Engine.twins_start hmodel hmodel', rfl, rfl⟩

variable [Scalar S] [Scalar R] [Rounding S R] [Rounding R S]

/-- The session after a call, with the result of the call. What was done before a failure stays
done. -/
def serve (session : Session S R) :
    EngineCall S → Except EngineFault Engine.Reply × Session S R
  | .append call => (.ok .done, { session with circuit := session.circuit.attempt call })
  | .execute checking view => session.carryOut (Engine.execute checking session.circuit view)
  | .executeAt checking attached cursor =>
    match session.run.engine.viewAt attached cursor with
    | .ok (view, _) => session.carryOut (Engine.execute checking session.circuit view)
    | .error failure => (.error (.located failure), session)
  | .run checking => session.carryOut (Engine.runAll checking session.circuit)
  | .setDit i value =>
    match session.run.engine.setDit i value with
    | .ok engine => (.ok .done, { session with run := { session.run with engine := engine } })
    | .error fault => (.error fault, session)
  | .reset => session.carryOut do
    Engine.update fun engine => engine.reset session.circuit
    Engine.tellAll [Engine.resetEvent session.circuit]
  | .ask question => (session.run.engine.reply session.circuit question, session)

/-- The answer to a call. -/
def answer (session : Session S R) (call : EngineCall S) : Answer S R :=
  let (result, after) := session.serve call
  ⟨result, after.run.engine.shows, after.run.draws, after.run.events⟩

/-- The session after calls. -/
def after (session : Session S R) : List (EngineCall S) → Session S R
  | [] => session
  | call :: calls => (session.serve call).2.after calls

/-- The answers to calls that are made one after the other. -/
def answers (session : Session S R) : List (EngineCall S) → List (Answer S R)
  | [] => []
  | call :: calls => session.answer call :: (session.serve call).2.answers calls

namespace Twins

variable [Capacity] {session session' : Session S R}
  (h : Twins settings noise session session')

include h

/-- A call has the same result in twin sessions, and leaves them twins. -/
theorem serve (call : EngineCall S) :
    (session'.serve call).1 = (session.serve call).1 ∧
      Twins settings noise (session.serve call).2 (session'.serve call).2 := by
  have hengines := h.runs.engines
  unfold Session.serve
  rw [h.circuit_eq]
  cases call with
  | append call =>
    -- a call to the circuit leaves all of it that an engine is made with
    obtain ⟨-, hqudits, hdits, hdim⟩ := session.circuit.attempt_eq call
    refine ⟨rfl, rfl, ?_, fun channel hchannel => ?_, ?_⟩
    · have hextents := h.extents
      unfold Engine.checkExtents at hextents ⊢
      rw [hqudits, hdits, hdim]
      exact hextents
    · exact (h.dim_eq channel hchannel).trans hdim.symm
    · exact ⟨hengines.attempt call, h.runs.draws_eq, h.runs.events_eq⟩
  | execute checking view => exact h.carryOut (Engine.alike_execute checking _ view)
  | executeAt checking attached cursor =>
    dsimp only
    rw [hengines.viewAt_eq]
    split
    · next view _ _ => exact h.carryOut (Engine.alike_execute checking _ view)
    · exact ⟨rfl, h⟩
  | run checking => exact h.carryOut (Engine.alike_runAll checking _)
  | setDit i value =>
    dsimp only
    rcases hengines.setDit_cases i value with ⟨fault, heq, heq'⟩ | ⟨f, heq, heq'⟩
    · rw [heq, heq']
      exact ⟨rfl, h⟩
    · rw [heq, heq']
      have hset : Engine.TwinRuns session.circuit settings noise
          { session.run with engine := { session.run.engine with dits := f session.run.engine.dits } }
          { session'.run with
            engine := { session'.run.engine with dits := f session'.run.engine.dits } } :=
        ⟨hengines.withDits f id, h.runs.draws_eq, h.runs.events_eq⟩
      exact ⟨rfl, rfl, h.extents, h.dim_eq, hset⟩
  | reset =>
    refine h.carryOut ((Engine.alike_update fun _ _ hengines => ?_).bind fun _ =>
      Engine.alike_tellAll _)
    exact hengines.reset
  | ask question => exact ⟨hengines.reply_eq _ question, h⟩

/-- Twin sessions answer a call alike. -/
theorem answer_eq (call : EngineCall S) : session'.answer call = session.answer call := by
  obtain ⟨hresult, hafter⟩ := h.serve call
  unfold Session.answer
  dsimp only
  rw [hresult, hafter.runs.engines.shows_eq, hafter.runs.draws_eq, hafter.runs.events_eq]

/-- Twin sessions answer any calls alike. -/
theorem answers_eq (calls : List (EngineCall S)) :
    session'.answers calls = session.answers calls := by
  -- the next calls are made to the sessions that the first one left, which are twins again
  induction calls generalizing session session' with
  | nil => rfl
  | cons call calls ih =>
    unfold Session.answers
    rw [h.answer_eq call, ih (h.serve call).2]

/-- After any calls, twin sessions are twins. -/
theorem after (calls : List (EngineCall S)) :
    Twins settings noise (session.after calls) (session'.after calls) := by
  induction calls generalizing session session' with
  | nil => exact h
  | cons call calls ih => exact ih (h.serve call).2

end Twins

/-- An engine that was reset after any calls, of which some may have failed, shows what a new engine
on the circuit as it is then shows, and both answer any further calls alike. The new engine has the
same settings and noise of the same channel, which may have drawn anything before. -/
theorem reset_like_start [Capacity] {c : Circuit S} (model model' : Option (Trajectory S))
    {preStep : PreStep S R} (hpreStep : Engine.preStepFor c (model.map .trajectory) = .ok preStep)
    (hextents : Engine.checkExtents c = .ok ())
    (hmodel' : model'.map Trajectory.channel = model.map Trajectory.channel) (draws : Draws S)
    (events : List Event) (history : List (EngineCall S)) :
    let session : Session S R :=
      after ⟨c, Engine.start c settings preStep, draws, events⟩ history
    let c' := session.circuit
    let engine := session.run.engine.reset c'
    Engine.checkExtents c' = .ok () ∧
      ∃ preStep' : PreStep S R, Engine.preStepFor c' (model'.map .trajectory) = .ok preStep' ∧
        engine.shows = (Engine.start c' settings preStep').shows ∧
        ∀ (calls : List (EngineCall S)) (draws : Draws S) (events : List Event),
          answers ⟨c', engine, draws, events⟩ calls =
            answers ⟨c', Engine.start c' settings preStep', draws, events⟩ calls := by
  intro session c' engine
  obtain ⟨hdim, rfl⟩ := Engine.preStepFor_eq_ok.mp hpreStep
  -- a session is a twin of itself, which says what its engine was made with
  have hsession : Twins settings (model.map Trajectory.channel) session session :=
    (twins_start rfl rfl hextents hdim draws events).after history
  -- the noise of the reset engine has drawn something, and that of the new one something else
  obtain ⟨drawn, hdrawn, hreset⟩ := hsession.runs.engines.reset_eq_start
  have hengine : engine = Engine.start c' settings (Engine.freshPreStep c' drawn) := hreset
  have htwins (draws : Draws S) (events : List Event) : Twins settings (model.map Trajectory.channel)
      (⟨c', engine, draws, events⟩ : Session S R)
      ⟨c', Engine.start c' settings (Engine.freshPreStep c' model'), draws, events⟩ := by
    rw [hengine]
    exact twins_start hdrawn hmodel' hsession.extents hsession.dim_eq draws events
  have hpreStep' : ∀ channel ∈ model'.map Trajectory.channel, channel.dim = c'.dim := by
    rw [hmodel']
    exact hsession.dim_eq
  refine ⟨hsession.extents, Engine.freshPreStep c' model',
    Engine.preStepFor_eq_ok.mpr ⟨hpreStep', rfl⟩, ?_, fun calls draws events => ?_⟩
  · exact (htwins draws events).runs.engines.shows_eq.symm
  · exact ((htwins draws events).answers_eq calls).symm

section

attribute [local instance] Capacity.common

/-- A qubit with noise that is run, gets one more gate, is run once more and refuses a dit that is
not there. The new engine is given noise that has drawn something else. -/
theorem reset_like_start_flip :
    let c : Circuit ℝ := (Circuit.empty 0 1 1 2 "" (fun _ => "") fun _ => 0).attemptAll
      [.gate (.operator Gate.pauliX) [.int 0] ""]
    let channel : Channel ℝ := ⟨.string "idle", 2, [.identity 2, .matrix 2 2 fun _ _ => 0]⟩
    let history : List (EngineCall ℝ) :=
      [.run true, .append (.gate (.operator Gate.pauliX) [.int 0] ""), .run true,
        .setDit (.int 1) (.int 1)]
    let session : Session ℝ ℝ :=
      after ⟨c, Engine.start c {} (Engine.freshNoise c (.trajectory (.start channel))), .ofList [], []⟩
        history
    let c' := session.circuit
    let engine := session.run.engine.reset c'
    ∃ preStep' : PreStep ℝ ℝ,
      Engine.preStepFor c' (some (.trajectory ⟨channel, 1, [0, 1]⟩)) = .ok preStep' ∧
        engine.shows = (Engine.start c' {} preStep').shows ∧
        ∀ (calls : List (EngineCall ℝ)) (draws : Draws ℝ) (events : List Event),
          answers ⟨c', engine, draws, events⟩ calls =
            answers ⟨c', Engine.start c' {} preStep', draws, events⟩ calls := by
  intro c channel history
  have hpreStep : (Engine.preStepFor c (some (.trajectory (.start channel))) :
      Except EngineFault (PreStep ℝ ℝ)) =
        .ok (Engine.freshNoise c (.trajectory (.start channel))) := rfl
  have hextents : Engine.checkExtents c = .ok () := rfl
  exact (reset_like_start (some (.start channel)) (some ⟨channel, 1, [0, 1]⟩) hpreStep hextents rfl
    (.ofList []) [] history).2

end

end Session

end QuditSim
