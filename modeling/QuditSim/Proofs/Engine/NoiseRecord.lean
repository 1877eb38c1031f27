import QuditSim.Proofs.Engine.Noise
import QuditSim.Proofs.Engine.Probability
import QuditSim.Proofs.Engine.Usage

/-!
# The record of noise

A noisy engine notes which branch its channel drew, for each step and each position. The circuit may
grow while the engine is used, so the record can be shorter than the circuit, and the register
shrinks with every measurement, so the lists of the record have different lengths.

- `Engine.Underway` is an engine that carries out the steps of its circuit in their order, from when it
  was made or reset on, with the runs before each of them.
- `Engine.ends_execute_noise` is the step lemma: a step adds one list, in which there is a branch for
  each position of the state before the step.
- `Engine.Traced` is the invariant, and `Engine.Underway.traced` is the induction over the steps.
- `Engine.noise_recorded` says what is in the record at each moment, and what is in it at the start.
-/

namespace QuditSim

/-- A call leaves what was measured by the steps before it. -/
theorem Circuit.measuredAfter_attempt {S : Type} [Scalar S] {c : Circuit S} (h : c.WellFormed)
    (call : Call S) {t : Nat} (ht : t ≤ c.log.length) :
    (c.attempt call).measuredAfter t = c.measuredAfter t := by
  have hextends : c.Extends (c.attempt call) := extends_attemptAll h.ordered [call]
  obtain ⟨more, hmore⟩ := hextends.log
  unfold measuredAfter
  rw [← hmore, List.take_append_of_le_length ht]

namespace Engine

open Execution

variable {S R : Type}

/-! ## Extended records -/

/-- What is in an extended record was there, or it is empty. -/
theorem mem_of_extendedTo {ip : Int} {branches : List (List Nat)} {i : Nat} {record : List Nat}
    (h : (extendedTo ip branches)[i]? = some record) : branches[i]? = some record ∨ record = [] := by
  unfold extendedTo at h
  rw [List.getElem?_append] at h
  split at h
  · exact .inl h
  · exact .inr (List.eq_of_mem_replicate (List.mem_of_getElem? h))

/-- An extended record has what was there. -/
theorem getElem?_extendedTo {ip : Int} {branches : List (List Nat)} {i : Nat} {record : List Nat}
    (h : branches[i]? = some record) : (extendedTo ip branches)[i]? = some record := by
  unfold extendedTo
  rw [List.getElem?_append_left (List.getElem?_eq_some_iff.mp h).1, h]

/-- An extended record has a list at its place. -/
theorem exists_getElem?_extendedTo (ip : Nat) (branches : List (List Nat)) :
    ∃ record, (extendedTo ip branches)[ip]? = some record := by
  have hlt : ip < (extendedTo ip branches).length := by
    unfold extendedTo
    rw [List.length_append, List.length_replicate]
    omega
  exact ⟨_, List.getElem?_eq_getElem hlt⟩

/-- The noisy engines are those that have a record. -/
theorem isNoisy_iff {engine : Engine S R} :
    engine.isNoisy = true ↔ ∃ branches, engine.noiseBranches? = some branches := by
  unfold isNoisy noiseBranches?
  cases engine.preStep <;> simp

variable [Scalar S] [Scalar R] {c : Circuit S}

/-- The record of a noisy engine that was just made has an empty list for each step of the circuit. -/
theorem Made.branches_eq [Capacity] {engine : Engine S R} (h : Made c engine)
    (hnoisy : engine.isNoisy = true) :
    engine.noiseBranches? = some (List.replicate c.stepCount []) := by
  obtain ⟨settings, noise, preStep, -, -, -, hpreStep⟩ := h
  cases noise with
  | none =>
    cases hpreStep
    cases hnoisy
  | some channel =>
    simp only [Option.map_some, preStepFor] at hpreStep
    split at hpreStep
    · cases hpreStep
      rfl
    · cases hpreStep

/-- The record of an engine that was just reset has an empty list for each step of the circuit, if
there is one. -/
theorem noiseBranches?_reset (c : Circuit S) (engine : Engine S R) :
    (engine.reset c).noiseBranches? =
      engine.noiseBranches?.map fun _ => List.replicate c.stepCount [] := by
  unfold Engine.reset noiseBranches?
  cases engine.preStep <;> rfl

variable [Rounding S R] [Rounding R S]

/-- All lists of the record of a ready engine are empty. -/
theorem Ready.eq_nil [Capacity] {engine : Engine S R} {branches : List (List Nat)}
    (h : Ready c engine) (hbranches : engine.noiseBranches? = some branches) :
    ∀ record ∈ branches, record = [] := by
  induction h with
  | made h =>
    rw [h.branches_eq (isNoisy_iff.mpr ⟨branches, hbranches⟩)] at hbranches
    obtain rfl := Option.some.inj hbranches
    exact fun record hrecord => List.eq_of_mem_replicate hrecord
  | reset h =>
    rw [noiseBranches?_reset, Option.map_eq_some_iff] at hbranches
    obtain ⟨_, -, rfl⟩ := hbranches
    exact fun record hrecord => List.eq_of_mem_replicate hrecord
  | attempt h call ih => exact ih hbranches

/-! ## One step -/

section Step

variable {gone : List Int}

/-- An engine noted, at a place of its record, the branches that its channel drew at the positions of
the state of an engine before. -/
def Notes (c : Circuit S) (gone : List Int) (ip : Nat) (model : Trajectory S)
    (branches : List (List Nat)) (before : Run S R) (engine : Engine S R) : Prop :=
  ∃ model' record, engine.preStep =
      .noise (.trajectory model') ((extendedTo ip branches).modify ip (· ++ record)) ∧
    model'.channel = model.channel ∧
    DrawsRecord model before.engine.state before.draws c.dim 0 (Layout.place gone c.qudits) record

/-- A recorded step of a noisy engine adds to the record, at its place, the branches that the channel
draws at the positions of the state before the step. -/
theorem ends_execute_noise {checking : Bool} {run : Run S R} {step : Step} {ip : Nat}
    {model : Trajectory S} {branches : List (List Nat)} (hd : 2 ≤ c.dim)
    (h : Stands c gone run.engine) (hstep : step.Recorded c) (hlive : ∀ q ∈ step.qudits, q ∉ gone)
    (hpre : run.engine.preStep = .noise (.trajectory model) branches) :
    Ends (execute checking c (step.view c.serial ip)) run
      (fun _ run' => Notes c gone ip model branches run run'.engine) fun _ _ => True := by
  have hprepare {view : StepView} (hip : view.ip = ip) : Ends (prepare checking view) run
      (fun _ run' => Notes c gone ip model branches run run'.engine) fun _ _ => True := by
    refine (ends_prepare_below hip hd h hpre).mono (fun _ run' hrun' => ?_) fun _ _ _ => trivial
    obtain ⟨model', state', record, hengine, hbelow, hdraws⟩ := hrun'
    exact ⟨model', record, congrArg preStep hengine, Trajectory.channel_of_applyBelow hbelow, hdraws⟩
  -- what the noise noted is still there when the step was carried out
  have hkept {x : Execution S R Unit} {run' : Run S R}
      (hnotes : Notes c gone ip model branches run run'.engine)
      (hx : Leaves x run' fun run'' => run''.engine.preStep = run'.engine.preStep) :
      Ends x run' (fun _ run'' => Ends checkNorm run''
        (fun _ run₃ => Notes c gone ip model branches run run₃.engine) fun _ _ => True)
        fun _ _ => True := by
    refine hx.mono (fun _ run'' hrun'' => ?_) fun _ _ _ => trivial
    refine (ends_checkNorm run'').mono (fun _ run₃ hrun₃ => ?_) fun _ _ _ => trivial
    obtain ⟨model', record, hpreStep, hnoted⟩ := hnotes
    exact ⟨model', record, by rw [hrun₃, hrun'', hpreStep], hnoted⟩
  cases step with
  | gate step =>
    refine ends_execute h.fits.serial_eq.symm (resolve_gate h hstep hlive)
      ((hprepare rfl).mono (fun _ run₁ hnotes run₂ heq _ => ?_) fun _ _ _ => trivial)
    exact hkept (heq ▸ hnotes) (leaves_performGate_preStep ..)
  | measure step =>
    refine ends_execute h.fits.serial_eq.symm (resolve_measure h hstep hlive)
      ((hprepare rfl).mono (fun _ run₁ hnotes run₂ heq _ => ?_) fun _ _ _ => trivial)
    exact hkept (heq ▸ hnotes) (leaves_performMeasurement_preStep ..)

end Step

/-! ## Engines on their way -/

section Way

variable {channel : Channel S} {past : List (Run S R)} {run : Run S R}

/-- An engine with the noise of a channel carries out the steps of its circuit in their order, from
when it was made or reset on: the circuit as it then is, the runs before the steps that were carried
out, and the run now. -/
inductive Underway [Capacity] (channel : Channel S) :
    Circuit S → List (Run S R) → Run S R → Prop where
  /-- The engine was just made or just reset. -/
  | ready {c : Circuit S} {run : Run S R} {model : Trajectory S} {branches : List (List Nat)}
      (h : Ready c run.engine) (hpre : run.engine.preStep = .noise (.trajectory model) branches)
      (hchannel : model.channel = channel) : Underway channel c [] run
  /-- The circuit got one more call. -/
  | attempt {c : Circuit S} {past : List (Run S R)} {run : Run S R} (h : Underway channel c past run)
      (call : Call S) : Underway channel (c.attempt call) past run
  /-- The next step was executed, and it succeeded. -/
  | step {c : Circuit S} {past : List (Run S R)} {run run' : Run S R}
      (h : Underway channel c past run) (checking : Bool) (hip : past.length < c.log.length)
      (hrun : (execute checking c (c.log[past.length].view c.serial past.length)).outcome run =
        (.ok (), run')) : Underway channel c (past ++ [run]) run'

/-- What is noted for a step, seen from the run before it: there is a branch of the channel for each
qudit that no step before measured, and it is the one that the channel draws at that position. -/
structure Noted (channel : Channel S) (c : Circuit S) (i : Nat) (before : Run S R)
    (record : List Nat) : Prop where
  /-- There are as many branches as live qudits. -/
  length_add : record.length +
    ((List.range c.qudits).filter fun q : Nat => (q : Int) ∈ c.measuredAfter i).length = c.qudits
  /-- They are branches of the channel. -/
  lt : ∀ branch ∈ record, branch < channel.ops.length
  /-- Each is the one that the channel draws at its position. -/
  drawn : ∃ model branches, before.engine.preStep = .noise (.trajectory model) branches ∧
    ∀ j branch, record[j]? = some branch →
      model.DrawsAt before.engine.state before.draws c.dim j branch

/-- An engine on its way stands after the steps that it carried out, with a record in which there is
what was noted for them and nothing else. -/
structure Traced (channel : Channel S) (c : Circuit S) (past : List (Run S R)) (run : Run S R) :
    Prop where
  /-- The engine is sane. -/
  sane : Sane c run.engine
  /-- The circuit has the steps that were carried out. -/
  length_le : past.length ≤ c.log.length
  /-- The engine stands after them. -/
  stands : Stands c (c.measuredAfter past.length) run.engine
  /-- The record has what was noted. -/
  record : ∃ model branches, run.engine.preStep = .noise (.trajectory model) branches ∧
    model.channel = channel ∧
    (∀ i (hi : i < past.length), ∃ record, branches[i]? = some record ∧
      Noted channel c i past[i] record) ∧
    ∀ i record, past.length ≤ i → branches[i]? = some record → record = []

theorem Noted.attempt {i : Nat} {before : Run S R} {record : List Nat} (hc : c.WellFormed)
    (h : Noted channel c i before record) (call : Call S) (hi : i ≤ c.log.length) :
    Noted channel (c.attempt call) i before record := by
  obtain ⟨-, hqudits, -, hdim⟩ := c.attempt_eq call
  refine ⟨?_, h.lt, ?_⟩
  · rw [hqudits, Circuit.measuredAfter_attempt hc call hi]
    exact h.length_add
  · rw [hdim]
    exact h.drawn

theorem Traced.attempt (h : Traced channel c past run) (call : Call S) :
    Traced channel (c.attempt call) past run := by
  have hc := h.sane.wellFormed
  have hextends : c.Extends (c.attempt call) := Circuit.extends_attemptAll hc.ordered [call]
  obtain ⟨model, branches, hpre, hchannel, hnoted, hrest⟩ := h.record
  refine ⟨h.sane.attempt call, h.length_le.trans hextends.log.length_le, ?_,
    model, branches, hpre, hchannel, fun i hi => ?_, hrest⟩
  · rw [Circuit.measuredAfter_attempt hc call h.length_le]
    exact h.stands.attempt call
  · obtain ⟨record, hrecord, hnotes⟩ := hnoted i hi
    exact ⟨record, hrecord, hnotes.attempt hc call (hi.le.trans h.length_le)⟩

/-- What a step adds to a record that was empty from its place on. -/
theorem DrawsRecord.noted {gone : List Int} {ip : Nat} {model : Trajectory S}
    {branches : List (List Nat)} {record : List Nat}
    (hpre : run.engine.preStep = .noise (.trajectory model) branches)
    (hgone : c.measuredAfter ip = gone)
    (h : DrawsRecord model run.engine.state run.draws c.dim 0 (Layout.place gone c.qudits) record) :
    Noted model.channel c ip run record := by
  have hdraws (j branch : Nat) (hbranch : record[j]? = some branch) :
      model.DrawsAt run.engine.state run.draws c.dim j branch := by
    have hdraws := h.draws j branch hbranch
    rwa [Nat.zero_add] at hdraws
  refine ⟨?_, fun branch hbranch => ?_, model, branches, hpre, hdraws⟩
  · rw [h.length_eq, hgone]
    exact Layout.place_add_length_measured c.qudits gone
  · obtain ⟨j, hj⟩ := List.mem_iff_getElem?.mp hbranch
    exact (hdraws j branch hj).lt

/-- A step of an engine on its way leaves it on its way. -/
theorem Traced.step (h : Traced channel c past run) (checking : Bool)
    (hip : past.length < c.log.length) :
    Ends (execute checking c (c.log[past.length].view c.serial past.length)) run
      (fun _ run' => Traced channel c (past ++ [run]) run') fun _ _ => True := by
  obtain ⟨hsane, -, hstands, model, branches, hpre, hchannel, hnoted, hrest⟩ := h
  have hrecorded := hsane.wellFormed.recorded _ (List.getElem_mem hip)
  have hlive := hsane.wellFormed.live hip
  refine ((ends_execute_advances hsane.two_le_dim hsane.size_lt hstands hrecorded hlive).and
    (ends_execute_noise hsane.two_le_dim hstands hrecorded hlive hpre)).mono
    (fun _ run' hrun' => ?_) fun _ _ _ => trivial
  obtain ⟨hadvances, model', record, hpre', hchannel', hdraws⟩ := hrun'
  have hlength : (past ++ [run]).length = past.length + 1 := List.length_append
  refine ⟨⟨hsane.wellFormed, hsane.two_le_dim, hsane.size_lt, hadvances.fits⟩, ?_, ?_,
    model', _, hpre', hchannel'.trans hchannel, fun i hi => ?_, fun i record' hi hrecord' => ?_⟩
  · rw [hlength]
    exact hip
  · rw [hlength, Circuit.measuredAfter_succ hip]
    exact hadvances.toStands
  · rw [hlength] at hi
    rcases Nat.lt_succ_iff_lt_or_eq.mp hi with hlt | rfl
    · obtain ⟨before, hbefore, hnotes⟩ := hnoted i hlt
      refine ⟨before, ?_, ?_⟩
      · rw [List.getElem?_modify_ne _ _ hlt.ne', getElem?_extendedTo hbefore]
      · rw [List.getElem_append_left hlt]
        exact hnotes
    -- the list at the place of the step was empty, so it is now what was noted
    · obtain ⟨before, hbefore⟩ := exists_getElem?_extendedTo past.length branches
      obtain rfl : before = [] := (mem_of_extendedTo hbefore).elim (hrest _ _ (Nat.le_refl _)) id
      refine ⟨record, ?_, ?_⟩
      · rw [List.getElem?_modify_eq, hbefore]
        rfl
      · rw [List.getElem_concat_length rfl, ← hchannel]
        exact hdraws.noted hpre rfl
  · rw [hlength] at hi
    rw [List.getElem?_modify_ne _ _ (Nat.ne_of_lt hi)] at hrecord'
    exact (mem_of_extendedTo hrecord').elim (hrest i record' (Nat.le_of_succ_le hi)) id

/-- Where an engine on its way stands, and what is in its record. -/
theorem Underway.traced [Capacity] (h : Underway channel c past run) :
    Traced channel c past run := by
  -- the record is empty at the start, and each step adds to it at its own place
  induction h with
  | ready h hpre hchannel =>
    obtain ⟨hsane, -⟩ := h.sane
    refine ⟨hsane, Nat.zero_le _, h.stands.1, _, _, hpre, hchannel, ?_, ?_⟩
    · intro i hi
      exact absurd hi (Nat.not_lt_zero i)
    intro i record _ hrecord
    exact h.eq_nil (noiseBranches?_of_noise hpre) record (List.mem_of_getElem? hrecord)
  | attempt h call ih => exact ih.attempt call
  | step h checking hip hrun ih =>
    have hstep := ih.step checking hip
    unfold Ends at hstep
    rw [hrun] at hstep
    exact hstep

/-- The first steps of a run, as many as succeed, are steps of an engine on its way. -/
theorem ends_steps_underway [Capacity] {checking : Bool} {model : Trajectory S}
    {branches : List (List Nat)} (h : Ready c run.engine)
    (hpre : run.engine.preStep = .noise (.trajectory model) branches) (t : Nat) :
    Ends ((c.views.take t).forM (execute checking c)) run
      (fun _ run' => ∃ past : List (Run S R), past.length = min t c.log.length ∧
        Underway model.channel c past run') fun _ _ => True := by
  refine ends_steps h.sane.1.wellFormed.ordered
    (fun i run' => ∃ past : List (Run S R), past.length = i ∧ Underway model.channel c past run')
    ⟨[], rfl, .ready h hpre rfl⟩ ?_
  rintro i hi - run' ⟨past, rfl, hunderway⟩
  unfold Ends
  split
  · next run'' hrun =>
    exact ⟨past ++ [run'], List.length_append, hunderway.step checking hi hrun⟩
  · trivial

/-- In the record of an engine that carries out the steps of its circuit in their order there is, for
each step that it carried out, one branch for each qudit that was live before the step, drawn at its
position, and nothing for all other steps. The circuit may have grown in between, and any part of a
run is such a way. Right after the engine was made or reset, there is an empty list for each step that
the circuit then has. -/
theorem noise_recorded [Capacity] (channel : Channel S) (c : Circuit S) :
    (∀ engine : Engine S R, Made c engine → engine.isNoisy = true →
      engine.noiseBranches? = some (List.replicate c.stepCount [])) ∧
    (∀ engine : Engine S R, engine.isNoisy = true →
      (engine.reset c).noiseBranches? = some (List.replicate c.stepCount [])) ∧
    (∀ (checking : Bool) (run : Run S R) (model : Trajectory S) branches, Ready c run.engine →
      run.engine.preStep = .noise (.trajectory model) branches → model.channel = channel →
        ∀ t, Ends ((c.views.take t).forM (execute checking c)) run
          (fun _ run' => ∃ past : List (Run S R), past.length = min t c.log.length ∧
            Underway channel c past run') fun _ _ => True) ∧
    ∀ (past : List (Run S R)) (run : Run S R), Underway channel c past run →
      ∃ branches, run.engine.noiseBranches? = some branches ∧
        (∀ i (hi : i < past.length), ∃ record, branches[i]? = some record ∧
          Noted channel c i past[i] record) ∧
        ∀ i record, past.length ≤ i → branches[i]? = some record → record = [] := by
  refine ⟨fun engine h => h.branches_eq, fun engine hnoisy => ?_, ?_, fun past run h => ?_⟩
  · obtain ⟨branches, hbranches⟩ := isNoisy_iff.mp hnoisy
    rw [noiseBranches?_reset, hbranches]
    rfl
  · rintro checking run model branches h hpre rfl t
    exact ends_steps_underway h hpre t
  · obtain ⟨model, branches, hpre, -, hnoted, hrest⟩ := h.traced.record
    exact ⟨branches, noiseBranches?_of_noise hpre, hnoted, hrest⟩

end Way

section

attribute [local instance] Capacity.common

/-- A qubit that is measured and another one that is flipped, on a new engine with noise that reads
out each live qubit before each step. -/
theorem noise_recorded_readout :
    let c : Circuit ℝ := (Circuit.empty 0 2 1 2 "" (fun _ => "") fun _ => 0).attemptAll
      [.measureZ (.int 0) (.int 0) "", .gate (.operator Gate.pauliX) [.int 1] ""]
    let engine : Engine ℝ ℝ := start c {} (freshNoise c (.trajectory (.start readout)))
    Made c engine ∧ engine.noiseBranches? = some [[], []] ∧
      (engine.reset c).noiseBranches? = some [[], []] ∧
      Ends ((c.views.take 2).forM (execute false c)) ⟨engine, .ofList [], []⟩
        (fun _ run => ∃ past : List (Run ℝ ℝ), past.length = 2 ∧ Underway readout c past run ∧
          ∃ branches, run.engine.noiseBranches? = some branches ∧
            (∀ i (hi : i < past.length), ∃ record, branches[i]? = some record ∧
              Noted readout c i past[i] record) ∧
            ∀ i record, past.length ≤ i → branches[i]? = some record → record = [])
        fun _ _ => False := by
  intro c engine
  have hcreate : Circuit.create? 0 (.int 2) (.int 1) (.int 2) "" (fun _ => .ok fun _ => "")
      (fun _ => 0) = .ok (Circuit.empty 0 2 1 2 "" (fun _ => "") fun _ => 0 : Circuit ℝ) := rfl
  have hbuilt : c.Built := ⟨0, .int 2, .int 1, .int 2, "", _, _, _, _, hcreate, rfl⟩
  have hmade : Made c engine := by
    refine .intro _ (some readout) _ hbuilt rfl (fun channel hmem => ?_) rfl
    obtain rfl := Option.some.inj hmem
    exact ⟨_, _, _, create_readout⟩
  have hready : Ready c engine := .made hmade
  have hunitary : c.Unitary := unitary_of_pauliX rfl
  obtain ⟨hnew, hreset, hway, hrecord⟩ := noise_recorded (R := ℝ) readout c
  refine ⟨hmade, hnew engine hmade rfl, hreset engine rfl, ?_⟩
  -- the channel keeps the trace and the operator is unitary, so no step fails
  have hpreserving : engine.preStep.Preserving := preserving_readout
  have hsucceeds : Ends ((c.views.take 2).forM (execute false c)) ⟨engine, .ofList [], []⟩ _ _ :=
    ends_run_normed false hready.sane.1 hready.sane.2 hunitary hpreserving 2
  refine (hsucceeds.and (hway false _ _ _ hready rfl rfl 2)).mono (fun _ run hrun => ?_)
    fun _ _ hfalse => hfalse.1
  obtain ⟨-, past, hpast, hunderway⟩ := hrun
  exact ⟨past, hpast, hunderway, hrecord past run hunderway⟩

end

end Engine

end QuditSim
